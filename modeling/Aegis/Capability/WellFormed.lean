import Mathlib
import Aegis.Capability.Refinement

/-!
# Every run keeps the lease tree well formed

The invariant `LeaseTree` holds after every run from `new()`, because every
state of a run represents some forest.  What the invariant buys is collected
here: references are never stale, a slot keeps the node it was given until the
slot is emptied, nodes are not leaked, and creation runs out of nodes exactly
when `NODES` slots are occupied.  None of it depends on the length of the run, so
none of it is affected by 16-bit generations wrapping around.
-/

namespace Aegis.Capability

open Foundation Relation

variable {TASKS SLOTS NODES : ℕ}

namespace CapabilitySystem

/-- The slots that hold a capability, over all tasks. -/
def occupiedSlots (caps : CapabilitySystem TASKS SLOTS NODES) :
    Finset (Position TASKS SLOTS) :=
  Finset.univ.filter fun p => (caps.slotAt p).isSome

/-- Following parents from a live node stays among the live nodes. -/
theorem LeaseTree.live_of_walk {caps : CapabilitySystem TASKS SLOTS NODES}
    (tree : caps.LeaseTree) (hN : NODES ≤ 65536) {n : ℕ} {i j : Fin NODES}
    (live : (caps.nodeAt i).live) (hwalk : walk caps.derivedFrom n i = some j) :
    (caps.nodeAt j).live := by
  induction n generalizing j with
  | zero =>
      rw [walk_zero, Option.some.injEq] at hwalk
      exact hwalk ▸ live
  | succ n ih =>
      rw [walk_succ, Option.bind_eq_some_iff] at hwalk
      obtain ⟨k, hk, hkj⟩ := hwalk
      rcases tree.parent_cases hN (ih hk) with ⟨-, hnone⟩ | ⟨j', hj', -, hsome⟩
      · rw [hnone] at hkj
        cases hkj
      · rw [hsome, Option.some.injEq] at hkj
        exact hkj ▸ hj'

/-- Every live node descends, in fewer than `NODES` steps, from a live node
without a parent. -/
theorem LeaseTree.exists_root {caps : CapabilitySystem TASKS SLOTS NODES}
    (tree : caps.LeaseTree) (hN : NODES ≤ 65536) {i : Fin NODES}
    (live : (caps.nodeAt i).live) :
    ∃ n < NODES, ∃ j, walk caps.derivedFrom n i = some j ∧ (caps.nodeAt j).live ∧
      (caps.nodeAt j).parent = none := by
  obtain ⟨n, hn, j, hwalk, hend⟩ := tree.acyclic.exists_end i
  rw [Fintype.card_fin] at hn
  have hj := tree.live_of_walk hN live hwalk
  refine ⟨n, hn, j, hwalk, hj, ?_⟩
  rcases tree.parent_cases hN hj with ⟨hparent, -⟩ | ⟨k, -, -, hsome⟩
  · exact hparent
  · rw [hend] at hsome
    cases hsome

end CapabilitySystem

namespace Represents

variable {caps : CapabilitySystem TASKS SLOTS NODES} {f : LeaseForest TASKS SLOTS}

theorem occupiedSlots_eq (rep : Represents caps f) : caps.occupiedSlots = f.occupied := by
  ext p
  rw [CapabilitySystem.occupiedSlots, Finset.mem_filter, Forest.mem_occupied, rep.isSome_iff]
  simp

/-- Past the checks on its arguments, creation fails exactly when all nodes are
in use. -/
theorem add_outOfNodes_iff (rep : Represents caps f) (p : Position TASKS SLOTS)
    (value : ResolvedCapability) (parent : Option (Position TASKS SLOTS)) :
    (f.add NODES p value parent).1 = .error .outOfNodes ↔
      caps.occupiedSlots.card = NODES := by
  rw [rep.occupiedSlots_eq, LeaseForest.add]
  by_cases full : f.occupied.card = NODES
  · simp [full]
  · simp [full]

/-- A destination that passes its check is a free slot. -/
theorem vacancyAt_of_checkDestination (rep : Represents caps f) {task : TaskId} {slot : ℕ}
    (h : caps.checkDestination task slot = .ok ()) : ∃ p, f.vacancyAt task slot = .ok p := by
  rw [rep.checkDestination_eq] at h
  cases hv : f.vacancyAt task slot with
  | error e =>
      rw [hv] at h
      cases h
  | ok p => exact ⟨p, rfl⟩

/-- A source that passes its checks is an occupied slot holding what it resolves
to. -/
theorem entryAt_of_resolveRef (rep : Represents caps f) (hN : NODES ≤ 65536)
    {task : TaskId} {slot : ℕ} {ref : CapRef} {resolved : ResolvedCapability}
    (hcap : caps.capAt task slot = .ok ref) (hresolve : caps.resolveRef ref = .ok resolved) :
    ∃ q source, f.entryAt task slot = .ok (q, source) ∧ source.value = resolved := by
  cases he : f.entryAt task slot with
  | error e =>
      rw [rep.capAt_error he] at hcap
      cases hcap
  | ok found =>
      obtain ⟨ref', hcap', -, hresolve'⟩ := rep.capAt_ok hN he
      rw [hcap, Except.ok.injEq] at hcap'
      rw [← hcap', hresolve, Except.ok.injEq] at hresolve'
      exact ⟨found.1, found.2, rfl, hresolve'.symm⟩

end Represents

/-- A creating call fails with `outOfNodes` when the abstract one does. -/
theorem outOfNodes_iff_spec {caps caps' : CapabilitySystem TASKS SLOTS NODES}
    {call : Call (CapabilitySystem TASKS SLOTS NODES) CapError Unit}
    {r : Except CapError Unit} {spec : CapResult} (hcall : call caps = some (r, caps'))
    (hspec : spec = r.map fun _ => .unit) :
    (∃ caps'', call caps = some (.error .outOfNodes, caps'')) ↔
      spec = .error .outOfNodes := by
  rw [hcall, hspec]
  cases r with
  | error e =>
      constructor
      · rintro ⟨caps'', h⟩
        cases h
        rfl
      · intro h
        cases h
        exact ⟨caps', rfl⟩
  | ok u =>
      constructor
      · rintro ⟨caps'', h⟩
        cases h
      · intro h
        cases h

theorem createRoot_outOfNodes_iff {caps : CapabilitySystem TASKS SLOTS NODES}
    {f : LeaseForest TASKS SLOTS} (rep : Represents caps f) (hN : NODES ≤ 65536)
    {owner : TaskId} {slot : ℕ} (object : Object) (rights : Rights)
    (vacant : caps.checkDestination owner slot = .ok ()) :
    (∃ caps', CapabilitySystem.createRoot owner slot object rights caps =
        some (.error .outOfNodes, caps')) ↔ caps.occupiedSlots.card = NODES := by
  obtain ⟨p, hv⟩ := rep.vacancyAt_of_checkDestination vacant
  obtain ⟨r, caps', hcall, hmatch⟩ := rep.createRoot hN owner slot object rights
  rw [outOfNodes_iff_spec hcall hmatch.result]
  simp only [LeaseForest.specStep, hv]
  exact rep.add_outOfNodes_iff p ⟨object, rights⟩ none

theorem mint_outOfNodes_iff {caps : CapabilitySystem TASKS SLOTS NODES}
    {f : LeaseForest TASKS SLOTS} (rep : Represents caps f) (hN : NODES ≤ 65536)
    {sourceTask : TaskId} {sourceSlot : ℕ} {destinationTask : TaskId} {destinationSlot : ℕ}
    {rights : Rights} {ref : CapRef} {resolved : ResolvedCapability}
    (vacant : caps.checkDestination destinationTask destinationSlot = .ok ())
    (hcap : caps.capAt sourceTask sourceSlot = .ok ref)
    (hresolve : caps.resolveRef ref = .ok resolved)
    (granted : resolved.rights.contains Rights.GRANT)
    (attenuated : resolved.rights.contains rights) :
    (∃ caps', CapabilitySystem.mint sourceTask sourceSlot destinationTask destinationSlot
        rights caps = some (.error .outOfNodes, caps')) ↔
      caps.occupiedSlots.card = NODES := by
  obtain ⟨p, hv⟩ := rep.vacancyAt_of_checkDestination vacant
  obtain ⟨q, source, hs, rfl⟩ := rep.entryAt_of_resolveRef hN hcap hresolve
  obtain ⟨r, caps', hcall, hmatch⟩ :=
    rep.mint hN sourceTask sourceSlot destinationTask destinationSlot rights
  rw [outOfNodes_iff_spec hcall hmatch.result]
  simp only [LeaseForest.specStep, hv, hs, granted, attenuated, Bool.and_self, if_true]
  exact rep.add_outOfNodes_iff p _ (some q)

/-- **A slot keeps its node.**  From any represented state, along any run during
which the slot is never emptied, it goes on naming the same node, and that node is
not touched: it is never recycled for another capability. -/
theorem slot_keeps_node (hN : NODES ≤ 65536) {caps : CapabilitySystem TASKS SLOTS NODES}
    {f : LeaseForest TASKS SLOTS} (rep : Represents caps f) (ops : List CapOp) :
    ∃ es caps', (capMachine TASKS SLOTS NODES).exec caps ops = some (es, caps') ∧
      ∀ p i, caps.slotAt p = some (caps.refOf i) →
        (∀ ev ∈ es, (ev.after.slotAt p).isSome) →
        caps'.slotAt p = some (caps.refOf i) ∧ caps'.nodeAt i = caps.nodeAt i := by
  refine (Machine.exec_of_invariant
    (fun es caps' => (∃ f', Represents caps' f') ∧
      ∀ p i, caps.slotAt p = some (caps.refOf i) →
        (∀ ev ∈ es, (ev.after.slotAt p).isSome) →
        caps'.slotAt p = some (caps.refOf i) ∧ caps'.nodeAt i = caps.nodeAt i)
    ⟨⟨f, rep⟩, fun p i hp _ => ⟨hp, rfl⟩⟩ ?_ ops).imp
      fun es ⟨caps', hexec, _, hkeeps⟩ => ⟨caps', hexec, hkeeps⟩
  rintro es caps₁ op ⟨⟨f₁, rep₁⟩, hkeeps⟩
  obtain ⟨r, caps₂, f₂, hstep, -, rep₂, hframe⟩ := capStep_transition rep₁ hN op
  refine ⟨r, caps₂, hstep, ⟨f₂, rep₂⟩, fun p i hp held => ?_⟩
  obtain ⟨hslot, hnode⟩ := hkeeps p i hp fun ev hev => held ev (by simp [hev])
  have href : caps₁.refOf i = caps.refOf i := by
    rw [CapabilitySystem.refOf, hnode, CapabilitySystem.refOf]
  rcases hframe.kept p i (by rw [hslot, href]) with hnone | ⟨hsome, hsame⟩
  · have occupied := held ⟨caps₁, op, r, caps₂⟩ (by simp)
    simp [hnone] at occupied
  · exact ⟨by rw [hsome, href], hsame.trans hnode⟩

/-- **The lease tree is well formed after every run** from `new()`: slots, nodes
and parents agree, parent chains end in a root within `NODES` steps, nothing is
ever stale, a slot keeps its own node from the moment a dead one is taken into use
for it until the slot is emptied, no node is leaked, and creation fails for lack
of nodes exactly when `NODES` slots are occupied. -/
theorem lease_tree_well_formed (TASKS SLOTS NODES : ℕ) (hN : NODES ≤ 65536)
    (ops : List CapOp) :
    ∃ es caps, (capMachine TASKS SLOTS NODES).exec CapabilitySystem.new ops =
        some (es, caps) ∧
      caps.LeaseTree ∧
      (∀ i, (caps.nodeAt i).live → ∃ n < NODES, ∃ j, walk caps.derivedFrom n i = some j ∧
        (caps.nodeAt j).live ∧ (caps.nodeAt j).parent = none) ∧
      (∀ ev ∈ es, ev.result ≠ .error .stale) ∧
      (∀ ev ∈ es, ∀ p r, ev.before.slotAt p = none → ev.after.slotAt p = some r →
        ∃ i, r = ev.after.refOf i ∧ ¬ (ev.before.nodeAt i).live) ∧
      (∀ more, ∃ fs caps', (capMachine TASKS SLOTS NODES).exec caps more =
          some (fs, caps') ∧
        ∀ p i, caps.slotAt p = some (caps.refOf i) →
          (∀ ev ∈ fs, (ev.after.slotAt p).isSome) →
          caps'.slotAt p = some (caps.refOf i) ∧ caps'.nodeAt i = caps.nodeAt i) ∧
      caps.occupiedSlots.card = (Finset.univ.filter fun i => (caps.nodeAt i).live).card ∧
      (∀ owner slot object rights, caps.checkDestination owner slot = .ok () →
        ((∃ caps', CapabilitySystem.createRoot owner slot object rights caps =
          some (.error .outOfNodes, caps')) ↔ caps.occupiedSlots.card = NODES)) ∧
      ∀ sourceTask sourceSlot destinationTask destinationSlot rights ref resolved,
        caps.checkDestination destinationTask destinationSlot = .ok () →
        caps.capAt sourceTask sourceSlot = .ok ref →
        caps.resolveRef ref = .ok resolved →
        resolved.rights.contains Rights.GRANT → resolved.rights.contains rights →
        ((∃ caps', CapabilitySystem.mint sourceTask sourceSlot destinationTask
          destinationSlot rights caps = some (.error .outOfNodes, caps')) ↔
          caps.occupiedSlots.card = NODES) := by
  obtain ⟨es, caps, fs, f, hexec, -, -, rep⟩ :=
    (@capSimulation TASKS SLOTS NODES hN).exec (capSimulation hN).init ops
  have steps := Machine.reachable_init.event hexec
  refine ⟨es, caps, hexec, rep.leaseTree hN, fun i live =>
    (rep.leaseTree hN).exists_root hN live, ?_, ?_, slot_keeps_node hN rep, ?_, ?_, ?_⟩
  · intro ev hev
    obtain ⟨hreach, hstep⟩ := steps ev hev
    obtain ⟨f', -, hmatch⟩ := exists_matches hN hreach hstep
    rw [← hmatch.result]
    exact (f'.specStep_transition NODES ev.op).ne_stale
  · intro ev hev p r hbefore hafter
    obtain ⟨hreach, hstep⟩ := steps ev hev
    obtain ⟨f', -, hmatch⟩ := exists_matches hN hreach hstep
    exact hmatch.frame.fresh p r hbefore hafter
  · rw [rep.occupiedSlots_eq, rep.card_occupied hN]
  · intro owner slot object rights vacant
    exact createRoot_outOfNodes_iff rep hN object rights vacant
  · intro sourceTask sourceSlot destinationTask destinationSlot rights ref resolved vacant
      hcap hresolve granted attenuated
    exact mint_outOfNodes_iff rep hN vacant hcap hresolve granted attenuated

/-- The tables of the running kernel, after a subtree was revoked and its nodes
were taken into use again. -/
theorem lease_tree_well_formed_live :
    (16 : ℕ) ≤ 65536 ∧
    ∃ es caps, (capMachine 4 8 16).exec CapabilitySystem.new
        [.createRoot 0 0 (.frame 42) Rights.ALL, .mint 0 0 1 0 Rights.READ, .revoke 0 0,
          .createRoot 2 1 (.endpoint 7) Rights.WRITE] = some (es, caps) ∧
      caps.LeaseTree ∧ ∀ ev ∈ es, ev.result ≠ .error .stale := by
  refine ⟨by decide, ?_⟩
  obtain ⟨es, caps, hexec, tree, -, fresh, -⟩ :=
    lease_tree_well_formed 4 8 16 (by decide)
      [.createRoot 0 0 (.frame 42) Rights.ALL, .mint 0 0 1 0 Rights.READ, .revoke 0 0,
        .createRoot 2 1 (.endpoint 7) Rights.WRITE]
  exact ⟨es, caps, hexec, tree, fresh⟩

end Aegis.Capability
