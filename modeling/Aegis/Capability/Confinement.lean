import Mathlib
import Aegis.Capability.Refinement
import Aegis.Capability.Provenance

/-!
# Confinement

The authority of a set of tasks is the set of pairs of an object and a right that
the tasks can resolve.  Tasks can move authority among themselves and lose it, but
whatever they gain comes from outside: from a creation into one of their slots, or
from a mint whose source is a task outside the set.  Both facts are read off one
lemma, `Transition.entry_cases`, that says where an entry of the forest can come
from.
-/

namespace Aegis.Capability

open Foundation

variable {TASKS SLOTS NODES : ℕ}

/-- The right with a given number. -/
def Rights.bit (k : Fin 8) : Rights := ⟨(1 : UInt8) <<< UInt8.ofNat k⟩

/-- The number of the right to grant. -/
def grantBit : Fin 8 := 2

theorem Rights.bit_grantBit : Rights.bit grantBit = Rights.GRANT := by decide

/-- What the tasks of a set can resolve: an object and a right. -/
def authority (caps : CapabilitySystem TASKS SLOTS NODES) (tasks : Set TaskId) :
    Set (Object × Fin 8) :=
  {x | ∃ task ∈ tasks, ∃ slot resolved,
    caps.resolve task slot (Rights.bit x.2) = .ok resolved ∧ resolved.object = x.1}

/-- What an event brings into a set of tasks from outside: the object of a
successful creation in one of its slots, or of a successful mint from a task
outside the set, each with the rights it was created or minted with. -/
def introduced (tasks : Set TaskId) (ev : CapEvent TASKS SLOTS NODES) :
    Set (Object × Fin 8) :=
  {x | ev.result = .ok .unit ∧
    match ev.op with
    | .createRoot owner _ object rights =>
        owner ∈ tasks ∧ object = x.1 ∧ rights.contains (Rights.bit x.2)
    | .mint sourceTask sourceSlot destinationTask _ rights =>
        sourceTask ∉ tasks ∧ destinationTask ∈ tasks ∧ rights.contains (Rights.bit x.2) ∧
          ∃ resolved, ev.before.resolve sourceTask sourceSlot Rights.GRANT = .ok resolved ∧
            resolved.object = x.1
    | _ => False}

/-- **Where an entry comes from**: it was there before, or it was created, or it
was minted from an entry that had `GRANT` and at least its rights. -/
theorem LeaseForest.Transition.entry_cases {f f' : LeaseForest TASKS SLOTS} {op : CapOp}
    {r : CapResult} (h : f.Transition op r f') {p : Position TASKS SLOTS}
    {e : Forest.Entry (Position TASKS SLOTS) ResolvedCapability} (he : f'.entry p = some e) :
    f.entry p = some e ∨
    (op = .createRoot p.1 p.2 e.value.object e.value.rights ∧ r = .ok .unit) ∨
    ∃ q source, op = .mint q.1 q.2 p.1 p.2 e.value.rights ∧ r = .ok .unit ∧
      f.entry q = some source ∧ source.value.object = e.value.object ∧
      source.value.rights.contains Rights.GRANT ∧
      source.value.rights.contains e.value.rights := by
  cases h with
  | rejected => exact .inl he
  | resolved => exact .inl he
  | @created owner slot object rights p' hp free =>
      by_cases hpp : p = p'
      · subst hpp
        rw [Forest.insert_entry_self (.root free _), Option.some.injEq] at he
        subst he
        obtain ⟨rfl, rfl⟩ := locate_eq_ok hp
        exact .inr (.inl ⟨rfl, rfl⟩)
      · rw [Forest.insert_entry_of_ne hpp] at he
        exact .inl he
  | @minted sourceTask sourceSlot destinationTask destinationSlot rights p' q source hp free hq
      hsource granted attenuated =>
      by_cases hpp : p = p'
      · subst hpp
        rw [Forest.insert_entry_self (.child free hsource _), Option.some.injEq] at he
        subst he
        obtain ⟨rfl, rfl⟩ := locate_eq_ok hp
        obtain ⟨rfl, rfl⟩ := locate_eq_ok hq
        exact .inr (.inr ⟨q, source, rfl, rfl, hsource, rfl, granted, attenuated⟩)
      · rw [Forest.insert_entry_of_ne hpp] at he
        exact .inl he
  | @pruned task slot p' entry hp hentry =>
      by_cases hdesc : f.Descends p p'
      · rw [Forest.prune_entry_of_descends hdesc] at he
        cases he
      · rw [Forest.prune_entry_of_not_descends hdesc] at he
        exact .inl he

/-- Authority, read off the forest. -/
theorem Represents.mem_authority {caps : CapabilitySystem TASKS SLOTS NODES}
    {f : LeaseForest TASKS SLOTS} (rep : Represents caps f) (hN : NODES ≤ 65536)
    {tasks : Set TaskId} {object : Object} {k : Fin 8} :
    (object, k) ∈ authority caps tasks ↔
      ∃ p e, p.1.val ∈ tasks ∧ f.entry p = some e ∧ e.value.object = object ∧
        e.value.rights.contains (Rights.bit k) := by
  constructor
  · rintro ⟨task, htask, slot, resolved, hresolve, rfl⟩
    obtain ⟨p, e, hp, he, rfl, allowed⟩ := rep.entry_of_resolve hN hresolve
    obtain ⟨rfl, rfl⟩ := locate_eq_ok hp
    exact ⟨p, e, htask, he, rfl, allowed⟩
  · rintro ⟨p, e, htask, he, rfl, allowed⟩
    exact ⟨p.1, htask, p.2, e.value, rep.resolve_of_entry hN (locate_coe p) he allowed, rfl⟩

section Step

variable {caps caps' : CapabilitySystem TASKS SLOTS NODES} {f f' : LeaseForest TASKS SLOTS}
  {op : CapOp} {r : CapResult}

/-- One step: authority gained is authority introduced. -/
theorem authority_step (hN : NODES ≤ 65536) (rep : Represents caps f)
    (rep' : Represents caps' f') (h : f.Transition op r f') (tasks : Set TaskId) :
    authority caps' tasks ⊆
      authority caps tasks ∪ introduced tasks ⟨caps, op, r, caps'⟩ := by
  rintro ⟨object, k⟩ hx
  obtain ⟨p, e, hp, he, rfl, allowed⟩ := (rep'.mem_authority hN).mp hx
  rcases h.entry_cases he with hbefore | ⟨rfl, rfl⟩ |
    ⟨q, source, rfl, rfl, hsource, hobject, granted, attenuated⟩
  · exact .inl ((rep.mem_authority hN).mpr ⟨p, e, hp, hbefore, rfl, allowed⟩)
  · exact .inr ⟨rfl, hp, rfl, allowed⟩
  · by_cases hq : q.1.val ∈ tasks
    · -- A mint within the set: its source already gave the right.
      exact .inl ((rep.mem_authority hN).mpr
        ⟨q, source, hq, hsource, hobject, Rights.contains_trans attenuated allowed⟩)
    · exact .inr ⟨rfl, hq, hp, allowed, source.value,
        rep.resolve_of_entry hN (locate_coe q) hsource granted, hobject⟩

/-- A mint that succeeds has a source that resolves with `GRANT`. -/
theorem resolve_of_mint (hN : NODES ≤ 65536) (rep : Represents caps f)
    {sourceTask sourceSlot destinationTask destinationSlot : ℕ} {rights : Rights}
    (h : f.Transition (.mint sourceTask sourceSlot destinationTask destinationSlot rights)
      (.ok .unit) f') :
    ∃ resolved, caps.resolve sourceTask sourceSlot Rights.GRANT = .ok resolved := by
  generalize hop : CapOp.mint sourceTask sourceSlot destinationTask destinationSlot rights = op
    at h
  generalize hr : (Except.ok CapValue.unit : CapResult) = r at h
  cases h with
  | rejected => cases hr
  | resolved => cases hr
  | created => cases hop
  | minted hp free hq hsource granted attenuated =>
      cases hop
      exact ⟨_, rep.resolve_of_entry hN hq hsource granted⟩
  | pruned => cases hr

/-- A mint out of a set of tasks none of which may grant an object leaves all
authority over that object as it was or smaller. -/
theorem authority_mint (hN : NODES ≤ 65536) (rep : Represents caps f)
    (rep' : Represents caps' f')
    {sourceTask sourceSlot destinationTask destinationSlot : ℕ} {rights : Rights}
    (h : f.Transition (.mint sourceTask sourceSlot destinationTask destinationSlot rights) r f')
    {tasks : Set TaskId} (hsource : sourceTask ∈ tasks) {object : Object}
    (ungranted : (object, grantBit) ∉ authority caps tasks) (others : Set TaskId) (k : Fin 8)
    (hx : (object, k) ∈ authority caps' others) : (object, k) ∈ authority caps others := by
  obtain ⟨p, e, hp, he, hobject, allowed⟩ := (rep'.mem_authority hN).mp hx
  rcases h.entry_cases he with hbefore | ⟨hop, -⟩ |
    ⟨q, source, hop, -, hentry, hsame, granted, -⟩
  · exact (rep.mem_authority hN).mpr ⟨p, e, hp, hbefore, hobject, allowed⟩
  · cases hop
  · cases hop
    refine absurd ((rep.mem_authority hN).mpr
      ⟨q, source, hsource, hentry, hsame.trans hobject, ?_⟩) ungranted
    rw [Rights.bit_grantBit]
    exact granted

end Step

/-- Along a run, authority gained is authority introduced. -/
theorem authority_exec (hN : NODES ≤ 65536) {caps : CapabilitySystem TASKS SLOTS NODES}
    {f : LeaseForest TASKS SLOTS} (rep : Represents caps f) (tasks : Set TaskId)
    (ops : List CapOp) :
    ∃ es caps', (capMachine TASKS SLOTS NODES).exec caps ops = some (es, caps') ∧
      authority caps' tasks ⊆ authority caps tasks ∪ ⋃ ev ∈ es, introduced tasks ev := by
  refine (Machine.exec_of_invariant
    (fun es caps' => (∃ f', Represents caps' f') ∧
      authority caps' tasks ⊆ authority caps tasks ∪ ⋃ ev ∈ es, introduced tasks ev)
    ⟨⟨f, rep⟩, Set.subset_union_left⟩ ?_ ops).imp
      fun es ⟨caps', hexec, _, hauth⟩ => ⟨caps', hexec, hauth⟩
  rintro es caps₁ op ⟨⟨f₁, rep₁⟩, hauth⟩
  obtain ⟨r, caps₂, f₂, hstep, htrans, rep₂, -⟩ := capStep_transition rep₁ hN op
  refine ⟨r, caps₂, hstep, ⟨f₂, rep₂⟩, ?_⟩
  calc authority caps₂ tasks
      ⊆ authority caps₁ tasks ∪ introduced tasks ⟨caps₁, op, r, caps₂⟩ :=
        authority_step hN rep₁ rep₂ htrans tasks
    _ ⊆ (authority caps tasks ∪ ⋃ ev ∈ es, introduced tasks ev) ∪
          introduced tasks ⟨caps₁, op, r, caps₂⟩ := Set.union_subset_union_left _ hauth
    _ = authority caps tasks ∪ ⋃ ev ∈ es ++ [⟨caps₁, op, r, caps₂⟩], introduced tasks ev := by
        rw [Set.union_assoc]
        congr 1
        ext x
        simp [or_and_right, exists_or]

/-- **Confinement.**  From every reachable state, along every run, a set of tasks
gains no authority but what creations and mints from outside bring into its slots.
A mint needs `GRANT` in the authority of its own task over the object it passes
on, so a set of tasks without `GRANT` on an object cannot, by minting, enlarge
anybody's authority over it. -/
theorem authority_confined (TASKS SLOTS NODES : ℕ) (hN : NODES ≤ 65536)
    (caps : CapabilitySystem TASKS SLOTS NODES)
    (reachable : (capMachine TASKS SLOTS NODES).Reachable caps) (tasks : Set TaskId)
    (ops : List CapOp) :
    ∃ es caps', (capMachine TASKS SLOTS NODES).exec caps ops = some (es, caps') ∧
      authority caps' tasks ⊆ authority caps tasks ∪ ⋃ ev ∈ es, introduced tasks ev ∧
      ∀ ev ∈ es, ∀ sourceTask sourceSlot destinationTask destinationSlot rights,
        ev.op = .mint sourceTask sourceSlot destinationTask destinationSlot rights →
        (ev.result = .ok .unit →
          ∃ resolved, ev.before.resolve sourceTask sourceSlot Rights.GRANT = .ok resolved ∧
            (resolved.object, grantBit) ∈ authority ev.before {sourceTask}) ∧
        ∀ object, sourceTask ∈ tasks → (object, grantBit) ∉ authority ev.before tasks →
          ∀ others k, (object, k) ∈ authority ev.after others →
            (object, k) ∈ authority ev.before others := by
  obtain ⟨f, rep⟩ := (capSimulation hN).exists_of_reachable reachable
  obtain ⟨es, caps', hexec, hauth⟩ := authority_exec hN rep tasks ops
  refine ⟨es, caps', hexec, hauth, ?_⟩
  intro ev hev sourceTask sourceSlot destinationTask destinationSlot rights hop
  obtain ⟨hreach, hstep⟩ := reachable.event hexec ev hev
  obtain ⟨f₁, rep₁, hmatch⟩ := exists_matches hN hreach hstep
  have htrans : f₁.Transition ev.op ev.result (f₁.specStep NODES ev.op).2 :=
    hmatch.result ▸ f₁.specStep_transition NODES ev.op
  rw [hop] at htrans
  constructor
  · intro hresult
    rw [hresult] at htrans
    obtain ⟨resolved, hresolve⟩ := resolve_of_mint hN rep₁ htrans
    exact ⟨resolved, hresolve, sourceTask, rfl, sourceSlot, resolved,
      Rights.bit_grantBit ▸ hresolve, rfl⟩
  · intro object hsource ungranted others k hx
    exact authority_mint hN rep₁ (hop ▸ hmatch.state) htrans hsource ungranted others k hx

/-- Two tasks that share an endpoint; one of them passes it on, then loses it. -/
theorem authority_confined_live :
    (16 : ℕ) ≤ 65536 ∧ (capMachine 4 8 16).Reachable CapabilitySystem.new ∧
    ∃ es caps', (capMachine 4 8 16).exec CapabilitySystem.new
        [.createRoot 0 0 (.endpoint 7) Rights.ALL, .mint 0 0 1 0 Rights.READ,
          .mint 1 0 2 0 Rights.READ, .revoke 0 0] = some (es, caps') ∧
      authority caps' {1, 2} ⊆
        authority (CapabilitySystem.new : CapabilitySystem 4 8 16) {1, 2} ∪
          ⋃ ev ∈ es, introduced {1, 2} ev := by
  refine ⟨by decide, Machine.reachable_init, ?_⟩
  obtain ⟨es, caps', hexec, hauth, -⟩ :=
    authority_confined 4 8 16 (by decide) CapabilitySystem.new Machine.reachable_init {1, 2}
      [.createRoot 0 0 (.endpoint 7) Rights.ALL, .mint 0 0 1 0 Rights.READ,
        .mint 1 0 2 0 Rights.READ, .revoke 0 0]
  exact ⟨es, caps', hexec, hauth⟩

end Aegis.Capability
