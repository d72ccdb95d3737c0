import Mathlib
import Aegis.Foundation.Successor
import Aegis.Capability.Model

/-!
# The lease tree

The slot table, the node table and the parent references determine each other:
a slot names a live node of the same generation, a live node is named by exactly
one slot, and its parent is live with a matching generation, without cycles.
`LeaseTree` says so.  This file states it and gives one specification for each
function of the model that reads it:

* the lookups (`checkDestination_eq`, `capAt_eq`, `resolveRef_refOf`) in terms of
  `slotAt` and `refOf`;
* the parent walk (`isDescendantOrSelf_iff`), which decides reachability along
  parents: its cut-off at `NODES` hops never cuts a chain of live nodes;
* the two loops of `revoke` (`revokeNodes_eq`, `sweepSpaces_eq`).  The first loop
  kills nodes while later iterations still walk through them; what makes it
  equal to a simultaneous update is that the walk reads parents only, which the
  loop does not touch.
-/

namespace Aegis.Capability

open Foundation Relation

/-- A slot of a task, within bounds. -/
abbrev Position (TASKS SLOTS : ℕ) := Fin TASKS × Fin SLOTS

theorem Position.task_lt {TASKS SLOTS : ℕ} (p : Position TASKS SLOTS) : p.1.val < TASKS :=
  p.1.isLt

theorem Position.slot_lt {TASKS SLOTS : ℕ} (p : Position TASKS SLOTS) : p.2.val < SLOTS :=
  p.2.isLt

/-- The bounds check every operation starts with: tasks before slots. -/
def locate {TASKS SLOTS : ℕ} (task : TaskId) (slot : ℕ) :
    Except CapError (Position TASKS SLOTS) :=
  if ht : task < TASKS then
    if hs : slot < SLOTS then .ok (⟨task, ht⟩, ⟨slot, hs⟩) else .error .badSlot
  else .error .badTask

theorem locate_coe {TASKS SLOTS : ℕ} (p : Position TASKS SLOTS) :
    locate p.1 p.2 = .ok p := by
  simp [locate]

theorem locate_eq_ok {TASKS SLOTS : ℕ} {task : TaskId} {slot : ℕ}
    {p : Position TASKS SLOTS} (h : locate task slot = .ok p) :
    task = p.1 ∧ slot = p.2 := by
  unfold locate at h
  split at h
  · split at h
    · cases h
      exact ⟨rfl, rfl⟩
    · cases h
  · cases h

namespace CapabilitySystem

variable {TASKS SLOTS NODES : ℕ}

/-- The contents of a slot. -/
def slotAt (caps : CapabilitySystem TASKS SLOTS NODES) (p : Position TASKS SLOTS) :
    Option CapRef :=
  caps.spaces[p.1][p.2]

/-- The node at an index of the table. -/
def nodeAt (caps : CapabilitySystem TASKS SLOTS NODES) (i : Fin NODES) : Node :=
  getElem caps.nodes i i.isLt

/-- The reference that currently names a node. -/
def refOf (caps : CapabilitySystem TASKS SLOTS NODES) (i : Fin NODES) : CapRef :=
  ⟨UInt16.ofNat i, (caps.nodeAt i).generation⟩

@[simp] theorem refOf_generation (caps : CapabilitySystem TASKS SLOTS NODES)
    (i : Fin NODES) : (caps.refOf i).generation = (caps.nodeAt i).generation := rfl

/-- The node a reference points at, whatever its generation. -/
def nodeOf (r : CapRef) : Option (Fin NODES) :=
  if h : r.node.toNat < NODES then some ⟨r.node.toNat, h⟩ else none

/-- The parent pointer of a live node.  Dead nodes keep a stale parent in the
table; it is not part of the tree. -/
def derivedFrom (caps : CapabilitySystem TASKS SLOTS NODES) (i : Fin NODES) :
    Option (Fin NODES) :=
  if (caps.nodeAt i).live then (caps.nodeAt i).parent.bind nodeOf else none

/-- **The lease tree invariant**, over slots, nodes and parent references. -/
structure LeaseTree (caps : CapabilitySystem TASKS SLOTS NODES) : Prop where
  /-- A slot names a live node of matching generation. -/
  named : ∀ p r, caps.slotAt p = some r →
    ∃ i, (caps.nodeAt i).live ∧ r = caps.refOf i
  /-- A live node is named by exactly one slot. -/
  owned : ∀ i, (caps.nodeAt i).live → ∃! p, caps.slotAt p = some (caps.refOf i)
  /-- The parent of a live node is live, with matching generation. -/
  parent_live : ∀ i, (caps.nodeAt i).live → ∀ r, (caps.nodeAt i).parent = some r →
    ∃ j, (caps.nodeAt j).live ∧ r = caps.refOf j
  /-- Following parents never cycles. -/
  acyclic : Acyclic caps.derivedFrom

/-! ## Lookups -/

theorem checkDestination_eq (caps : CapabilitySystem TASKS SLOTS NODES)
    (task : TaskId) (slot : ℕ) :
    caps.checkDestination task slot =
      match locate task slot with
      | .error e => .error e
      | .ok p =>
          if (caps.slotAt p).isSome then .error .destinationOccupied else .ok () := by
  unfold checkDestination locate
  by_cases ht : task < TASKS
  · by_cases hs : slot < SLOTS
    · simp only [ht, hs, dif_pos, slotAt, Vector.getElem?_eq_getElem]
      rfl
    · simp [ht, hs]
  · simp [ht]

theorem capAt_eq (caps : CapabilitySystem TASKS SLOTS NODES) (task : TaskId)
    (slot : ℕ) :
    caps.capAt task slot =
      match locate task slot with
      | .error e => .error e
      | .ok p =>
          match caps.slotAt p with
          | none => .error .emptySlot
          | some r => .ok r := by
  unfold capAt locate
  by_cases ht : task < TASKS
  · by_cases hs : slot < SLOTS
    · simp only [ht, hs, dif_pos, slotAt, Vector.getElem?_eq_getElem, Fin.getElem_fin]
      cases caps.spaces[task][slot] with
      | none => rfl
      | some r => rfl
    · simp [ht, hs]
  · simp [ht]

section Nodes

variable (hN : NODES ≤ 65536)
include hN

/-- `index as u16` loses nothing. -/
theorem toNat_ofNat_index (i : Fin NODES) : (UInt16.ofNat i).toNat = i := by
  have hi : (i : ℕ) < 65536 := lt_of_lt_of_le i.2 hN
  simp only [UInt16.toNat_ofNat']
  exact Nat.mod_eq_of_lt hi

theorem refOf_injective (caps : CapabilitySystem TASKS SLOTS NODES) :
    Function.Injective caps.refOf := by
  intro i j h
  have hnode : UInt16.ofNat i = UInt16.ofNat j := congrArg CapRef.node h
  have hval := congrArg UInt16.toNat hnode
  rw [toNat_ofNat_index hN, toNat_ofNat_index hN] at hval
  exact Fin.ext hval

theorem nodeOf_refOf (caps : CapabilitySystem TASKS SLOTS NODES) (i : Fin NODES) :
    nodeOf (caps.refOf i) = some i := by
  simp [nodeOf, refOf, toNat_ofNat_index hN]

theorem getElem?_refOf (caps : CapabilitySystem TASKS SLOTS NODES) (i : Fin NODES) :
    caps.nodes[(caps.refOf i).node.toNat]? = some (caps.nodeAt i) := by
  simp [refOf, toNat_ofNat_index hN, nodeAt]

theorem resolveRef_refOf (caps : CapabilitySystem TASKS SLOTS NODES) {i : Fin NODES}
    (live : (caps.nodeAt i).live) :
    caps.resolveRef (caps.refOf i) =
      .ok ⟨(caps.nodeAt i).object, (caps.nodeAt i).rights⟩ := by
  unfold resolveRef
  rw [getElem?_refOf hN]
  simp [live, refOf]

/-! ## The parent walk -/

omit hN in
/-- The walk reads nothing of a node but its parent. -/
theorem walkToRoot_congr {nodes nodes' : Vector Node NODES}
    (h : ∀ (i : ℕ) (_ : i < NODES), nodes'[i].parent = nodes[i].parent) (root : CapRef)
    (remaining : ℕ) (current : Option CapRef) :
    walkToRoot nodes' root remaining current = walkToRoot nodes root remaining current := by
  induction remaining generalizing current with
  | zero =>
      cases current with
      | none => simp [walkToRoot]
      | some cap =>
          unfold walkToRoot
          by_cases hc : cap.node.toNat < NODES
          · simp [hc]
          · simp [hc]
  | succ remaining ih =>
      cases current with
      | none => simp [walkToRoot]
      | some cap =>
          unfold walkToRoot
          by_cases hc : cap.node.toNat < NODES
          · simp [hc, ih, h cap.node.toNat hc]
          · simp [hc]

/-- The parent of a live node, seen as a reference and as an index. -/
theorem LeaseTree.parent_cases {caps : CapabilitySystem TASKS SLOTS NODES}
    (tree : caps.LeaseTree) {i : Fin NODES} (live : (caps.nodeAt i).live) :
    ((caps.nodeAt i).parent = none ∧ caps.derivedFrom i = none) ∨
      ∃ j, (caps.nodeAt j).live ∧ (caps.nodeAt i).parent = some (caps.refOf j) ∧
        caps.derivedFrom i = some j := by
  cases hparent : (caps.nodeAt i).parent with
  | none => exact Or.inl ⟨rfl, by simp [derivedFrom, live, hparent]⟩
  | some r =>
      obtain ⟨j, hj, rfl⟩ := tree.parent_live i live r hparent
      exact Or.inr ⟨j, hj, rfl, by simp [derivedFrom, live, hparent, nodeOf_refOf hN]⟩

omit hN in
theorem walkToRoot_self (nodes : Vector Node NODES) (root : CapRef) (remaining : ℕ) :
    walkToRoot nodes root remaining (some root) = true := by
  unfold walkToRoot
  simp

/-- The walk with `remaining` hops left finds the root iff it is that close. -/
theorem walkToRoot_iff {caps : CapabilitySystem TASKS SLOTS NODES}
    (tree : caps.LeaseTree) (r : Fin NODES) (remaining : ℕ) {i : Fin NODES}
    (live : (caps.nodeAt i).live) :
    walkToRoot caps.nodes (caps.refOf r) remaining (some (caps.refOf i)) = true ↔
      ∃ n ≤ remaining, walk caps.derivedFrom n i = some r := by
  by_cases hir : i = r
  · subst hir
    rw [walkToRoot_self]
    simp only [true_iff]
    exact ⟨0, Nat.zero_le _, rfl⟩
  have hne : caps.refOf i ≠ caps.refOf r := fun h => hir (refOf_injective hN caps h)
  have away : walk caps.derivedFrom 0 i ≠ some r := fun h => hir (Option.some.inj h)
  cases remaining with
  | zero =>
      unfold walkToRoot
      simp [hne, hir, getElem?_refOf hN]
  | succ remaining =>
      unfold walkToRoot
      simp only [hne, if_false, getElem?_refOf hN]
      rcases tree.parent_cases hN live with ⟨hparent, hroot⟩ | ⟨j, hj, hparent, hnext⟩
      · -- a parentless node other than `r` leads nowhere
        rw [hparent]
        simp only [walkToRoot, Bool.false_eq_true, false_iff, not_exists, not_and]
        intro n _ hwalk
        cases n with
        | zero => exact away hwalk
        | succ n => simp [walk, hroot] at hwalk
      · rw [hparent, walkToRoot_iff tree r remaining hj]
        constructor
        · rintro ⟨n, hn, hwalk⟩
          exact ⟨n + 1, by omega, by simpa [walk, hnext] using hwalk⟩
        · rintro ⟨n, hn, hwalk⟩
          cases n with
          | zero => exact absurd hwalk away
          | succ n => exact ⟨n, by omega, by simpa [walk, hnext] using hwalk⟩

/-- **`is_descendant_or_self` decides descent.**  The cut-off never fires on a
chain of live nodes: such a chain has fewer than `NODES` hops. -/
theorem isDescendantOrSelf_iff {caps : CapabilitySystem TASKS SLOTS NODES}
    (tree : caps.LeaseTree) (r : Fin NODES) {i : Fin NODES}
    (live : (caps.nodeAt i).live) :
    isDescendantOrSelf caps.nodes i (caps.refOf r) = true ↔
      ReflTransGen (Follows caps.derivedFrom) i r := by
  refine (walkToRoot_iff hN tree r NODES live).trans ⟨?_, ?_⟩
  · rintro ⟨n, -, hwalk⟩
    exact reflTransGen_of_walk hwalk
  · intro h
    obtain ⟨n, hwalk⟩ := exists_walk_of_reflTransGen h
    have hn := tree.acyclic.lt_card_of_walk hwalk
    rw [Fintype.card_fin] at hn
    exact ⟨n, hn.le, hwalk⟩

end Nodes

/-! ## The two loops of `revoke` -/

/-- The nodes the first loop of `revoke` kills, judged on the table it starts
from. -/
def condemned (nodes : Vector Node NODES) (root : CapRef) (i : Fin NODES) : Bool :=
  (getElem nodes i i.isLt).live && isDescendantOrSelf nodes i root

/-- **The loop is a simultaneous update.**  After the indices of `l`, exactly the
condemned ones among them are revoked.  An iteration at `i` sees the parents of
the original table and the original node at `i`, so it judges as the original
table would. -/
theorem foldl_revokeNode (nodes : Vector Node NODES) (root : CapRef)
    (l : List (Fin NODES)) (hl : l.Nodup) :
    (∀ i : Fin NODES, getElem (l.foldl (revokeNode root) (nodes, 0)).1 i i.isLt =
      if i ∈ l ∧ condemned nodes root i then (getElem nodes i i.isLt).revoked
      else getElem nodes i i.isLt) ∧
    (l.foldl (revokeNode root) (nodes, 0)).2 = l.countP (condemned nodes root) := by
  induction l using List.reverseRecOn with
  | nil => simp
  | append_singleton l k ih =>
      obtain ⟨hnodup, hk⟩ : l.Nodup ∧ k ∉ l := by
        rw [List.nodup_append] at hl
        exact ⟨hl.1, fun hmem => hl.2.2 k hmem k (by simp) rfl⟩
      obtain ⟨htable, hcount⟩ := ih hnodup
      rw [List.foldl_append, List.countP_append]
      set acc := l.foldl (revokeNode root) (nodes, 0) with hacc
      have hself : acc.1[k] = nodes[k] := by simp [htable k, hk]
      have hparents : ∀ (i : ℕ) (_ : i < NODES), acc.1[i].parent = nodes[i].parent := by
        intro i hi
        have hnode := htable ⟨i, hi⟩
        simp only [Fin.getElem_fin] at hnode
        rw [hnode]
        split
        · rfl
        · rfl
      have hjudge : (acc.1[k].live && isDescendantOrSelf acc.1 k root) =
          condemned nodes root k := by
        unfold condemned isDescendantOrSelf
        rw [hself, walkToRoot_congr hparents]
      have hlast : [k].foldl (revokeNode root) acc =
          if condemned nodes root k then (acc.1.set k nodes[k].revoked, acc.2 + 1) else acc := by
        simp only [List.foldl_cons, List.foldl_nil, revokeNode]
        rw [hjudge, hself]
      rw [hlast]
      by_cases hc : condemned nodes root k = true
      · rw [if_pos hc]
        refine ⟨fun i => ?_, by simp [hcount, hc]⟩
        by_cases hik : i = k
        · subst hik
          simp [hc]
        · have hval : (k : ℕ) ≠ i := fun h => hik (Fin.ext h.symm)
          simpa [Vector.getElem_set, hval, hik] using htable i
      · rw [if_neg hc]
        refine ⟨fun i => ?_, by simp [hcount, hc]⟩
        by_cases hik : i = k
        · subst hik
          simp [htable i, hc]
        · simp [htable i, hik]

/-- The first loop of `revoke` over the whole table. -/
theorem revokeNodes_eq (root : CapRef) (caps : CapabilitySystem TASKS SLOTS NODES) :
    ∃ caps' : CapabilitySystem TASKS SLOTS NODES,
      revokeNodes root caps =
        some (.ok (Finset.univ.filter fun i => condemned caps.nodes root i).card, caps') ∧
      caps'.spaces = caps.spaces ∧
      ∀ i, caps'.nodeAt i =
        if condemned caps.nodes root i then (caps.nodeAt i).revoked else caps.nodeAt i := by
  obtain ⟨htable, hcount⟩ :=
    foldl_revokeNode caps.nodes root (List.finRange NODES) (List.nodup_finRange NODES)
  refine ⟨_, congrArg some (Prod.ext ?_ rfl), rfl, fun i => ?_⟩
  · show Except.ok _ = Except.ok _
    rw [hcount, Fin.univ_def]
    simp [Finset.card, Finset.filter, List.countP_eq_length_filter]
  · have h := htable i
    simp only [List.mem_finRange, true_and] at h
    exact h

/-- A panic-free `mapM` is a `map`. -/
theorem mapM_eq_some_map {α β : Type} {n : ℕ} {f : α → Option β} {g : α → β}
    {v : Vector α n} (h : ∀ x ∈ v, f x = some (g x)) : v.mapM f = some (v.map g) := by
  have harray : Vector.toArray <$> v.mapM f = some (v.map g).toArray := by
    rw [Vector.toArray_mapM, Array.mapM_eq_mapM_toList,
      mapM_of_some fun x hx => h x (by simpa using hx)]
    refine congrArg some (Array.toList_inj.mp ?_)
    simp
  cases hv : v.mapM f with
  | none => simp [hv] at harray
  | some w =>
      rw [hv] at harray
      exact congrArg some (Vector.toArray_inj.mp (Option.some.inj harray))

/-- Whether the second loop of `revoke` leaves a reference in place. -/
def kept (nodes : Vector Node NODES) (reference : CapRef) : Bool :=
  match nodes[reference.node.toNat]? with
  | none => false
  | some node => node.live && node.generation == reference.generation

/-- The second loop of `revoke`: no panic when every reference is in bounds, and
then exactly the references to live nodes of matching generation stay. -/
theorem sweepSpaces_eq (caps : CapabilitySystem TASKS SLOTS NODES)
    (bounded : ∀ p r, caps.slotAt p = some r → r.node.toNat < NODES) :
    ∃ caps' : CapabilitySystem TASKS SLOTS NODES,
      sweepSpaces caps = some (.ok (), caps') ∧ caps'.nodes = caps.nodes ∧
      ∀ p, caps'.slotAt p = (caps.slotAt p).filter (kept caps.nodes) := by
  have hslot : ∀ space ∈ caps.spaces, ∀ c ∈ space,
      sweepSlot caps.nodes c = some (c.filter (kept caps.nodes)) := by
    intro space hspace c hc
    obtain ⟨t, ht, rfl⟩ := Vector.getElem_of_mem hspace
    obtain ⟨s, hs, rfl⟩ := Vector.getElem_of_mem hc
    cases hc : caps.spaces[t][s] with
    | none => rfl
    | some r =>
        have hr := bounded (⟨t, ht⟩, ⟨s, hs⟩) r hc
        have hnode : caps.nodes[r.node.toNat]? = some caps.nodes[r.node.toNat] :=
          Vector.getElem?_eq_getElem hr
        by_cases hkeep : caps.nodes[r.node.toNat].live = true ∧
            caps.nodes[r.node.toNat].generation = r.generation
        · simp [sweepSlot, kept, hnode, hkeep, Option.filter_some]
        · simp only [sweepSlot, kept, hnode, Option.map_some, Option.filter_some]
          simp only [not_and_or, Bool.not_eq_true] at hkeep
          rcases hkeep with dead | moved
          · simp [dead]
          · simp [moved]
  refine ⟨{ caps with spaces := caps.spaces.map (·.map (·.filter (kept caps.nodes))) },
    Call.writes_ok ?_, rfl, fun p => ?_⟩
  · rw [mapM_eq_some_map fun space hspace => mapM_eq_some_map (hslot space hspace)]
    rfl
  · simp [slotAt]

/-! ## Revocation -/

open Classical in
/-- The live nodes from which `r` is reached by following parents, itself
included. -/
noncomputable def subtree (caps : CapabilitySystem TASKS SLOTS NODES) (r : Fin NODES) :
    Finset (Fin NODES) :=
  Finset.univ.filter fun i =>
    (caps.nodeAt i).live ∧ ReflTransGen (Follows caps.derivedFrom) i r

theorem mem_subtree {caps : CapabilitySystem TASKS SLOTS NODES} {i r : Fin NODES} :
    i ∈ caps.subtree r ↔
      (caps.nodeAt i).live ∧ ReflTransGen (Follows caps.derivedFrom) i r := by
  simp [subtree]

/-- The first loop judges by membership in the subtree. -/
theorem condemned_iff {caps : CapabilitySystem TASKS SLOTS NODES} (tree : caps.LeaseTree)
    (hN : NODES ≤ 65536) (r i : Fin NODES) :
    condemned caps.nodes (caps.refOf r) i = true ↔ i ∈ caps.subtree r := by
  rw [mem_subtree, condemned, Bool.and_eq_true]
  exact and_congr_right fun hi => isDescendantOrSelf_iff hN tree r hi

/-- A reference survives the sweep iff its node survived the loop. -/
theorem kept_refOf_iff {caps caps' : CapabilitySystem TASKS SLOTS NODES} (hN : NODES ≤ 65536)
    {root : CapRef} {i : Fin NODES} (live : (caps.nodeAt i).live)
    (hnode : caps'.nodeAt i =
      if condemned caps.nodes root i then (caps.nodeAt i).revoked else caps.nodeAt i) :
    kept caps'.nodes (caps.refOf i) = true ↔ ¬ condemned caps.nodes root i = true := by
  have hlookup : caps'.nodes[(caps.refOf i).node.toNat]? = some (caps'.nodeAt i) := by
    simp [refOf, toNat_ofNat_index hN, nodeAt]
  rw [kept, hlookup, hnode]
  by_cases hc : condemned caps.nodes root i = true
  · simp [hc, Node.revoked]
  · simp [hc, live]

/-- **What `revoke` does** to a lease tree: exactly the subtree of the named node
dies, one generation on, and exactly the slots naming it are emptied. -/
theorem revoke_eq {caps : CapabilitySystem TASKS SLOTS NODES} (tree : caps.LeaseTree)
    (hN : NODES ≤ 65536) {task : TaskId} {slot : ℕ} {p : Position TASKS SLOTS}
    (hp : locate task slot = .ok p) {r : Fin NODES} (live : (caps.nodeAt r).live)
    (hslot : caps.slotAt p = some (caps.refOf r)) :
    ∃ caps' : CapabilitySystem TASKS SLOTS NODES,
      revoke task slot caps = some (.ok (caps.subtree r).card, caps') ∧
      (∀ i ∈ caps.subtree r, caps'.nodeAt i = (caps.nodeAt i).revoked) ∧
      (∀ i ∉ caps.subtree r, caps'.nodeAt i = caps.nodeAt i) ∧
      (∀ q, ∀ i ∈ caps.subtree r, caps.slotAt q = some (caps.refOf i) →
        caps'.slotAt q = none) ∧
      ∀ q, (∀ i ∈ caps.subtree r, caps.slotAt q ≠ some (caps.refOf i)) →
        caps'.slotAt q = caps.slotAt q := by
  have judged := condemned_iff tree hN r
  obtain ⟨caps₁, hloop, hspaces, hnodes⟩ := revokeNodes_eq (caps.refOf r) caps
  have hcount : (Finset.univ.filter fun i => condemned caps.nodes (caps.refOf r) i) =
      caps.subtree r := by
    ext i
    simp [judged]
  rw [hcount] at hloop
  have hslots : ∀ q, caps₁.slotAt q = caps.slotAt q := fun q => by rw [slotAt, hspaces, slotAt]
  obtain ⟨caps₂, hsweep, hnodes₂, hslots₂⟩ := sweepSpaces_eq caps₁ (by
    intro q s hq
    rw [hslots] at hq
    obtain ⟨i, -, rfl⟩ := tree.named q s hq
    rw [refOf, toNat_ofNat_index hN]
    exact i.2)
  have hnode₂ : ∀ i, caps₂.nodeAt i = caps₁.nodeAt i := fun i => by
    rw [nodeAt, hnodes₂, nodeAt]
  have survives : ∀ i, (caps.nodeAt i).live →
      (kept caps₁.nodes (caps.refOf i) = true ↔ i ∉ caps.subtree r) := by
    intro i hi
    rw [kept_refOf_iff hN hi (hnodes i), judged i]
  refine ⟨caps₂, ?_, ?_, ?_, ?_, ?_⟩
  · have hcap : caps.capAt task slot = .ok (caps.refOf r) := by
      rw [capAt_eq, hp]
      simp [hslot]
    rw [revoke, Call.bind_ok (Call.reads_ok hcap),
      Call.bind_ok (Call.reads_ok (resolveRef_refOf hN caps live)), Call.bind_ok hloop,
      Call.bind_ok hsweep]
    rfl
  · intro i hi
    rw [hnode₂, hnodes, if_pos ((judged i).mpr hi)]
  · intro i hi
    rw [hnode₂, hnodes, if_neg (fun hc => hi ((judged i).mp hc))]
  · intro q i hi hq
    rw [hslots₂, hslots, hq, Option.filter_some]
    have gone : ¬ kept caps₁.nodes (caps.refOf i) = true := by
      rw [survives i (mem_subtree.mp hi).1]
      exact fun h => h hi
    rw [if_neg gone]
  · intro q hq
    rw [hslots₂, hslots]
    cases hs : caps.slotAt q with
    | none => rfl
    | some s =>
        obtain ⟨i, hi, rfl⟩ := tree.named q s hs
        have stays : kept caps₁.nodes (caps.refOf i) = true := by
          rw [survives i hi]
          exact fun hmem => hq i hmem hs
        rw [Option.filter_some, if_pos stays]

end CapabilitySystem

end Aegis.Capability
