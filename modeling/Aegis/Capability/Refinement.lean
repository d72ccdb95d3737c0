import Mathlib
import Aegis.Capability.Forest

/-!
# The capability system refines a derivation forest

`Represents caps f` links the node tables to the lease forest.  Each occupied slot names a live node
holding the entry's object and rights, whose parent reference is *whatever the
parent slot holds*; no two slots hold the same reference; and every live node is
named by some slot.  Nothing in the relation mentions how generations evolve, and
so nothing in it can be broken by their wrapping around: reuse of a node is safe
because no slot and no live parent field refers to a dead node, not because
generations differ.

`capStep_refines` is the simulation step, one operation at a time.
-/

namespace Aegis.Capability

open Foundation Relation

variable {TASKS SLOTS NODES : ℕ}

/-- **The simulation relation.** -/
structure Represents (caps : CapabilitySystem TASKS SLOTS NODES)
    (f : LeaseForest TASKS SLOTS) : Prop where
  /-- A slot without an entry is empty. -/
  vacant : ∀ p, f.entry p = none → caps.slotAt p = none
  /-- A slot with an entry names a live node that holds the entry. -/
  entry : ∀ p e, f.entry p = some e →
    ∃ i, caps.slotAt p = some (caps.refOf i) ∧ (caps.nodeAt i).live ∧
      (caps.nodeAt i).object = e.value.object ∧ (caps.nodeAt i).rights = e.value.rights ∧
      (caps.nodeAt i).parent = e.parent.bind caps.slotAt
  /-- Different slots hold different references. -/
  distinct : ∀ p q r, caps.slotAt p = some r → caps.slotAt q = some r → p = q
  /-- Every live node is named by a slot. -/
  owned : ∀ i, (caps.nodeAt i).live → ∃ p, caps.slotAt p = some (caps.refOf i)

namespace Represents

variable {caps : CapabilitySystem TASKS SLOTS NODES} {f : LeaseForest TASKS SLOTS}

/-- Slots are occupied at both levels or at neither. -/
theorem isSome_iff (rep : Represents caps f) (p : Position TASKS SLOTS) :
    (caps.slotAt p).isSome ↔ (f.entry p).isSome := by
  cases he : f.entry p with
  | none => simp [rep.vacant p he]
  | some e =>
      obtain ⟨i, hslot, -⟩ := rep.entry p e he
      simp [hslot]

theorem exists_entry (rep : Represents caps f) {p : Position TASKS SLOTS} {r : CapRef}
    (h : caps.slotAt p = some r) : ∃ e, f.entry p = some e := by
  rw [← Option.isSome_iff_exists, ← rep.isSome_iff, h]
  rfl

/-- A slot names a live node. -/
theorem named (rep : Represents caps f) (p : Position TASKS SLOTS) (r : CapRef)
    (h : caps.slotAt p = some r) : ∃ i, (caps.nodeAt i).live ∧ r = caps.refOf i := by
  obtain ⟨e, he⟩ := rep.exists_entry h
  obtain ⟨i, hslot, live, -⟩ := rep.entry p e he
  rw [hslot, Option.some.injEq] at h
  exact ⟨i, live, h.symm⟩

/-- The node a slot names holds the slot's entry. -/
theorem entry_of_slot (rep : Represents caps f) (hN : NODES ≤ 65536)
    {p : Position TASKS SLOTS} {i : Fin NODES} (h : caps.slotAt p = some (caps.refOf i)) :
    ∃ e, f.entry p = some e ∧ (caps.nodeAt i).live ∧
      (caps.nodeAt i).object = e.value.object ∧ (caps.nodeAt i).rights = e.value.rights ∧
      (caps.nodeAt i).parent = e.parent.bind caps.slotAt := by
  obtain ⟨e, he⟩ := rep.exists_entry h
  obtain ⟨j, hslot, hnode⟩ := rep.entry p e he
  rw [hslot, Option.some.injEq] at h
  obtain rfl := CapabilitySystem.refOf_injective hN caps h
  exact ⟨e, he, hnode⟩

/-- Occupied slots and live nodes correspond one to one, so sets of slots and of
nodes that correspond have the same size. -/
theorem card_eq (rep : Represents caps f) (hN : NODES ≤ 65536)
    {A : Finset (Position TASKS SLOTS)} {B : Finset (Fin NODES)}
    (hA : A ⊆ f.occupied) (hB : ∀ i ∈ B, (caps.nodeAt i).live)
    (corresponds : ∀ p i, caps.slotAt p = some (caps.refOf i) → (p ∈ A ↔ i ∈ B)) :
    A.card = B.card := by
  have node : ∀ p ∈ A, ∃ i, caps.slotAt p = some (caps.refOf i) := by
    intro p hp
    have occupied := hA hp
    rw [Forest.mem_occupied, ← rep.isSome_iff, Option.isSome_iff_exists] at occupied
    obtain ⟨r, hr⟩ := occupied
    obtain ⟨i, -, rfl⟩ := rep.named p r hr
    exact ⟨i, hr⟩
  choose nodeOf hnodeOf using node
  refine Finset.card_bij nodeOf ?_ ?_ ?_
  · intro p hp
    exact (corresponds p _ (hnodeOf p hp)).mp hp
  · intro p hp q hq heq
    refine rep.distinct p q _ (hnodeOf p hp) ?_
    rw [heq]
    exact hnodeOf q hq
  · intro i hi
    obtain ⟨p, hslot⟩ := rep.owned i (hB i hi)
    have hp : p ∈ A := (corresponds p i hslot).mpr hi
    refine ⟨p, hp, CapabilitySystem.refOf_injective hN caps ?_⟩
    have h := hnodeOf p hp
    rw [hslot, Option.some.injEq] at h
    exact h.symm

theorem card_occupied (rep : Represents caps f) (hN : NODES ≤ 65536) :
    f.occupied.card = (Finset.univ.filter fun i => (caps.nodeAt i).live).card := by
  refine rep.card_eq hN subset_rfl (fun i hi => (Finset.mem_filter.mp hi).2) ?_
  intro p i hslot
  obtain ⟨e, he, live, -⟩ := rep.entry_of_slot hN hslot
  simp [he, live]

/-- All nodes are live exactly when `NODES` slots are occupied. -/
theorem card_occupied_eq_iff (rep : Represents caps f) (hN : NODES ≤ 65536) :
    f.occupied.card = NODES ↔ ∀ i, (caps.nodeAt i).live := by
  rw [rep.card_occupied hN]
  constructor
  · intro h i
    have full := Finset.eq_univ_of_card
      (Finset.univ.filter fun i => (caps.nodeAt i).live) (by rw [h, Fintype.card_fin])
    have hi := Finset.mem_univ i
    rw [← full, Finset.mem_filter] at hi
    exact hi.2
  · intro h
    rw [Finset.filter_true_of_mem fun i _ => h i, Finset.card_univ, Fintype.card_fin]

/-- Parent pointers of nodes and of entries correspond. -/
theorem derivedFrom_iff (rep : Represents caps f) (hN : NODES ≤ 65536)
    {p q : Position TASKS SLOTS} {i j : Fin NODES}
    (hp : caps.slotAt p = some (caps.refOf i)) (hq : caps.slotAt q = some (caps.refOf j)) :
    caps.derivedFrom i = some j ↔ f.parent p = some q := by
  obtain ⟨e, he, live, -, -, hparent⟩ := rep.entry_of_slot hN hp
  rw [Forest.parent_of_entry he, CapabilitySystem.derivedFrom, if_pos live, hparent]
  cases habove : e.parent with
  | none => simp
  | some q' =>
      have occupied := f.parent_occupied p q' (by rw [he, Option.bind_some, habove])
      rw [← rep.isSome_iff, Option.isSome_iff_exists] at occupied
      obtain ⟨r, hr⟩ := occupied
      obtain ⟨j', -, rfl⟩ := rep.named q' r hr
      simp only [Option.bind_some, hr, CapabilitySystem.nodeOf_refOf hN, Option.some.injEq]
      constructor
      · rintro rfl
        exact rep.distinct q' q _ hr hq
      · rintro rfl
        rw [hr, Option.some.injEq] at hq
        exact CapabilitySystem.refOf_injective hN caps hq

/-- A pointer of the lease tree is a pointer of the forest. -/
theorem exists_parent (rep : Represents caps f) (hN : NODES ≤ 65536) {i j : Fin NODES}
    (h : caps.derivedFrom i = some j) :
    ∃ p q, caps.slotAt p = some (caps.refOf i) ∧ caps.slotAt q = some (caps.refOf j) ∧
      f.parent p = some q := by
  have live : (caps.nodeAt i).live := by
    by_contra dead
    simp [CapabilitySystem.derivedFrom, dead] at h
  obtain ⟨p, hp⟩ := rep.owned i live
  obtain ⟨e, he, -, -, -, hparent⟩ := rep.entry_of_slot hN hp
  rw [CapabilitySystem.derivedFrom, if_pos live, hparent] at h
  obtain ⟨r, hr, hnode⟩ := Option.bind_eq_some_iff.mp h
  obtain ⟨q, habove, hq⟩ := Option.bind_eq_some_iff.mp hr
  obtain ⟨j', -, rfl⟩ := rep.named q r hq
  rw [CapabilitySystem.nodeOf_refOf hN, Option.some.injEq] at hnode
  subst hnode
  exact ⟨p, q, hp, hq, by rw [Forest.parent_of_entry he, habove]⟩

/-- **A represented state is a lease tree.**  Acyclicity of the node table comes
from the forest, through the one-to-one correspondence. -/
theorem leaseTree (rep : Represents caps f) (hN : NODES ≤ 65536) : caps.LeaseTree where
  named := rep.named
  owned := by
    intro i live
    obtain ⟨p, hp⟩ := rep.owned i live
    exact ⟨p, hp, fun q hq => rep.distinct q p _ hq hp⟩
  parent_live := by
    intro i live r hr
    obtain ⟨p, hp⟩ := rep.owned i live
    obtain ⟨e, -, -, -, -, hparent⟩ := rep.entry_of_slot hN hp
    rw [hparent] at hr
    obtain ⟨q, -, hq⟩ := Option.bind_eq_some_iff.mp hr
    exact rep.named q r hq
  acyclic := by
    refine f.acyclic.of_owner (fun i p => caps.slotAt p = some (caps.refOf i)) ?_ ?_
    · intro i p q hp hq
      exact rep.distinct p q _ hp hq
    · intro i j hij
      exact rep.exists_parent hN hij

/-- Descent in the forest is descent in the node table. -/
theorem descends_iff (rep : Represents caps f) (hN : NODES ≤ 65536)
    {p q : Position TASKS SLOTS} {i j : Fin NODES}
    (hp : caps.slotAt p = some (caps.refOf i)) (hq : caps.slotAt q = some (caps.refOf j)) :
    f.Descends p q ↔ ReflTransGen (Follows caps.derivedFrom) i j := by
  constructor
  · intro h
    induction h generalizing j with
    | refl =>
        rw [hp, Option.some.injEq] at hq
        rw [CapabilitySystem.refOf_injective hN caps hq]
    | @tail m q' _ hstep ih =>
        obtain ⟨e, he, -⟩ := Forest.parent_eq_some.mp hstep
        obtain ⟨k, hk, -⟩ := rep.entry m e he
        exact (ih hk).tail ((rep.derivedFrom_iff hN hk hq).mpr hstep)
  · intro h
    induction h generalizing q with
    | refl =>
        rw [rep.distinct p q _ hp hq]
        exact ReflTransGen.refl
    | tail _ hstep ih =>
        obtain ⟨m, q', hm, hq', hparent⟩ := rep.exists_parent hN hstep
        rw [rep.distinct q q' _ hq hq']
        exact ReflTransGen.tail (ih hm) hparent

end Represents

/-- What a call may do to the slots and nodes it is not about.  A slot that was
occupied is emptied, or still names the same node, unchanged; a slot that was
empty comes to name a node that was dead. -/
structure Frame (caps caps' : CapabilitySystem TASKS SLOTS NODES) : Prop where
  kept : ∀ p i, caps.slotAt p = some (caps.refOf i) →
    caps'.slotAt p = none ∨
      caps'.slotAt p = some (caps.refOf i) ∧ caps'.nodeAt i = caps.nodeAt i
  fresh : ∀ p r, caps.slotAt p = none → caps'.slotAt p = some r →
    ∃ i, r = caps'.refOf i ∧ ¬ (caps.nodeAt i).live

theorem Frame.refl (caps : CapabilitySystem TASKS SLOTS NODES) : Frame caps caps where
  kept _ _ h := Or.inr ⟨h, rfl⟩
  fresh _ _ h h' := by rw [h] at h'; cases h'

/-- A call from `caps` to `caps'` with result `r` is matched by the abstract
outcome `spec`. -/
structure Matches (caps caps' : CapabilitySystem TASKS SLOTS NODES) (r : CapResult)
    (spec : CapResult × LeaseForest TASKS SLOTS) : Prop where
  result : spec.1 = r
  state : Represents caps' spec.2
  unchanged : ∀ e, r = .error e → caps' = caps
  frame : Frame caps caps'

/-- A call that fails without touching anything matches an abstract failure. -/
theorem Represents.rejected {caps : CapabilitySystem TASKS SLOTS NODES}
    {f : LeaseForest TASKS SLOTS} (rep : Represents caps f) (e : CapError) :
    Matches caps caps (.error e) (.error e, f) :=
  ⟨rfl, rep, fun _ _ => rfl, .refl caps⟩

/-! ## Creation -/

namespace CapabilitySystem

/-- The state after a successful creation: node `i` is taken into use, and slot
`p` names it. -/
def fill (caps : CapabilitySystem TASKS SLOTS NODES) (p : Position TASKS SLOTS)
    (i : Fin NODES) (object : Object) (rights : Rights) (parent : Option CapRef) :
    CapabilitySystem TASKS SLOTS NODES where
  spaces := caps.spaces.set p.1 ((getElem caps.spaces p.1 (Position.task_lt p)).set p.2
    (some (caps.refOf i)) (Position.slot_lt p)) (Position.task_lt p)
  nodes := caps.nodes.set i { caps.nodeAt i with object, rights, parent, live := true } i.isLt

section Fill

variable {caps : CapabilitySystem TASKS SLOTS NODES} {p : Position TASKS SLOTS}
  {i : Fin NODES} {object : Object} {rights : Rights} {parent : Option CapRef}

@[simp] theorem fill_slotAt_self :
    (caps.fill p i object rights parent).slotAt p = some (caps.refOf i) := by
  simp [fill, slotAt]

theorem fill_slotAt_of_ne {q : Position TASKS SLOTS} (h : q ≠ p) :
    (caps.fill p i object rights parent).slotAt q = caps.slotAt q := by
  unfold fill slotAt
  by_cases ht : (p.1 : ℕ) = q.1
  · have hs : (p.2 : ℕ) ≠ q.2 := fun hs => h (Prod.ext (Fin.ext ht.symm) (Fin.ext hs.symm))
    simp [ht, hs]
  · simp [ht]

@[simp] theorem fill_nodeAt_self :
    (caps.fill p i object rights parent).nodeAt i =
      { caps.nodeAt i with object, rights, parent, live := true } := by
  simp [fill, nodeAt]

theorem fill_nodeAt_of_ne {j : Fin NODES} (h : j ≠ i) :
    (caps.fill p i object rights parent).nodeAt j = caps.nodeAt j := by
  have hval : (i : ℕ) ≠ j := fun hij => h (Fin.ext hij.symm)
  simp [fill, nodeAt, hval]

/-- Taking a node into use does not change its generation. -/
@[simp] theorem fill_refOf (j : Fin NODES) :
    (caps.fill p i object rights parent).refOf j = caps.refOf j := by
  by_cases h : j = i
  · subst h
    simp [refOf]
  · simp [refOf, fill_nodeAt_of_ne h]

end Fill

/-- `allocate` takes a dead node, or fails when there is none. -/
theorem allocate_eq (caps : CapabilitySystem TASKS SLOTS NODES) (object : Object)
    (rights : Rights) (parent : Option CapRef) :
    ((∀ i, (caps.nodeAt i).live) ∧
        allocate object rights parent caps = some (.error .outOfNodes, caps)) ∨
      ∃ i, ¬ (caps.nodeAt i).live ∧
        allocate object rights parent caps = some (.ok (caps.refOf i),
          { caps with
            nodes := caps.nodes.set i
              { caps.nodeAt i with object, rights, parent, live := true } i.isLt }) := by
  unfold allocate
  cases hfind : (List.finRange NODES).find? fun index => !caps.nodes[index].live with
  | none =>
      refine Or.inl ⟨fun i => ?_, rfl⟩
      have hi := List.find?_eq_none.mp hfind i (List.mem_finRange i)
      simpa [nodeAt] using hi
  | some i =>
      refine Or.inr ⟨i, ?_, rfl⟩
      have hi := List.find?_some hfind
      simpa [nodeAt] using hi

/-- Allocating a node and storing its reference in a slot fills the slot. -/
theorem setSlot_allocated (caps : CapabilitySystem TASKS SLOTS NODES)
    {task : TaskId} {slot : ℕ} {p : Position TASKS SLOTS} (hp : locate task slot = .ok p)
    (i : Fin NODES) (object : Object) (rights : Rights) (parent : Option CapRef) :
    setSlot task slot (caps.refOf i)
        { caps with
          nodes := caps.nodes.set i
            { caps.nodeAt i with object, rights, parent, live := true } i.isLt } =
      some (.ok (), caps.fill p i object rights parent) := by
  obtain ⟨rfl, rfl⟩ := locate_eq_ok hp
  refine Call.writes_ok ?_
  simp [fill]

end CapabilitySystem

/-- No slot names a dead node. -/
theorem Represents.unnamed {caps : CapabilitySystem TASKS SLOTS NODES}
    {f : LeaseForest TASKS SLOTS} (rep : Represents caps f) (hN : NODES ≤ 65536)
    {i : Fin NODES} (dead : ¬ (caps.nodeAt i).live) (q : Position TASKS SLOTS) :
    caps.slotAt q ≠ some (caps.refOf i) := by
  intro hq
  obtain ⟨e, -, live, -⟩ := rep.entry_of_slot hN hq
  exact dead live

/-- A parent is occupied, so its slot is not the free one that is filled. -/
theorem CapabilitySystem.fill_parent {caps : CapabilitySystem TASKS SLOTS NODES}
    {f : LeaseForest TASKS SLOTS} {p : Position TASKS SLOTS} {i : Fin NODES}
    {object : Object} {rights : Rights} {parent : Option CapRef} (free : f.entry p = none)
    (above : Option (Position TASKS SLOTS))
    (occupied : ∀ q, above = some q → (f.entry q).isSome) :
    above.bind caps.slotAt = above.bind (caps.fill p i object rights parent).slotAt := by
  cases above with
  | none => rfl
  | some q =>
      have hq : q ≠ p := by
        rintro rfl
        have hoccupied := occupied q rfl
        rw [free] at hoccupied
        cases hoccupied
      exact (fill_slotAt_of_ne hq).symm

/-- **Filling a free slot inserts an entry.**  The node was dead, so no slot and
no live parent field refers to it; whatever generation it carries is fresh. -/
theorem Represents.fill {caps : CapabilitySystem TASKS SLOTS NODES}
    {f : LeaseForest TASKS SLOTS} (rep : Represents caps f) (hN : NODES ≤ 65536)
    {p : Position TASKS SLOTS} {i : Fin NODES} (dead : ¬ (caps.nodeAt i).live)
    (value : ResolvedCapability) (parent : Option (Position TASKS SLOTS))
    (insertable : f.Insertable p ⟨value, parent⟩) :
    Represents
      (caps.fill p i value.object value.rights (parent.bind caps.slotAt))
      (f.insert p ⟨value, parent⟩) := by
  set caps' := caps.fill p i value.object value.rights (parent.bind caps.slotAt) with hcaps'
  have frame : ∀ q, q ≠ p → caps'.slotAt q = caps.slotAt q := fun q hq =>
    CapabilitySystem.fill_slotAt_of_ne hq
  have filled : caps'.slotAt p = some (caps.refOf i) := CapabilitySystem.fill_slotAt_self
  refine ⟨?_, ?_, ?_, ?_⟩
  · intro q hq
    have hne : q ≠ p := by
      rintro rfl
      rw [Forest.insert_entry_self insertable] at hq
      cases hq
    rw [Forest.insert_entry_of_ne hne] at hq
    rw [frame q hne]
    exact rep.vacant q hq
  · intro q e he
    by_cases hqp : q = p
    · subst hqp
      rw [Forest.insert_entry_self insertable, Option.some.injEq] at he
      subst he
      refine ⟨i, by rw [filled, hcaps', CapabilitySystem.fill_refOf], ?_⟩
      rw [hcaps', CapabilitySystem.fill_nodeAt_self]
      exact ⟨rfl, rfl, rfl, CapabilitySystem.fill_parent insertable.1 parent insertable.2⟩
    · rw [Forest.insert_entry_of_ne hqp] at he
      obtain ⟨j, hslot, live, hobject, hrights, hparent⟩ := rep.entry q e he
      have hji : j ≠ i := by
        rintro rfl
        exact dead live
      refine ⟨j, by rw [frame q hqp, hcaps', CapabilitySystem.fill_refOf, hslot], ?_⟩
      rw [hcaps', CapabilitySystem.fill_nodeAt_of_ne hji]
      refine ⟨live, hobject, hrights, hparent.trans ?_⟩
      refine CapabilitySystem.fill_parent insertable.1 e.parent fun q' hq' => ?_
      exact f.parent_occupied q q' (by rw [he, Option.bind_some, hq'])
  · -- a reference to the node that is taken into use stands in the new slot only
    intro q q' r hq hq'
    by_cases hqp : q = p
    · by_cases hqp' : q' = p
      · rw [hqp, hqp']
      · subst hqp
        rw [filled, Option.some.injEq] at hq
        rw [frame q' hqp', ← hq] at hq'
        exact absurd hq' (rep.unnamed hN dead q')
    · by_cases hqp' : q' = p
      · subst hqp'
        rw [filled, Option.some.injEq] at hq'
        rw [frame q hqp, ← hq'] at hq
        exact absurd hq (rep.unnamed hN dead q)
      · rw [frame q hqp] at hq
        rw [frame q' hqp'] at hq'
        exact rep.distinct q q' r hq hq'
  · intro j live
    rw [hcaps', CapabilitySystem.fill_refOf, ← hcaps']
    by_cases hji : j = i
    · subst hji
      exact ⟨p, filled⟩
    · rw [hcaps', CapabilitySystem.fill_nodeAt_of_ne hji] at live
      obtain ⟨q, hq⟩ := rep.owned j live
      have hqp : q ≠ p := by
        rintro rfl
        rw [rep.vacant q insertable.1] at hq
        cases hq
      exact ⟨q, by rw [frame q hqp, hq]⟩

/-- Filling a free slot with a dead node disturbs nothing else. -/
theorem Represents.frame_fill {caps : CapabilitySystem TASKS SLOTS NODES}
    {f : LeaseForest TASKS SLOTS} (rep : Represents caps f) (hN : NODES ≤ 65536)
    {p : Position TASKS SLOTS} {i : Fin NODES} (dead : ¬ (caps.nodeAt i).live)
    (free : f.entry p = none) (object : Object) (rights : Rights)
    (parent : Option CapRef) : Frame caps (caps.fill p i object rights parent) where
  kept := by
    intro q j hq
    have hqp : q ≠ p := by
      rintro rfl
      rw [rep.vacant q free] at hq
      cases hq
    have hji : j ≠ i := by
      rintro rfl
      exact rep.unnamed hN dead q hq
    exact Or.inr ⟨by rw [CapabilitySystem.fill_slotAt_of_ne hqp, hq],
      CapabilitySystem.fill_nodeAt_of_ne hji⟩
  fresh := by
    intro q r hq hq'
    by_cases hqp : q = p
    · subst hqp
      rw [CapabilitySystem.fill_slotAt_self, Option.some.injEq] at hq'
      exact ⟨i, by rw [CapabilitySystem.fill_refOf, hq'], dead⟩
    · rw [CapabilitySystem.fill_slotAt_of_ne hqp, hq] at hq'
      cases hq'

/-! ## Revocation -/

/-- A step that kills the nodes of `killed` prunes the forest at `p`: the slots below `p`
are those that name a killed node, they are emptied, and nothing else changes. -/
structure Prunes (caps caps' : CapabilitySystem TASKS SLOTS NODES) (f : LeaseForest TASKS SLOTS)
    (p : Position TASKS SLOTS) (killed : Finset (Fin NODES)) : Prop where
  below : ∀ q i, caps.slotAt q = some (caps.refOf i) → (f.Descends q p ↔ i ∈ killed)
  dead : ∀ i ∈ killed, (caps'.nodeAt i).live = false
  spared : ∀ i ∉ killed, caps'.nodeAt i = caps.nodeAt i
  emptied : ∀ q, f.Descends q p → caps'.slotAt q = none
  kept : ∀ q, ¬ f.Descends q p → caps'.slotAt q = caps.slotAt q

namespace Prunes

variable {caps caps' : CapabilitySystem TASKS SLOTS NODES} {f : LeaseForest TASKS SLOTS}
  {p : Position TASKS SLOTS} {killed : Finset (Fin NODES)}

theorem refOf_eq (h : Prunes caps caps' f p killed) {i : Fin NODES} (hi : i ∉ killed) :
    caps'.refOf i = caps.refOf i := by
  rw [CapabilitySystem.refOf, h.spared i hi, CapabilitySystem.refOf]

/-- What a slot names afterwards it named before. -/
theorem slotAt_of_slotAt (h : Prunes caps caps' f p killed) {q : Position TASKS SLOTS}
    {r : CapRef} (hq : caps'.slotAt q = some r) : caps.slotAt q = some r := by
  by_cases hdesc : f.Descends q p
  · rw [h.emptied q hdesc] at hq
    cases hq
  · rw [← h.kept q hdesc, hq]

theorem represents (h : Prunes caps caps' f p killed) (rep : Represents caps f) :
    Represents caps' (f.prune p) := by
  refine ⟨?_, ?_, ?_, ?_⟩
  · intro q hq
    by_cases hdesc : f.Descends q p
    · exact h.emptied q hdesc
    · rw [Forest.prune_entry_of_not_descends hdesc] at hq
      rw [h.kept q hdesc]
      exact rep.vacant q hq
  · intro q e he
    have hdesc : ¬ f.Descends q p := by
      intro hdesc
      rw [Forest.prune_entry_of_descends hdesc] at he
      cases he
    rw [Forest.prune_entry_of_not_descends hdesc] at he
    obtain ⟨i, hslot, hi, hobject, hrights, hparent⟩ := rep.entry q e he
    have hout : i ∉ killed := fun hmem => hdesc ((h.below q i hslot).mpr hmem)
    refine ⟨i, by rw [h.kept q hdesc, h.refOf_eq hout, hslot], ?_⟩
    rw [h.spared i hout]
    refine ⟨hi, hobject, hrights, ?_⟩
    rw [hparent]
    cases habove : e.parent with
    | none => rfl
    | some q' =>
        -- the parent of an entry outside the subtree is outside it
        have hq' : ¬ f.Descends q' p := fun hq' =>
          hdesc (hq'.of_parent (Forest.parent_eq_some.mpr ⟨e, he, habove⟩))
        exact (h.kept q' hq').symm
  · intro q q' r hq hq'
    exact rep.distinct q q' r (h.slotAt_of_slotAt hq) (h.slotAt_of_slotAt hq')
  · intro i hi
    have hout : i ∉ killed := by
      intro hmem
      rw [h.dead i hmem] at hi
      cases hi
    rw [h.spared i hout] at hi
    obtain ⟨q, hq⟩ := rep.owned i hi
    refine ⟨q, ?_⟩
    rw [h.kept q fun hdesc => hout ((h.below q i hq).mp hdesc), hq, h.refOf_eq hout]

theorem frame (h : Prunes caps caps' f p killed) : Frame caps caps' where
  kept q i hq := by
    by_cases hdesc : f.Descends q p
    · exact Or.inl (h.emptied q hdesc)
    · exact Or.inr ⟨by rw [h.kept q hdesc, hq],
        h.spared i fun hmem => hdesc ((h.below q i hq).mpr hmem)⟩
  fresh q r hq hq' := by
    rw [h.slotAt_of_slotAt hq'] at hq
    cases hq

end Prunes

/-- Membership in the subtree of a slot and in the subtree of its node correspond. -/
theorem Represents.descends_iff_mem {caps : CapabilitySystem TASKS SLOTS NODES}
    {f : LeaseForest TASKS SLOTS} (rep : Represents caps f) (hN : NODES ≤ 65536)
    {p q : Position TASKS SLOTS} {r i : Fin NODES} (hp : caps.slotAt p = some (caps.refOf r))
    (hq : caps.slotAt q = some (caps.refOf i)) :
    f.Descends q p ↔ i ∈ caps.subtree r := by
  obtain ⟨e, -, live, -⟩ := rep.entry_of_slot hN hq
  rw [rep.descends_iff hN hq hp, CapabilitySystem.mem_subtree]
  simp [live]

theorem Represents.card_subtree {caps : CapabilitySystem TASKS SLOTS NODES}
    {f : LeaseForest TASKS SLOTS} (rep : Represents caps f) (hN : NODES ≤ 65536)
    {p : Position TASKS SLOTS} {r : Fin NODES} (hp : caps.slotAt p = some (caps.refOf r)) :
    (f.subtree p).card = (caps.subtree r).card := by
  refine rep.card_eq hN (f.subtree_subset p)
    (fun i hi => (CapabilitySystem.mem_subtree.mp hi).1) ?_
  intro q i hq
  obtain ⟨e, he, -⟩ := rep.entry_of_slot hN hq
  rw [Forest.mem_subtree, rep.descends_iff_mem hN hp hq]
  simp [he]

/-- **Revoking prunes.**  The subtree of the named node is the image of the
subtree of the named slot, and everything outside it is left alone. -/
theorem Represents.revoke {caps : CapabilitySystem TASKS SLOTS NODES}
    {f : LeaseForest TASKS SLOTS} (rep : Represents caps f) (hN : NODES ≤ 65536)
    {task : TaskId} {slot : ℕ} {p : Position TASKS SLOTS} (hp : locate task slot = .ok p)
    (occupied : (f.entry p).isSome) :
    ∃ caps', CapabilitySystem.revoke task slot caps =
        some (.ok (f.subtree p).card, caps') ∧ Represents caps' (f.prune p) ∧
      Frame caps caps' := by
  obtain ⟨s, hs⟩ := Option.isSome_iff_exists.mp ((rep.isSome_iff p).mpr occupied)
  obtain ⟨r, live, rfl⟩ := rep.named p s hs
  obtain ⟨caps', hrevoke, hkilled, hspared, hemptied, hkept⟩ :=
    CapabilitySystem.revoke_eq (rep.leaseTree hN) hN hp live hs
  have below : ∀ q i, caps.slotAt q = some (caps.refOf i) →
      (f.Descends q p ↔ i ∈ caps.subtree r) := fun q i hq => rep.descends_iff_mem hN hs hq
  have emptied : ∀ q, f.Descends q p → caps'.slotAt q = none := by
    intro q hq
    cases hslot : caps.slotAt q with
    | none =>
        rw [hkept q fun i _ => by rw [hslot]; exact nofun, hslot]
    | some s' =>
        obtain ⟨i, -, rfl⟩ := rep.named q s' hslot
        exact hemptied q i ((below q i hslot).mp hq) hslot
  have kept : ∀ q, ¬ f.Descends q p → caps'.slotAt q = caps.slotAt q := fun q hq =>
    hkept q fun i hi hslot => hq ((below q i hslot).mpr hi)
  have prunes : Prunes caps caps' f p (caps.subtree r) :=
    ⟨below, fun i hi => by rw [hkilled i hi]; rfl, hspared, emptied, kept⟩
  exact ⟨caps', by rw [hrevoke, rep.card_subtree hN hs], prunes.represents rep, prunes.frame⟩

/-! ## The simulation -/

namespace Represents

variable {caps : CapabilitySystem TASKS SLOTS NODES} {f : LeaseForest TASKS SLOTS}

theorem checkDestination_eq (rep : Represents caps f) (task : TaskId) (slot : ℕ) :
    caps.checkDestination task slot = (f.vacancyAt task slot).map fun _ => () := by
  rw [CapabilitySystem.checkDestination_eq, LeaseForest.vacancyAt]
  cases hp : (locate task slot : Except CapError (Position TASKS SLOTS)) with
  | error e => rfl
  | ok p =>
      have hiff := rep.isSome_iff p
      by_cases hsome : (f.entry p).isSome
      · simp [hsome, hiff.mpr hsome, Except.map]
      · have hnone : ¬ (caps.slotAt p).isSome := fun h => hsome (hiff.mp h)
        simp [hsome, hnone, Except.map]

theorem capAt_error (rep : Represents caps f) {task : TaskId} {slot : ℕ} {e : CapError}
    (h : f.entryAt task slot = .error e) : caps.capAt task slot = .error e := by
  rw [CapabilitySystem.capAt_eq]
  unfold LeaseForest.entryAt at h
  cases hp : (locate task slot : Except CapError (Position TASKS SLOTS)) with
  | error e' =>
      rw [hp] at h
      cases h
      rfl
  | ok p =>
      rw [hp] at h
      cases hentry : f.entry p with
      | none =>
          simp only [hentry] at h
          simp only [rep.vacant p hentry]
          cases h
          rfl
      | some entry => simp [hentry] at h

/-- An occupied slot resolves to its entry. -/
theorem capAt_ok (rep : Represents caps f) (hN : NODES ≤ 65536) {task : TaskId}
    {slot : ℕ} {p : Position TASKS SLOTS}
    {entry : Forest.Entry (Position TASKS SLOTS) ResolvedCapability}
    (h : f.entryAt task slot = .ok (p, entry)) :
    ∃ r, caps.capAt task slot = .ok r ∧ caps.slotAt p = some r ∧
      caps.resolveRef r = .ok entry.value := by
  obtain ⟨hp, hentry⟩ := LeaseForest.entryAt_eq_ok h
  obtain ⟨i, hslot, live, hobject, hrights, -⟩ := rep.entry p entry hentry
  refine ⟨caps.refOf i, ?_, hslot, ?_⟩
  · rw [CapabilitySystem.capAt_eq, hp]
    simp [hslot]
  · rw [CapabilitySystem.resolveRef_refOf hN caps live, hobject, hrights]

/-- Allocation and the store into the checked slot are `add`. -/
theorem add (rep : Represents caps f) (hN : NODES ≤ 65536) {task : TaskId} {slot : ℕ}
    {p : Position TASKS SLOTS} (hp : locate task slot = .ok p) (value : ResolvedCapability)
    (parent : Option (Position TASKS SLOTS)) (insertable : f.Insertable p ⟨value, parent⟩) :
    ∃ r caps',
      (CapabilitySystem.allocate value.object value.rights (parent.bind caps.slotAt) >>=
        fun cap => CapabilitySystem.setSlot task slot cap) caps = some (r, caps') ∧
      Matches caps caps' (r.map fun _ => .unit) (f.add NODES p value parent) := by
  rcases CapabilitySystem.allocate_eq caps value.object value.rights
      (parent.bind caps.slotAt) with ⟨full, halloc⟩ | ⟨i, dead, halloc⟩
  · have hcard := (rep.card_occupied_eq_iff hN).mpr full
    refine ⟨.error .outOfNodes, caps, Call.bind_error halloc, ?_⟩
    rw [LeaseForest.add, if_pos hcard]
    exact rep.rejected .outOfNodes
  · have hcard : f.occupied.card ≠ NODES := fun h =>
      dead ((rep.card_occupied_eq_iff hN).mp h i)
    refine ⟨.ok (), caps.fill p i value.object value.rights (parent.bind caps.slotAt), ?_, ?_⟩
    · rw [Call.bind_ok halloc]
      exact CapabilitySystem.setSlot_allocated caps hp i _ _ _
    · rw [LeaseForest.add, if_neg hcard]
      exact ⟨rfl, rep.fill hN dead value parent insertable, nofun,
        rep.frame_fill hN dead insertable.1 _ _ _⟩

theorem createRoot (rep : Represents caps f) (hN : NODES ≤ 65536) (owner : TaskId)
    (slot : ℕ) (object : Object) (rights : Rights) :
    ∃ r caps',
      CapabilitySystem.createRoot owner slot object rights caps = some (r, caps') ∧
      Matches caps caps' (r.map fun _ => .unit)
        (f.specStep NODES (.createRoot owner slot object rights)) := by
  have hcheck := rep.checkDestination_eq owner slot
  unfold CapabilitySystem.createRoot
  simp only [LeaseForest.specStep]
  cases hv : f.vacancyAt owner slot with
  | error e =>
      rw [hv] at hcheck
      exact ⟨.error e, caps, Call.bind_error (Call.reads_error hcheck), rep.rejected e⟩
  | ok p =>
      rw [hv] at hcheck
      obtain ⟨hp, hfree⟩ := LeaseForest.vacancyAt_eq_ok hv
      rw [Call.bind_ok (Call.reads_ok hcheck)]
      exact rep.add hN hp ⟨object, rights⟩ none (.root hfree _)

theorem mint (rep : Represents caps f) (hN : NODES ≤ 65536) (sourceTask : TaskId)
    (sourceSlot : ℕ) (destinationTask : TaskId) (destinationSlot : ℕ) (rights : Rights) :
    ∃ r caps',
      CapabilitySystem.mint sourceTask sourceSlot destinationTask destinationSlot rights
        caps = some (r, caps') ∧
      Matches caps caps' (r.map fun _ => .unit)
        (f.specStep NODES (.mint sourceTask sourceSlot destinationTask destinationSlot
          rights)) := by
  have hcheck := rep.checkDestination_eq destinationTask destinationSlot
  unfold CapabilitySystem.mint
  simp only [LeaseForest.specStep]
  cases hv : f.vacancyAt destinationTask destinationSlot with
  | error e =>
      rw [hv] at hcheck
      exact ⟨.error e, caps, Call.bind_error (Call.reads_error hcheck), rep.rejected e⟩
  | ok p =>
      rw [hv] at hcheck
      obtain ⟨hp, hfree⟩ := LeaseForest.vacancyAt_eq_ok hv
      rw [Call.bind_ok (Call.reads_ok hcheck)]
      cases hsource : f.entryAt sourceTask sourceSlot with
      | error e =>
          exact ⟨.error e, caps,
            Call.bind_error (Call.reads_error (rep.capAt_error hsource)), rep.rejected e⟩
      | ok found =>
          obtain ⟨q, source⟩ := found
          obtain ⟨-, hentry⟩ := LeaseForest.entryAt_eq_ok hsource
          obtain ⟨ref, hcap, hslot, hresolve⟩ := rep.capAt_ok hN hsource
          rw [Call.bind_ok (Call.reads_ok hcap), Call.bind_ok (Call.reads_ok hresolve)]
          have hflip : (!source.value.rights.contains Rights.GRANT ||
              !source.value.rights.contains rights) =
              !(source.value.rights.contains Rights.GRANT &&
                source.value.rights.contains rights) := (Bool.not_and _ _).symm
          dsimp only
          rw [hflip]
          cases hgrant : source.value.rights.contains Rights.GRANT &&
              source.value.rights.contains rights with
          | false =>
              exact ⟨.error .permissionDenied, caps, rfl, rep.rejected .permissionDenied⟩
          | true =>
              have hadd := rep.add hN hp ⟨source.value.object, rights⟩ (some q)
                ⟨hfree, fun q' hq' => by
                  obtain rfl := Option.some.inj hq'
                  rw [hentry]
                  rfl⟩
              rw [Option.bind_some, hslot] at hadd
              exact hadd

theorem resolve_eq (rep : Represents caps f) (hN : NODES ≤ 65536) (task : TaskId)
    (slot : ℕ) (required : Rights) :
    caps.resolve task slot required =
      match f.entryAt task slot with
      | .error e => .error e
      | .ok (_, entry) =>
          if entry.value.rights.contains required then .ok entry.value
          else .error .permissionDenied := by
  unfold CapabilitySystem.resolve
  cases hentry : f.entryAt task slot with
  | error e => rw [rep.capAt_error hentry]
  | ok found =>
      obtain ⟨ref, hcap, -, hresolve⟩ := rep.capAt_ok hN hentry
      simp only [hcap, hresolve]
      cases hreq : found.2.value.rights.contains required with
      | true => simp
      | false => simp

end Represents

/-- **One call on the capability system is one step of the forest**: the same
result, related states, no effect when it fails, and no effect elsewhere. -/
theorem capStep_refines {caps : CapabilitySystem TASKS SLOTS NODES}
    {f : LeaseForest TASKS SLOTS} (rep : Represents caps f) (hN : NODES ≤ 65536)
    (op : CapOp) :
    ∃ r caps', capCall op caps = some (r, caps') ∧
      Matches caps caps' r (f.specStep NODES op) := by
  cases op with
  | createRoot owner slot object rights =>
      obtain ⟨r, caps', hcall, hmatch⟩ := rep.createRoot hN owner slot object rights
      exact ⟨_, caps', Call.map_some hcall, hmatch⟩
  | mint sourceTask sourceSlot destinationTask destinationSlot rights =>
      obtain ⟨r, caps', hcall, hmatch⟩ :=
        rep.mint hN sourceTask sourceSlot destinationTask destinationSlot rights
      exact ⟨_, caps', Call.map_some hcall, hmatch⟩
  | resolve task slot required =>
      refine ⟨_, caps, rfl, ?_, ?_, fun _ _ => rfl, .refl caps⟩
      · rw [rep.resolve_eq hN, LeaseForest.specStep]
        cases hentry : f.entryAt task slot with
        | error e => rfl
        | ok found =>
            cases hreq : found.2.value.rights.contains required with
            | true => simp [hreq, Except.map]
            | false => simp [hreq, Except.map]
      · rw [LeaseForest.specStep_resolve]
        exact rep
  | revoke task slot =>
      simp only [LeaseForest.specStep]
      cases hentry : f.entryAt task slot with
      | error e =>
          have hcall : CapabilitySystem.revoke task slot caps = some (.error e, caps) :=
            Call.bind_error (Call.reads_error (rep.capAt_error hentry))
          exact ⟨_, caps, Call.map_some hcall, rep.rejected e⟩
      | ok found =>
          obtain ⟨hp, hsome⟩ := LeaseForest.entryAt_eq_ok hentry
          obtain ⟨caps', hcall, hrep, hframe⟩ := rep.revoke hN hp (by rw [hsome]; rfl)
          refine ⟨_, caps', Call.map_some hcall, rfl, hrep, fun e he => ?_, hframe⟩
          cases he

/-- The initial system represents the empty forest. -/
theorem represents_new :
    Represents (CapabilitySystem.new : CapabilitySystem TASKS SLOTS NODES) Forest.empty where
  vacant := by simp [CapabilitySystem.slotAt, CapabilitySystem.new]
  entry := by simp
  distinct := by simp [CapabilitySystem.slotAt, CapabilitySystem.new]
  owned := by simp [CapabilitySystem.nodeAt, CapabilitySystem.new, EMPTY_NODE]

theorem capSimulation (hN : NODES ≤ 65536) :
    Machine.Simulation (capMachine TASKS SLOTS NODES) (forestMachine TASKS SLOTS NODES)
      Represents where
  init := represents_new
  step op rep := by
    obtain ⟨r, caps', hcall, hmatch⟩ := capStep_refines rep hN op
    exact ⟨r, caps', _, hcall, congrArg some (Prod.ext hmatch.result rfl), hmatch.state⟩

/-- One call, seen from the forest: which transition it makes, and the frame. -/
theorem capStep_transition {caps : CapabilitySystem TASKS SLOTS NODES}
    {f : LeaseForest TASKS SLOTS} (rep : Represents caps f) (hN : NODES ≤ 65536)
    (op : CapOp) :
    ∃ r caps' f', (capMachine TASKS SLOTS NODES).step caps op = some (r, caps') ∧
      f.Transition op r f' ∧ Represents caps' f' ∧ Frame caps caps' := by
  obtain ⟨r, caps', hcall, hmatch⟩ := capStep_refines rep hN op
  exact ⟨r, caps', _, hcall, hmatch.result ▸ f.specStep_transition NODES op, hmatch.state,
    hmatch.frame⟩

/-- What a step from a reachable state did, at both levels. -/
theorem exists_matches (hN : NODES ≤ 65536) {caps caps' : CapabilitySystem TASKS SLOTS NODES}
    (h : (capMachine TASKS SLOTS NODES).Reachable caps) {op : CapOp} {r : CapResult}
    (hstep : (capMachine TASKS SLOTS NODES).step caps op = some (r, caps')) :
    ∃ f : LeaseForest TASKS SLOTS, Represents caps f ∧
      Matches caps caps' r (f.specStep NODES op) := by
  obtain ⟨f, rep⟩ := (capSimulation hN).exists_of_reachable h
  obtain ⟨r', caps'', hcall, hmatch⟩ := capStep_refines rep hN op
  have heq : some (r, caps') = some (r', caps'') := hstep.symm.trans hcall
  rw [Option.some.injEq, Prod.mk.injEq] at heq
  obtain ⟨rfl, rfl⟩ := heq
  exact ⟨f, rep, hmatch⟩

/-- **The capability system refines the derivation forest.**  Every sequence of
operations, with any arguments and of any length, runs without a panic, returns
call by call what the abstract operations return, and every call that returns an
error leaves the state as it was. -/
theorem capability_refines_forest (TASKS SLOTS NODES : ℕ) (hN : NODES ≤ 65536)
    (ops : List CapOp) :
    ∃ es caps fs f,
      (capMachine TASKS SLOTS NODES).exec CapabilitySystem.new ops = some (es, caps) ∧
      (forestMachine TASKS SLOTS NODES).exec Forest.empty ops = some (fs, f) ∧
      es.map Event.result = fs.map Event.result ∧
      ∀ ev ∈ es, ∀ e, ev.result = .error e → ev.after = ev.before := by
  obtain ⟨es, caps, fs, f, hexec, hexec', hres, -⟩ :=
    (capSimulation hN).exec (capSimulation hN).init ops
  refine ⟨es, caps, fs, f, hexec, hexec', hres, fun ev hev e he => ?_⟩
  obtain ⟨hreach, hstep⟩ := Machine.reachable_init.event hexec ev hev
  obtain ⟨f', -, hmatch⟩ := exists_matches hN hreach hstep
  exact hmatch.unchanged e he

/-- The tables of the running kernel: 4 tasks, 8 slots, 16 nodes. -/
theorem capability_refines_forest_live :
    (16 : ℕ) ≤ 65536 ∧
    ∃ es caps fs f,
      (capMachine 4 8 16).exec CapabilitySystem.new
        [.createRoot 0 0 (.frame 42) Rights.ALL, .mint 0 0 1 0 Rights.READ,
          .resolve 1 0 Rights.READ, .revoke 0 0, .resolve 1 0 Rights.READ] =
        some (es, caps) ∧
      (forestMachine 4 8 16).exec Forest.empty
        [.createRoot 0 0 (.frame 42) Rights.ALL, .mint 0 0 1 0 Rights.READ,
          .resolve 1 0 Rights.READ, .revoke 0 0, .resolve 1 0 Rights.READ] =
        some (fs, f) ∧
      es.map Event.result = fs.map Event.result ∧
      ∀ ev ∈ es, ∀ e, ev.result = .error e → ev.after = ev.before :=
  ⟨by decide, capability_refines_forest 4 8 16 (by decide) _⟩

end Aegis.Capability
