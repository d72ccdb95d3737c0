import Mathlib
import Aegis.Foundation.Successor

/-!
# Derivation forests

A `Forest ι α` is a partial map from positions `ι` to entries, each carrying a
value and possibly the position it was derived from.  Two facts make
it a forest, and both are fields, so that no other map can be built: the parent
of an entry is itself occupied, and following parents never cycles.

The operations are the three a derivation structure has: `insert` puts an entry
at a free position under an occupied parent (or none) and refuses any other
insertion, `prune` removes a position with everything derived from it, and
`Forest.empty` has no entries.
-/

namespace Foundation

open Relation

variable {ι α : Type*}

/-- What a forest stores at an occupied position. -/
structure Forest.Entry (ι α : Type*) where
  value : α
  parent : Option ι

/-- A partial map whose entries point to occupied parents without cycles. -/
structure Forest (ι α : Type*) where
  entry : ι → Option (Forest.Entry ι α)
  parent_occupied : ∀ i j, (entry i).bind Forest.Entry.parent = some j →
    (entry j).isSome
  acyclic : Acyclic fun i => (entry i).bind Forest.Entry.parent

namespace Forest

/-- The position an entry was derived from. -/
def parent (f : Forest ι α) (i : ι) : Option ι :=
  (f.entry i).bind Entry.parent

/-- `i` is `r` or was derived from it, through any number of steps. -/
def Descends (f : Forest ι α) (i r : ι) : Prop :=
  ReflTransGen (Follows f.parent) i r

theorem parent_eq_some {f : Forest ι α} {i j : ι} :
    f.parent i = some j ↔ ∃ e, f.entry i = some e ∧ e.parent = some j := by
  simp [parent, Option.bind_eq_some_iff]

theorem parent_of_entry {f : Forest ι α} {i : ι} {e : Entry ι α}
    (h : f.entry i = some e) : f.parent i = e.parent := by
  simp [parent, h]

/-- Whatever descends from a position that nothing points to is that position
itself. -/
theorem Descends.eq_of_free {f : Forest ι α} {i j : ι} (h : f.Descends j i)
    (hi : f.entry i = none) : j = i := by
  rcases ReflTransGen.cases_tail h with rfl | ⟨k, -, hk⟩
  · rfl
  · have := f.parent_occupied _ _ hk
    simp [hi] at this

/-- An entry that hangs below an entry outside the pruned subtree is outside it
too. -/
theorem Descends.of_parent {f : Forest ι α} {i j r : ι} (h : f.Descends j r)
    (hij : f.parent i = some j) : f.Descends i r :=
  ReflTransGen.head hij h

/-- Induction over the forest: a property of occupied positions that passes from
parent to child holds of every occupied position. -/
theorem induction [Fintype ι] (f : Forest ι α) {P : ι → Entry ι α → Prop}
    (step : ∀ i e, f.entry i = some e →
      (∀ j d, e.parent = some j → f.entry j = some d → P j d) → P i e)
    {i : ι} {e : Entry ι α} (h : f.entry i = some e) : P i e := by
  have all : ∀ i, ∀ e, f.entry i = some e → P i e := by
    refine f.acyclic.induction fun i ih e he => step i e he ?_
    intro j d hj hd
    exact ih j (by simp [he, hj]) d hd
  exact all i e h

/-- The forest with no entries. -/
def empty : Forest ι α where
  entry _ := none
  parent_occupied := by simp
  acyclic := acyclic_none

@[simp] theorem empty_entry (i : ι) : (empty : Forest ι α).entry i = none := rfl

/-- An entry may be inserted at a free position, below an occupied one or as a
root. -/
def Insertable (f : Forest ι α) (i : ι) (e : Entry ι α) : Prop :=
  f.entry i = none ∧ ∀ j, e.parent = some j → (f.entry j).isSome

theorem Insertable.root {f : Forest ι α} {i : ι} (free : f.entry i = none) (value : α) :
    f.Insertable i ⟨value, none⟩ :=
  ⟨free, nofun⟩

theorem Insertable.child {f : Forest ι α} {i j : ι} {d : Entry ι α} (free : f.entry i = none)
    (occupied : f.entry j = some d) (value : α) : f.Insertable i ⟨value, some j⟩ := by
  refine ⟨free, fun k hk => ?_⟩
  cases hk
  exact Option.isSome_of_eq_some occupied

section Insert

variable [DecidableEq ι]

/-- The parents after an insertion: one pointer is set, the others stay. -/
theorem bind_parent_update (entry : ι → Option (Entry ι α)) (i : ι)
    (e : Entry ι α) :
    (fun k => (Function.update entry i (some e) k).bind Entry.parent) =
      Function.update (fun k => (entry k).bind Entry.parent) i e.parent := by
  funext k
  by_cases hk : k = i
  · subst hk; simp
  · simp [hk]

/-- The forest with an insertable entry inserted. -/
def graft (f : Forest ι α) (i : ι) (e : Entry ι α) (h : f.Insertable i e) :
    Forest ι α where
  entry := Function.update f.entry i (some e)
  parent_occupied := by
    intro k j hj
    by_cases hk : k = i
    · subst hk
      simp only [Function.update_self, Option.bind_some] at hj
      by_cases hjk : j = k
      · simp [hjk]
      · simpa [hjk] using h.2 j hj
    · simp only [Function.update_of_ne hk] at hj
      by_cases hji : j = i
      · simp [hji]
      · simpa [hji] using f.parent_occupied k j hj
  acyclic := by
    rw [bind_parent_update]
    cases hp : e.parent with
    | none =>
        refine f.acyclic.mono fun k j hk => ?_
        by_cases hki : k = i
        · subst hki; simp at hk
        · simpa [hki] using hk
    | some j =>
        refine f.acyclic.update fun back => ?_
        have occupied := h.2 j hp
        rw [Descends.eq_of_free (f := f) back h.1, h.1] at occupied
        simp at occupied

open Classical in
/-- Insert an entry; an insertion that would break the forest is refused. -/
noncomputable def insert (f : Forest ι α) (i : ι) (e : Entry ι α) : Forest ι α :=
  if h : f.Insertable i e then f.graft i e h else f

variable {f : Forest ι α} {i : ι} {e : Entry ι α}

theorem insert_entry_self (h : f.Insertable i e) :
    (f.insert i e).entry i = some e := by
  simp [insert, h, graft]

theorem insert_entry_of_ne {k : ι} (hk : k ≠ i) :
    (f.insert i e).entry k = f.entry k := by
  unfold insert
  split
  · simp [graft, hk]
  · rfl

end Insert

open Classical in
/-- Remove a position together with everything derived from it. -/
noncomputable def prune (f : Forest ι α) (r : ι) : Forest ι α where
  entry i := if f.Descends i r then none else f.entry i
  parent_occupied := by
    intro i j hij
    by_cases hi : f.Descends i r
    · simp [hi] at hij
    · simp only [hi, if_false] at hij
      have hj : ¬ f.Descends j r := fun hj => hi (hj.of_parent hij)
      simpa [hj] using f.parent_occupied i j hij
  acyclic := by
    refine f.acyclic.mono fun i j hij => ?_
    by_cases hi : f.Descends i r
    · simp [hi] at hij
    · simpa [hi] using hij

theorem prune_entry_of_descends {f : Forest ι α} {i r : ι}
    (h : f.Descends i r) : (f.prune r).entry i = none := by
  simp [prune, h]

theorem prune_entry_of_not_descends {f : Forest ι α} {i r : ι}
    (h : ¬ f.Descends i r) : (f.prune r).entry i = f.entry i := by
  simp [prune, h]

section Count

variable [Fintype ι]

open Classical in
/-- The occupied positions. -/
noncomputable def occupied (f : Forest ι α) : Finset ι :=
  Finset.univ.filter fun i => (f.entry i).isSome

open Classical in
/-- The occupied positions that descend from `r`, itself included. -/
noncomputable def subtree (f : Forest ι α) (r : ι) : Finset ι :=
  f.occupied.filter fun i => f.Descends i r

@[simp] theorem mem_occupied {f : Forest ι α} {i : ι} :
    i ∈ f.occupied ↔ (f.entry i).isSome := by
  simp [occupied]

@[simp] theorem mem_subtree {f : Forest ι α} {i r : ι} :
    i ∈ f.subtree r ↔ (f.entry i).isSome ∧ f.Descends i r := by
  simp [subtree]

theorem subtree_subset (f : Forest ι α) (r : ι) : f.subtree r ⊆ f.occupied := by
  intro i hi
  rw [mem_occupied]
  exact (mem_subtree.mp hi).1

end Count

end Forest

end Foundation
