import Mathlib

/-!
# Acyclic partial successor functions

A parent pointer or a "waits for" pointer is a partial function
`next : ι → Option ι`.  This file collects what follows from such a function
having no cycle: on a finite type every chain ends, in fewer steps than there
are elements (`Acyclic.exists_end`), so a property may be proved along the chain
(`Acyclic.induction`); and the three ways in which a pointer structure changes
keep it acyclic, dropping pointers (`Acyclic.mono`), adding a pointer towards an
element that does not lead back (`Acyclic.update`), and renaming the elements
(`Acyclic.of_owner`).
-/

namespace Foundation

open Relation

variable {ι κ : Type*}

/-- `j` is the successor of `i`. -/
def Follows (next : ι → Option ι) (i j : ι) : Prop := next i = some j

/-- No element is reached again by following successors from it. -/
def Acyclic (next : ι → Option ι) : Prop := ∀ i, ¬ TransGen (Follows next) i i

/-- Follow `n` successors; `none` once the chain has ended. -/
def walk (next : ι → Option ι) : ℕ → ι → Option ι
  | 0, i => some i
  | n + 1, i => (next i).bind (walk next n)

@[simp] theorem walk_zero (next : ι → Option ι) (i : ι) :
    walk next 0 i = some i := rfl

theorem walk_add (next : ι → Option ι) (m n : ℕ) (i : ι) :
    walk next (m + n) i = (walk next m i).bind (walk next n) := by
  induction m generalizing i with
  | zero => simp
  | succ m ih =>
      rw [Nat.succ_add]
      simp only [walk]
      cases next i with
      | none => rfl
      | some j => exact ih j

/-- One more step at the far end. -/
theorem walk_succ (next : ι → Option ι) (n : ℕ) (i : ι) :
    walk next (n + 1) i = (walk next n i).bind next := by
  rw [walk_add]
  congr 1
  funext j
  simp [walk]

theorem reflTransGen_of_walk {next : ι → Option ι} {n : ℕ} {i j : ι}
    (h : walk next n i = some j) : ReflTransGen (Follows next) i j := by
  induction n generalizing j with
  | zero =>
      simp only [walk_zero, Option.some.injEq] at h
      exact h ▸ .refl
  | succ n ih =>
      rw [walk_succ, Option.bind_eq_some_iff] at h
      obtain ⟨k, hk, hkj⟩ := h
      exact (ih hk).tail hkj

theorem transGen_of_walk {next : ι → Option ι} {n : ℕ} {i j : ι}
    (h : walk next (n + 1) i = some j) : TransGen (Follows next) i j := by
  rw [walk_succ, Option.bind_eq_some_iff] at h
  obtain ⟨k, hk, hkj⟩ := h
  exact TransGen.tail' (reflTransGen_of_walk hk) hkj

/-- A map that carries successors to successors carries walks to walks. -/
theorem walk_map {κ : Type*} {next : ι → Option ι} {follow : κ → Option κ} {f : ι → κ}
    (h : ∀ i, follow (f i) = (next i).map f) (n : ℕ) (i : ι) :
    walk follow n (f i) = (walk next n i).map f := by
  induction n generalizing i with
  | zero => rfl
  | succ n ih =>
      rw [walk, walk, h]
      cases hi : next i with
      | none => rfl
      | some j => exact ih j

theorem exists_walk_of_reflTransGen {next : ι → Option ι} {i j : ι}
    (h : ReflTransGen (Follows next) i j) : ∃ n, walk next n i = some j := by
  induction h with
  | refl => exact ⟨0, rfl⟩
  | tail _ hkj ih =>
      obtain ⟨n, hn⟩ := ih
      exact ⟨n + 1, by rw [walk_succ, hn]; exact hkj⟩

/-- Where a chain ends, every part of it leads. -/
theorem leads_to_end {next : ι → Option ι} {i j k : ι} (h : ReflTransGen (Follows next) i j)
    (h' : ReflTransGen (Follows next) i k) (hend : next k = none) :
    ReflTransGen (Follows next) j k := by
  have unique : Relator.RightUnique (Follows next) :=
    fun _ _ _ hb hc => Option.some.inj (hb.symm.trans hc)
  obtain hforth | hback := ReflTransGen.total_of_right_unique unique h h'
  · exact hforth
  · obtain rfl | ⟨l, hstep, -⟩ := hback.cases_head
    · exact .refl
    · exact absurd (hend.symm.trans hstep) (Option.some_ne_none l).symm

/-- A chain has one end. -/
theorem end_unique {next : ι → Option ι} {i j k : ι} (h : ReflTransGen (Follows next) i j)
    (h' : ReflTransGen (Follows next) i k) (hj : next j = none) (hk : next k = none) : j = k := by
  obtain heq | ⟨l, hstep, -⟩ := (leads_to_end h h' hk).cases_head
  · exact heq
  · exact absurd (hj.symm.trans hstep) (Option.some_ne_none l).symm

namespace Acyclic

variable {next next' : ι → Option ι}

/-- A chain that has not ended after `n` steps has visited `n + 1` different
elements, so `n` is smaller than the number of elements. -/
theorem lt_card_of_walk [Fintype ι] (h : Acyclic next) {n : ℕ} {i j : ι}
    (hwalk : walk next n i = some j) : n < Fintype.card ι := by
  have defined : ∀ k ≤ n, ∃ x, walk next k i = some x := by
    intro k hk
    obtain ⟨d, rfl⟩ := Nat.exists_eq_add_of_le hk
    rw [walk_add, Option.bind_eq_some_iff] at hwalk
    obtain ⟨x, hx, -⟩ := hwalk
    exact ⟨x, hx⟩
  choose visit hvisit using fun k : Fin (n + 1) =>
    defined k.1 (Nat.lt_succ_iff.mp k.2)
  -- returning to an element after `d + 1` further steps would be a cycle
  have distinct : ∀ a b : Fin (n + 1), a < b → visit a ≠ visit b := by
    intro a b hab heq
    obtain ⟨d, hd⟩ := Nat.exists_eq_add_of_lt hab
    have hb := hvisit b
    rw [hd, Nat.add_assoc, walk_add, hvisit a, Option.bind_some, ← heq] at hb
    exact h _ (transGen_of_walk hb)
  have inj : Function.Injective visit := by
    intro a b heq
    rcases lt_trichotomy a b with hab | hab | hab
    · exact absurd heq (distinct a b hab)
    · exact hab
    · exact absurd heq.symm (distinct b a hab)
  simpa using Fintype.card_le_of_injective visit inj

/-- **Every chain ends**, after fewer steps than there are elements. -/
theorem exists_end [Fintype ι] (h : Acyclic next) (i : ι) :
    ∃ n < Fintype.card ι, ∃ j, walk next n i = some j ∧ next j = none := by
  by_contra hno
  have all : ∀ n, ∃ j, walk next n i = some j := by
    intro n
    induction n with
    | zero => exact ⟨i, rfl⟩
    | succ n ih =>
        obtain ⟨j, hj⟩ := ih
        cases hnext : next j with
        | none => exact absurd ⟨n, h.lt_card_of_walk hj, j, hj, hnext⟩ hno
        | some k => exact ⟨k, by rw [walk_succ, hj]; exact hnext⟩
  obtain ⟨j, hj⟩ := all (Fintype.card ι)
  exact lt_irrefl _ (h.lt_card_of_walk hj)

/-- Induction along the chain: a property that passes from the successor of an
element to the element holds everywhere. -/
theorem induction [Fintype ι] (h : Acyclic next) {P : ι → Prop}
    (step : ∀ i, (∀ j, next i = some j → P j) → P i) (i : ι) : P i := by
  obtain ⟨n, -, j, hj, hend⟩ := h.exists_end i
  induction n generalizing i with
  | zero =>
      simp only [walk_zero, Option.some.injEq] at hj
      subst hj
      exact step i fun k hk => by simp [hend] at hk
  | succ n ih =>
      refine step i fun k hk => ih k ?_
      simpa [walk, hk] using hj

/-- Dropping pointers creates no cycle. -/
theorem mono (h : Acyclic next)
    (sub : ∀ i j, next' i = some j → next i = some j) : Acyclic next' :=
  fun i hi => h i (TransGen.mono sub _ _ hi)

/-- Redirecting one pointer creates no cycle when its new target does not lead
back to its origin. -/
theorem update [DecidableEq ι] (h : Acyclic next) {i j : ι}
    (back : ¬ ReflTransGen (Follows next) j i) :
    Acyclic (Function.update next i (some j)) := by
  -- a chain of the new structure either avoids the new pointer or runs through it
  have split : ∀ {a b}, TransGen (Follows (Function.update next i (some j))) a b →
      TransGen (Follows next) a b ∨
        ReflTransGen (Follows next) a i ∧ ReflTransGen (Follows next) j b := by
    intro a b hab
    have edge : ∀ {x y}, Follows (Function.update next i (some j)) x y →
        Follows next x y ∨ x = i ∧ j = y := by
      intro x y hxy
      by_cases hx : x = i
      · subst hx
        exact Or.inr ⟨rfl, by simpa [Follows] using hxy⟩
      · exact Or.inl (by simpa [Follows, hx] using hxy)
    induction hab with
    | single hxy =>
        rcases edge hxy with old | ⟨rfl, rfl⟩
        · exact Or.inl (.single old)
        · exact Or.inr ⟨.refl, .refl⟩
    | tail _ hxy ih =>
        rcases edge hxy with old | ⟨rfl, rfl⟩
        · rcases ih with direct | ⟨toOrigin, fromTarget⟩
          · exact Or.inl (direct.tail old)
          · exact Or.inr ⟨toOrigin, fromTarget.tail old⟩
        · rcases ih with direct | ⟨toOrigin, -⟩
          · exact Or.inr ⟨direct.to_reflTransGen, .refl⟩
          · exact Or.inr ⟨toOrigin, .refl⟩
  intro a ha
  rcases split ha with cycle | ⟨toOrigin, fromTarget⟩
  · exact h a cycle
  · exact back (fromTarget.trans toOrigin)

/-- A structure whose elements are owned one by one by the elements of an
acyclic structure, pointers included, is itself acyclic. -/
theorem of_owner {next : ι → Option ι} {follow : κ → Option κ}
    (own : κ → ι → Prop) (unique : ∀ k i j, own k i → own k j → i = j)
    (step : ∀ k l, follow k = some l →
      ∃ i j, own k i ∧ own l j ∧ next i = some j)
    (h : Acyclic next) : Acyclic follow := by
  have lift : ∀ {k l}, TransGen (Follows follow) k l →
      ∃ i j, own k i ∧ own l j ∧ TransGen (Follows next) i j := by
    intro k l hkl
    induction hkl with
    | single hstep =>
        obtain ⟨i, j, hi, hj, hij⟩ := step _ _ hstep
        exact ⟨i, j, hi, hj, .single hij⟩
    | tail _ hstep ih =>
        obtain ⟨i, j, hi, hj, hij⟩ := ih
        obtain ⟨j', m, hj', hm, hjm⟩ := step _ _ hstep
        obtain rfl := unique _ _ _ hj hj'
        exact ⟨i, m, hi, hm, hij.tail hjm⟩
  intro k hk
  obtain ⟨i, j, hi, hj, hij⟩ := lift hk
  obtain rfl := unique _ _ _ hi hj
  exact h i hij

end Acyclic

/-- No pointers, no cycle. -/
theorem acyclic_none : Acyclic fun _ : ι => (none : Option ι) := by
  intro i hi
  obtain ⟨j, hj, -⟩ := TransGen.head'_iff.mp hi
  exact absurd hj (by simp [Follows])

end Foundation
