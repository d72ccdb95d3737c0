import Mathlib

/-!
# Records in slots

A table of slots, some of them free, holds a list of records: what is left when the free
slots are skipped.  Filling a free slot adds one record to it, somewhere.  Where no two
records have the same key it does not matter where: a search by key finds the only record
there is.
-/

namespace Foundation

variable {α κ : Type*}

/-- Filling a free slot adds one record, and no other changes. -/
theorem reduceOption_set_perm {slots : List (Option α)} {i : ℕ} (hfree : slots[i]? = some none)
    (a : α) : (slots.set i (some a)).reduceOption.Perm (a :: slots.reduceOption) := by
  obtain ⟨hi, hnone⟩ := List.getElem?_eq_some_iff.mp hfree
  have hsplit : slots = slots.take i ++ none :: slots.drop (i + 1) := by
    rw [← hnone, List.getElem_cons_drop, List.take_append_drop]
  have hold : slots.reduceOption =
      (slots.take i).reduceOption ++ (slots.drop (i + 1)).reduceOption := by
    conv_lhs => rw [hsplit]
    rw [List.reduceOption_append, List.reduceOption_cons_of_none]
  rw [List.set_eq_take_append_cons_drop, if_pos hi, List.reduceOption_append,
    List.reduceOption_cons_of_some, hold]
  exact List.perm_middle

variable {key : α → κ} {l l' : List α}

/-- No two records have the same key. -/
def Keyed (key : α → κ) (l : List α) : Prop :=
  ∀ a ∈ l, ∀ b ∈ l, key a = key b → a = b

theorem Keyed.nil : Keyed key [] := by
  intro a ha
  cases ha

theorem Keyed.snoc {a : α} (h : Keyed key l) (hnew : ∀ b ∈ l, key b ≠ key a) :
    Keyed key (l ++ [a]) := by
  intro b hb c hc hsame
  rw [List.mem_append, List.mem_singleton] at hb hc
  rcases hb with hb | rfl
  · rcases hc with hc | rfl
    · exact h b hb c hc hsame
    · exact absurd hsame (hnew b hb)
  · rcases hc with hc | rfl
    · exact absurd hsame.symm (hnew c hc)
    · rfl

section Search

variable [DecidableEq κ]

theorem Keyed.find?_eq_some_iff (h : Keyed key l) {a : α} {k : κ} :
    l.find? (fun a => key a = k) = some a ↔ a ∈ l ∧ key a = k := by
  constructor
  · intro hfind
    exact ⟨List.mem_of_find?_eq_some hfind, of_decide_eq_true (List.find?_some hfind :)⟩
  · rintro ⟨hmem, rfl⟩
    cases hfind : l.find? fun b => key b = key a with
    | none => exact absurd (decide_eq_true rfl) (List.find?_eq_none.mp hfind a hmem)
    | some b =>
        have hkey : key b = key a := of_decide_eq_true (List.find?_some hfind :)
        rw [h b (List.mem_of_find?_eq_some hfind) a hmem hkey]

/-- A search by key does not depend on the order of the records. -/
theorem Keyed.find?_perm (h : Keyed key l) (hperm : l'.Perm l) (k : κ) :
    l'.find? (fun a => key a = k) = l.find? fun a => key a = k := by
  have h' : Keyed key l' := fun a ha b hb =>
    h a (hperm.mem_iff.mp ha) b (hperm.mem_iff.mp hb)
  ext a
  rw [h.find?_eq_some_iff, h'.find?_eq_some_iff, hperm.mem_iff]

end Search

end Foundation
