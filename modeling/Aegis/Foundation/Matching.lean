import Mathlib

/-!
# Matching two streams first come, first served

Two streams of arrivals, `xs` on one side and `ys` on the other, are matched in
order: the `i`-th arrival on one side with the `i`-th on the other.  The pairs made
so far are `xs.zip ys`, and the arrivals still waiting are `xs.drop ys.length` and
`ys.drop xs.length`, one of which is empty.  A new arrival either waits behind the
others of its side or is matched with the first one waiting on the other side.
-/

namespace Foundation

variable {α β : Type*} {xs : List α} {ys : List β} {x : α} {y : β}

theorem zip_concat_of_le (h : ys.length ≤ xs.length) (x : α) :
    (xs ++ [x]).zip ys = xs.zip ys := by
  induction xs generalizing ys with
  | nil =>
      obtain rfl : ys = [] := List.length_eq_zero_iff.mp (Nat.le_zero.mp h)
      rfl
  | cons a xs ih =>
      cases ys with
      | nil => rfl
      | cons b ys =>
          rw [List.cons_append, List.zip_cons_cons, List.zip_cons_cons,
            ih (Nat.le_of_succ_le_succ h)]

theorem zip_concat_of_drop {rest : List β} (h : ys.drop xs.length = y :: rest) (x : α) :
    (xs ++ [x]).zip ys = xs.zip ys ++ [(x, y)] := by
  induction xs generalizing ys with
  | nil =>
      obtain rfl : ys = y :: rest := h
      rfl
  | cons a xs ih =>
      cases ys with
      | nil => cases h
      | cons b ys =>
          rw [List.cons_append, List.zip_cons_cons, List.zip_cons_cons, List.cons_append,
            ih h]

/-- Nobody waits on the other side, so the new arrival waits. -/
theorem waiting_concat (h : ys.drop xs.length = []) (x : α) :
    (xs ++ [x]).drop ys.length = xs.drop ys.length ++ [x] ∧
      ys.drop (xs ++ [x]).length = [] ∧ (xs ++ [x]).zip ys = xs.zip ys := by
  have hle : ys.length ≤ xs.length := List.drop_eq_nil_iff.mp h
  refine ⟨List.drop_append_of_le_length hle, ?_, zip_concat_of_le hle x⟩
  refine List.drop_eq_nil_iff.mpr ?_
  rw [List.length_append]
  omega

/-- The new arrival is matched with the first one waiting on the other side. -/
theorem matched_concat {rest : List β} (h : ys.drop xs.length = y :: rest) (x : α) :
    (xs ++ [x]).drop ys.length = [] ∧ ys.drop (xs ++ [x]).length = rest ∧
      (xs ++ [x]).zip ys = xs.zip ys ++ [(x, y)] := by
  have hlen : xs.length + (rest.length + 1) = ys.length := by
    have := congrArg List.length h
    rw [List.length_drop, List.length_cons] at this
    omega
  refine ⟨?_, ?_, zip_concat_of_drop h x⟩
  · refine List.drop_eq_nil_iff.mpr ?_
    rw [List.length_append, List.length_singleton]
    omega
  · rw [List.length_append, List.length_singleton, ← List.drop_drop, h]
    rfl

/-- The arrivals that still wait are those with a number not reached by the other
side. -/
theorem mem_drop_iff {n : ℕ} : x ∈ xs.drop n ↔ ∃ i, n ≤ i ∧ xs[i]? = some x := by
  rw [List.mem_iff_getElem?]
  constructor
  · rintro ⟨i, hi⟩
    rw [List.getElem?_drop] at hi
    exact ⟨n + i, Nat.le_add_right n i, hi⟩
  · rintro ⟨i, hni, hi⟩
    refine ⟨i - n, ?_⟩
    rw [List.getElem?_drop, Nat.add_sub_cancel' hni, hi]

/-- In a stream in order of time, a later number means a later time. -/
theorem time_lt_of_lt {time : α → ℕ} (h : xs.Pairwise fun a b => time a < time b) {i j : ℕ}
    {a b : α} (hi : xs[i]? = some a) (hj : xs[j]? = some b) (hij : i < j) : time a < time b := by
  obtain ⟨hi', rfl⟩ := List.getElem?_eq_some_iff.mp hi
  obtain ⟨hj', rfl⟩ := List.getElem?_eq_some_iff.mp hj
  exact List.pairwise_iff_getElem.mp h i j hi' hj' hij

end Foundation
