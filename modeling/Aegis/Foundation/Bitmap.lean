import Mathlib

/-!
# Bitmaps

A set of numbers kept as the bits of a vector of words: number `i` is bit `i % w` of word
`i / w`.  Words are tested and written through a mask with a single bit.  The lemmas
reduce both to `bitAt`, which knows nothing of words: writing bit `i` changes the answer
for `i` and for no other number.
-/

namespace Foundation

variable {w n i j k : ℕ}

/-! ## Masks -/

/-- Testing a word with a mask reads one bit. -/
theorem and_mask_ne_zero (word : BitVec w) (hk : k < w) :
    word &&& 1#w <<< k ≠ 0#w ↔ word.getLsbD k = true := by
  rw [← BitVec.twoPow_eq, BitVec.and_twoPow]
  cases word.getLsbD k with
  | true =>
      have hbit : (BitVec.twoPow w k).getLsbD k = true := by simp [hk]
      simp only [if_true, iff_true]
      intro h
      rw [h, BitVec.getLsbD_zero] at hbit
      cases hbit
  | false => simp

/-- Setting or clearing a bit with a mask leaves the other bits of the word alone. -/
theorem getLsbD_write_mask (word : BitVec w) (bit : Bool) (hk : k < w) (hj : j < w) :
    (if bit then word ||| 1#w <<< k else word &&& ~~~(1#w <<< k)).getLsbD j =
      if j = k then bit else word.getLsbD j := by
  rw [← BitVec.twoPow_eq]
  by_cases hjk : j = k
  · subst hjk
    cases bit <;> simp [hk]
  · cases bit <;> simp [hjk, hj]

/-! ## Vectors of words -/

/-- Bit `i` of a vector of words; beyond the last word all bits are clear. -/
def bitAt (words : Vector (BitVec w) n) (i : ℕ) : Bool :=
  words[i / w]?.any fun word => word.getLsbD (i % w)

theorem bitAt_of_lt (words : Vector (BitVec w) n) (h : i / w < n) :
    bitAt words i = words[i / w].getLsbD (i % w) := by
  rw [bitAt, Vector.getElem?_eq_getElem h, Option.any_some]

@[simp] theorem bitAt_replicate_zero : bitAt (Vector.replicate n (0#w)) i = false := by
  by_cases h : i / w < n
  · rw [bitAt_of_lt _ h, Vector.getElem_replicate, BitVec.getLsbD_zero]
  · rw [bitAt, Vector.getElem?_eq_none (by omega), Option.any_none]

/-- Writing bit `i` through its mask changes bit `i` and no other. -/
theorem bitAt_write (words : Vector (BitVec w) n) (bit : Bool) (hw : 0 < w) (hi : i / w < n) :
    bitAt (words.set (i / w)
      (if bit then words[i / w] ||| 1#w <<< (i % w)
        else words[i / w] &&& ~~~(1#w <<< (i % w)))) j =
      if j = i then bit else bitAt words j := by
  have hmod := Nat.mod_lt i hw
  have hmod' := Nat.mod_lt j hw
  by_cases hword : j / w = i / w
  · -- the same word: two of its bits are the same number exactly if they are one bit
    have hsame : j % w = i % w ↔ j = i := by
      refine ⟨fun h => ?_, fun h => h ▸ rfl⟩
      rw [← Nat.div_add_mod j w, ← Nat.div_add_mod i w, hword, h]
    have hj : j / w < n := hword ▸ hi
    rw [bitAt_of_lt _ hj, bitAt_of_lt _ hj]
    simp only [hword, Vector.getElem_set_self]
    rw [getLsbD_write_mask _ _ hmod hmod']
    simp only [hsame]
  · have hne : j ≠ i := fun h => hword (h ▸ rfl)
    rw [if_neg hne, bitAt, bitAt, Vector.getElem?_set_ne hi (Ne.symm hword)]

end Foundation
