import Mathlib

/-!
# Ring buffers

A ring buffer keeps a first-in first-out list in a fixed vector of optional
entries, starting at `head` and wrapping around at the end.  `RingHolds` says that
a vector holds a list in this way, and that its other entries are empty: the entry
at index `j` is the list element `offset` places behind the head.  `RingHolds.push`
and `RingHolds.pop` are the two operations, with the index arithmetic an
implementation uses.
-/

namespace Foundation

variable {α : Type*} {n : ℕ}

/-- How far index `j` lies behind `head`, going around a ring of size `n`. -/
def offset (n head j : ℕ) : ℕ :=
  if head ≤ j then j - head else j + n - head

/-- Going around the ring wraps at most once. -/
theorem add_mod_eq {head k : ℕ} (hhead : head < n) (hk : k ≤ n) :
    (head + k) % n = if head + k < n then head + k else head + k - n := by
  split
  · next h => exact Nat.mod_eq_of_lt h
  · next h =>
      rw [Nat.mod_eq_sub_mod (by omega)]
      exact Nat.mod_eq_of_lt (by omega)

/-- The entry `k` places behind the head is the only one with offset `k`. -/
theorem offset_eq_iff {head k j : ℕ} (hhead : head < n) (hk : k < n) (hj : j < n) :
    offset n head j = k ↔ j = (head + k) % n := by
  rw [add_mod_eq hhead hk.le, offset]
  split <;> split <;> omega

theorem offset_lt {head j : ℕ} (hhead : head < n) (hj : j < n) : offset n head j < n := by
  rw [offset]
  split <;> omega

/-- Moving the head forward by one brings every other entry one place closer. -/
theorem offset_succ {head j : ℕ} (hhead : head < n) (hj : j < n) (hne : j ≠ head) :
    offset n head j = offset n ((head + 1) % n) j + 1 := by
  rw [add_mod_eq hhead (by omega), offset, offset]
  split <;> split <;> split <;> omega

/-- The entry at the old head becomes the last one. -/
theorem offset_succ_self {head : ℕ} (hhead : head < n) :
    offset n ((head + 1) % n) head + 1 = n := by
  rw [add_mod_eq hhead (by omega), offset]
  split <;> split <;> omega

/-- The entries, read from `head` around the ring, are the list, followed by empty
entries. -/
structure RingHolds (entries : Vector (Option α) n) (head : ℕ) (l : List α) : Prop where
  head_lt : 0 < n → head < n
  length_le : l.length ≤ n
  entry : ∀ (j : ℕ) (hj : j < n), entries[j] = l[offset n head j]?

namespace RingHolds

variable {entries : Vector (Option α) n} {head : ℕ} {l : List α} {x : α}

theorem empty : RingHolds (Vector.replicate n (none : Option α)) 0 [] where
  head_lt h := h
  length_le := Nat.zero_le n
  entry j hj := by simp

/-- The element `k` places behind the head. -/
theorem getElem_add (h : RingHolds entries head l) {k : ℕ} (hk : k < l.length)
    (hlt : (head + k) % n < n) : entries[(head + k) % n] = l[k]? := by
  have hkn : k < n := hk.trans_le h.length_le
  rw [h.entry _ hlt, (offset_eq_iff (h.head_lt (by omega)) hkn hlt).mpr rfl]

/-- An entry that is none of the elements' is empty. -/
theorem getElem_eq_none (h : RingHolds entries head l) {j : ℕ} (hj : j < n)
    (hfree : ∀ k < l.length, j ≠ (head + k) % n) : entries[j] = none := by
  have hhead : head < n := h.head_lt (by omega)
  have hoff : offset n head j < n := offset_lt hhead hj
  have hbehind : l.length ≤ offset n head j := by
    by_contra hlt
    exact hfree _ (Nat.lt_of_not_le hlt) ((offset_eq_iff hhead hoff hj).mp rfl)
  rw [h.entry j hj, List.getElem?_eq_none hbehind]

/-- Writing behind the last element appends to the list. -/
theorem push (h : RingHolds entries head l) (room : l.length < n)
    (hlt : (head + l.length) % n < n) :
    RingHolds (entries.set ((head + l.length) % n) (some x)) head (l ++ [x]) where
  head_lt := h.head_lt
  length_le := by
    rw [List.length_append, List.length_singleton]
    exact room
  entry j hj := by
    have key := offset_eq_iff (h.head_lt (by omega)) room hj
    rw [Vector.getElem_set]
    split
    · next heq => rw [key.mpr heq.symm, List.getElem?_concat_length]
    · next hne =>
        have hoff : offset n head j ≠ l.length := fun hoff => hne (key.mp hoff).symm
        rw [h.entry j hj]
        rcases Nat.lt_or_gt_of_ne hoff with hlt | hgt
        · rw [List.getElem?_append_left hlt]
        · rw [List.getElem?_eq_none hgt.le, List.getElem?_eq_none]
          rw [List.length_append, List.length_singleton]
          exact hgt

/-- The first element is at the head, and moving the head forward removes it. -/
theorem pop (h : RingHolds entries head (x :: l)) :
    ∃ hhead : head < n, entries[head] = some x ∧
      RingHolds (entries.set head none) ((head + 1) % n) l := by
  have hlen : l.length + 1 ≤ n := h.length_le
  have hhead : head < n := h.head_lt (by omega)
  refine ⟨hhead, ?_, fun _ => Nat.mod_lt _ (by omega), by omega, fun j hj => ?_⟩
  · rw [h.entry head hhead, offset, if_pos le_rfl, Nat.sub_self]
    rfl
  · rw [Vector.getElem_set]
    split
    · next heq =>
        subst heq
        have := offset_succ_self hhead
        rw [List.getElem?_eq_none (by omega)]
    · next hne =>
        rw [h.entry j hj, offset_succ hhead hj fun heq => hne heq.symm, List.getElem?_cons_succ]

end RingHolds

end Foundation
