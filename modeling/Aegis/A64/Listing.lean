import Mathlib
import Aegis.A64.Machine

/-!
# Code at addresses

A listing of instructions with labels between them, placed at a base address: instructions
take four bytes each and labels none.
-/

namespace A64

/-- A line of a listing. -/
inductive Listed (I L : Type*)
  | label (l : L)
  | instr (i : I)

abbrev Listing (I L : Type*) := List (Listed I L)

namespace Listing

variable {I L : Type*} (code : Listing I L)

def instrOf : Listed I L → Option I
  | .label _ => none
  | .instr i => some i

def isLabel [DecidableEq L] (l : L) : Listed I L → Bool
  | .label l' => l' = l
  | .instr _ => false

/-- The number of the instruction after a label. -/
def indexOf [DecidableEq L] (l : L) : ℕ :=
  ((code.takeWhile fun line => !isLabel l line).filterMap instrOf).length

/-- The address of an instruction. -/
def addressOf (base : Word) (i : ℕ) : Word := base + BitVec.ofNat 64 (4 * i)

/-- The instruction at an address. -/
def fetch (base pc : Word) : Option I :=
  if (pc - base).toNat % 4 = 0 then (code.filterMap instrOf)[(pc - base).toNat / 4]? else none

theorem addressOf_zero (base : Word) : addressOf base 0 = base := BitVec.add_zero base

theorem addressOf_succ (base : Word) (i : ℕ) : addressOf base i + 4 = addressOf base (i + 1) := by
  rw [addressOf, addressOf, BitVec.add_assoc, Nat.mul_add, BitVec.ofNat_add]
  rfl

theorem addressOf_inj {base : Word} {i j : ℕ} (hi : i < 2 ^ 62) (hj : j < 2 ^ 62)
    (h : addressOf base i = addressOf base j) : i = j := by
  have hoffset : BitVec.ofNat 64 (4 * i) = BitVec.ofNat 64 (4 * j) := add_left_cancel h
  have htoNat := congrArg BitVec.toNat hoffset
  rw [BitVec.toNat_ofNat, BitVec.toNat_ofNat] at htoNat
  omega

theorem fetch_addressOf {base : Word} {i : ℕ} (h : i < 2 ^ 62) :
    code.fetch base (addressOf base i) = (code.filterMap instrOf)[i]? := by
  have hoffset : (addressOf base i - base).toNat = 4 * i := by
    rw [addressOf, add_sub_cancel_left, BitVec.toNat_ofNat]
    omega
  rw [fetch, hoffset, if_pos (Nat.mul_mod_right 4 i), Nat.mul_div_cancel_left i (by decide)]

end Listing

end A64
