import Mathlib
import Aegis.A64.Memory

/-!
# Address translation

Stage 1 of the translation of addresses, for 39-bit addresses and 4 KiB pages: a walk
through up to three levels of tables with 512 entries each.  At levels 1 and 2 an entry is
invalid, a block or the next table; at level 3 it is invalid or a page.

Entries are words that hold an address in bits 47 to 12 and attributes elsewhere, and they
are built as `address ||| attributes`.  The lemmas take such a word apart again.
-/

namespace A64

/-- Nine bits of the address index the table at each level. -/
def tableIndex (va : Word) (level : ℕ) : ℕ := (va >>> (39 - 9 * level) &&& 0x1ff).toNat

/-- The address in bits 47 to `shift` of an entry. -/
def addressField (entry : Word) (shift : ℕ) : Word :=
  BitVec.ofNat 64 (entry.toNat % 2 ^ 48 / 2 ^ shift * 2 ^ shift)

/-- Where a walk ends: the entry, and the address it translates to. -/
structure Leaf where
  entry : Word
  output : Word

/-- The leaf that maps the low `shift` bits of an address as they are. -/
def Leaf.of (entry va : Word) (shift : ℕ) : Leaf where
  entry
  output := BitVec.ofNat 64 ((addressField entry shift).toNat + va.toNat % 2 ^ shift)

/-- Walk from a table with some number of levels below it.  No leaf means a translation
fault. -/
def walkFrom (memory : Word → Word) (va : Word) : ℕ → Word → Option Leaf
  | 0, table =>
      let entry := memory (wordAt table (tableIndex va 3))
      if entry.getLsbD 0 && entry.getLsbD 1 then some (Leaf.of entry va 12) else none
  | below + 1, table =>
      let entry := memory (wordAt table (tableIndex va (2 - below)))
      if !entry.getLsbD 0 then none
      else if entry.getLsbD 1 then walkFrom memory va below (addressField entry 12)
      else some (Leaf.of entry va (12 + 9 * (below + 1)))

/-- Translate an address with the level-1 table at `ttbr`. -/
def walk (memory : Word → Word) (ttbr va : Word) : Option Leaf :=
  walkFrom memory va 2 (addressField ttbr 12)

/-! ## What EL0 may do -/

section Access

variable (memory : Word → Word) (ttbr va : Word)

/-- AP[1]. -/
def El0Reads : Prop :=
  ∃ leaf, walk memory ttbr va = some leaf ∧ leaf.entry.getLsbD 6 = true

/-- AP[1], and not AP[2]. -/
def El0Writes : Prop :=
  ∃ leaf, walk memory ttbr va = some leaf ∧ leaf.entry.getLsbD 6 = true ∧
    leaf.entry.getLsbD 7 = false

/-- Not UXN. -/
def El0Executes : Prop :=
  ∃ leaf, walk memory ttbr va = some leaf ∧ leaf.entry.getLsbD 54 = false

end Access

/-! ## Entries -/

/-- An address that fits the address field of an entry. -/
structure PageAddress (address : Word) : Prop where
  aligned : address.toNat % 4096 = 0
  lt : address.toNat < 2 ^ 48

/-- A word that leaves the address field of an entry free. -/
def Attributes (attributes : Word) : Prop := attributes.toNat % 2 ^ 48 < 4096

instance (attributes : Word) : Decidable (Attributes attributes) :=
  inferInstanceAs (Decidable (attributes.toNat % 2 ^ 48 < 4096))

section Entries

variable {address attributes va : Word} {shift i : ℕ}

theorem toNat_tableIndex (va : Word) (level : ℕ) :
    tableIndex va level = va.toNat / 2 ^ (39 - 9 * level) % 512 := by
  have hmask : (0x1ff : Word).toNat = 2 ^ 9 - 1 := rfl
  rw [tableIndex, BitVec.toNat_and, hmask, Nat.and_two_pow_sub_one_eq_mod,
    BitVec.toNat_ushiftRight, Nat.shiftRight_eq_div_pow]

theorem tableIndex_lt (va : Word) (level : ℕ) : tableIndex va level < 512 := by
  rw [toNat_tableIndex]
  exact Nat.mod_lt _ (by decide)

theorem PageAddress.getLsbD_eq_false (h : PageAddress address) (hi : i < 12 ∨ 48 ≤ i) :
    address.getLsbD i = false := by
  rw [BitVec.getLsbD]
  rcases hi with hi | hi
  · rw [← Nat.div_add_mod address.toNat 4096, h.aligned, Nat.add_zero,
      show 4096 = 2 ^ 12 from rfl, Nat.testBit_two_pow_mul, decide_eq_false (by omega),
      Bool.false_and]
  · exact Nat.testBit_lt_two_pow (h.lt.trans_le (Nat.pow_le_pow_right (by decide) hi))

theorem Attributes.getLsbD_eq_false (h : Attributes attributes) (hi : 12 ≤ i) (hi' : i < 48) :
    attributes.getLsbD i = false := by
  have hlow : (attributes.toNat % 2 ^ 48).testBit i = false :=
    Nat.testBit_lt_two_pow (h.trans_le (Nat.pow_le_pow_right (by decide) hi : 2 ^ 12 ≤ 2 ^ i))
  rwa [Nat.testBit_mod_two_pow, decide_eq_true hi', Bool.true_and] at hlow

/-- The mask of the address field keeps a page address as it is. -/
theorem PageAddress.and_mask (h : PageAddress address) :
    address &&& 0x0000fffffffff000 = address := by
  have hmask : ∀ i < 64, (0x0000fffffffff000 : Word).getLsbD i = decide (12 ≤ i ∧ i < 48) := by
    decide
  apply BitVec.eq_of_getLsbD_eq
  intro i hi
  rw [BitVec.getLsbD_and, hmask i hi]
  by_cases hfield : 12 ≤ i ∧ i < 48
  · rw [decide_eq_true hfield, Bool.and_true]
  · rw [decide_eq_false hfield, Bool.and_false, h.getLsbD_eq_false (by omega)]

/-- The attributes of an entry can be read from it. -/
theorem PageAddress.getLsbD_entry (h : PageAddress address) (attributes : Word)
    (hi : i < 12 ∨ 48 ≤ i) : (address ||| attributes).getLsbD i = attributes.getLsbD i := by
  rw [BitVec.getLsbD_or, h.getLsbD_eq_false hi, Bool.false_or]

/-- Address and attributes do not overlap: adding them makes the same entry. -/
theorem PageAddress.add_eq_entry (h : PageAddress address) (hattributes : Attributes attributes) :
    address + attributes = address ||| attributes := by
  apply BitVec.add_eq_or_of_and_eq_zero
  apply BitVec.eq_of_getLsbD_eq
  intro i _
  rw [BitVec.getLsbD_and, BitVec.getLsbD_zero]
  by_cases hi : 12 ≤ i ∧ i < 48
  · rw [hattributes.getLsbD_eq_false hi.1 hi.2, Bool.and_false]
  · rw [h.getLsbD_eq_false (by omega), Bool.false_and]

/-- The address of an entry can be read from it. -/
theorem PageAddress.addressField_entry (h : PageAddress address)
    (hattributes : Attributes attributes) (hshift : 12 ≤ shift)
    (haligned : 2 ^ shift ∣ address.toNat) :
    addressField (address ||| attributes) shift = address := by
  have hlow : (address + attributes).toNat % 2 ^ 48 =
      address.toNat + attributes.toNat % 2 ^ 48 := by
    have := h.aligned
    have := h.lt
    have : attributes.toNat % 2 ^ 48 < 4096 := hattributes
    rw [BitVec.toNat_add]
    omega
  have hsmall : attributes.toNat % 2 ^ 48 < 2 ^ shift :=
    hattributes.trans_le (Nat.pow_le_pow_right (by decide) hshift : 2 ^ 12 ≤ 2 ^ shift)
  obtain ⟨q, hq⟩ := haligned
  rw [addressField, ← h.add_eq_entry hattributes, hlow, hq,
    Nat.mul_add_div (Nat.two_pow_pos shift), Nat.div_eq_of_lt hsmall, Nat.add_zero,
    Nat.mul_comm, ← hq, BitVec.ofNat_toNat, BitVec.setWidth_eq]

theorem PageAddress.addressField_self (h : PageAddress address) :
    addressField address 12 = address := by
  have hentry : addressField (address ||| 0#64) 12 = address :=
    h.addressField_entry (by decide) le_rfl (Nat.dvd_of_mod_eq_zero h.aligned)
  rwa [BitVec.or_zero] at hentry

/-- A leaf that holds the address of the page or block that `va` lies in maps `va` to
itself. -/
theorem PageAddress.output_entry (h : PageAddress address) (hattributes : Attributes attributes)
    (hshift : 12 ≤ shift) (haligned : 2 ^ shift ∣ address.toNat)
    (hva : va.toNat = address.toNat + va.toNat % 2 ^ shift) :
    (Leaf.of (address ||| attributes) va shift).output = va := by
  rw [Leaf.of, h.addressField_entry hattributes hshift haligned, ← hva, BitVec.ofNat_toNat,
    BitVec.setWidth_eq]

end Entries

/-! ## Steps of a walk -/

section Walk

variable {memory : Word → Word} {table address attributes va : Word} {below : ℕ}

theorem walkFrom_invalid
    (hentry : (memory (wordAt table (tableIndex va (2 - below)))).getLsbD 0 = false) :
    walkFrom memory va (below + 1) table = none := by
  rw [walkFrom]
  simp only [hentry, Bool.not_false, if_true]

theorem walkFrom_table (hentry : memory (wordAt table (tableIndex va (2 - below))) =
      address ||| attributes) (h : PageAddress address) (hattributes : Attributes attributes)
    (hvalid : attributes.getLsbD 0 = true) (htable : attributes.getLsbD 1 = true) :
    walkFrom memory va (below + 1) table = walkFrom memory va below address := by
  have hvalid' := (h.getLsbD_entry attributes (i := 0) (by omega)).trans hvalid
  have htable' := (h.getLsbD_entry attributes (i := 1) (by omega)).trans htable
  rw [walkFrom]
  simp only [hentry, hvalid', htable', Bool.not_true, Bool.false_eq_true, if_false, if_true,
    h.addressField_entry hattributes le_rfl (Nat.dvd_of_mod_eq_zero h.aligned)]

theorem walkFrom_block (hentry : memory (wordAt table (tableIndex va (2 - below))) =
      address ||| attributes) (h : PageAddress address)
    (hvalid : attributes.getLsbD 0 = true) (hblock : attributes.getLsbD 1 = false) :
    walkFrom memory va (below + 1) table =
      some (Leaf.of (address ||| attributes) va (12 + 9 * (below + 1))) := by
  have hvalid' := (h.getLsbD_entry attributes (i := 0) (by omega)).trans hvalid
  have hblock' := (h.getLsbD_entry attributes (i := 1) (by omega)).trans hblock
  rw [walkFrom]
  simp only [hentry, hvalid', hblock', Bool.not_true, Bool.false_eq_true, if_false]

theorem walkFrom_page (hentry : memory (wordAt table (tableIndex va 3)) =
      address ||| attributes) (h : PageAddress address)
    (hvalid : attributes.getLsbD 0 = true) (hpage : attributes.getLsbD 1 = true) :
    walkFrom memory va 0 table = some (Leaf.of (address ||| attributes) va 12) := by
  have hvalid' := (h.getLsbD_entry attributes (i := 0) (by omega)).trans hvalid
  have hpage' := (h.getLsbD_entry attributes (i := 1) (by omega)).trans hpage
  rw [walkFrom]
  simp only [hentry, hvalid', hpage', Bool.and_self, if_true]

end Walk

end A64
