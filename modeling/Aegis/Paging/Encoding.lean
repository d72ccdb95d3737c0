import Mathlib
import Aegis.A64.Translation
import Aegis.Paging.Policy

/-!
# What the encoding keeps

A mapping reaches the hardware as a place in the tables and a word in that place.  The
place is given by the indices of `levelIndex`, which name a user page uniquely: the policy
keeps user addresses within the 39 bits that levels 1 to 3 cover.  The word is the
descriptor, and `decode` reads it the way the hardware does.  Its attributes come back as
they went in, but of the physical address only the low 48 bits do: `pageDescriptor` refuses
an address whose low bits do not fit the field and masks off the high bits that do not, so
that an address beyond 2^48 is encoded as if it were another one.
-/

namespace Aegis.Paging

open Memory A64

/-! ## The place of a page -/

/-- `level_index` computes the indices of the translation walk. -/
theorem levelIndex_eq (va : BitVec 64) {level : ℕ} (hlevel : level ≤ 3) :
    levelIndex va level = .ok (tableIndex va level) := by
  interval_cases level <;> rfl

/-- The entries on the way to the page, at levels 1 to 3. -/
def leafIndices (virtualAddress : BitVec 64) : Except MapError (ℕ × ℕ × ℕ) := do
  let level1 ← levelIndex virtualAddress 1
  let level2 ← levelIndex virtualAddress 2
  let level3 ← levelIndex virtualAddress 3
  return (level1, level2, level3)

theorem leafIndices_eq (va : BitVec 64) :
    leafIndices va = .ok (tableIndex va 1, tableIndex va 2, tableIndex va 3) := rfl

section

variable {va other : BitVec 64}

theorem tableIndex_zero (htop : va < USER_TOP) : tableIndex va 0 = 0 := by
  have hlt : va.toNat < 2 ^ 39 := BitVec.lt_def.mp htop
  rw [toNat_tableIndex]
  omega

/-- A page below the top of user space is the sum of what its indices stand for. -/
theorem toNat_eq_indices (htop : va < USER_TOP) (haligned : va % PAGE_SIZE = 0) :
    va.toNat = (tableIndex va 1 <<< 30) + (tableIndex va 2 <<< 21) +
      (tableIndex va 3 <<< 12) := by
  have hlt : va.toNat < 2 ^ 39 := BitVec.lt_def.mp htop
  rw [mod_PAGE_SIZE] at haligned
  rw [Nat.shiftLeft_eq, Nat.shiftLeft_eq, Nat.shiftLeft_eq, toNat_tableIndex, toNat_tableIndex,
    toNat_tableIndex]
  omega

theorem eq_of_leafIndices_eq (htop : va < USER_TOP) (haligned : va % PAGE_SIZE = 0)
    (htop' : other < USER_TOP) (haligned' : other % PAGE_SIZE = 0)
    (h : leafIndices va = leafIndices other) : va = other := by
  rw [leafIndices_eq, leafIndices_eq, Except.ok.injEq, Prod.mk.injEq, Prod.mk.injEq] at h
  obtain ⟨h1, h2, h3⟩ := h
  apply BitVec.eq_of_toNat_eq
  rw [toNat_eq_indices htop haligned, toNat_eq_indices htop' haligned', h1, h2, h3]

end

/-- **User addresses decompose uniquely.**  After any sequence of calls, the address of
every stored user mapping is zero at level 0 and is given by its indices at levels 1 to 3,
all within a table; and no two user mappings meet in one leaf entry. -/
theorem user_mappings_decompose (MAPPINGS : ℕ) (ops : List Mapping) :
    ∃ es space, (spaceMachine MAPPINGS).exec AddressSpace.new ops = some (es, space) ∧
      (∀ mapping ∈ space.stored, mapping.permissions.user = true →
        levelIndex mapping.virtualAddress 0 = .ok 0 ∧
        ∃ i₁ i₂ i₃, levelIndex mapping.virtualAddress 1 = .ok i₁ ∧
          levelIndex mapping.virtualAddress 2 = .ok i₂ ∧
          levelIndex mapping.virtualAddress 3 = .ok i₃ ∧
          mapping.virtualAddress.toNat = (i₁ <<< 30) + (i₂ <<< 21) + (i₃ <<< 12) ∧
          i₁ < ENTRIES_PER_TABLE ∧ i₂ < ENTRIES_PER_TABLE ∧ i₃ < ENTRIES_PER_TABLE) ∧
      ∀ (slot : ℕ) (_ : slot < MAPPINGS) (other : ℕ) (_ : other < MAPPINGS) mapping mapping',
        space.mappings[slot] = some mapping → space.mappings[other] = some mapping' →
        slot ≠ other → mapping.permissions.user = true → mapping'.permissions.user = true →
          leafIndices mapping.virtualAddress ≠ leafIndices mapping'.virtualAddress := by
  obtain ⟨es, space, hexec, hspace⟩ := WellFormed.exec ops
  refine ⟨es, space, hexec, ?_, ?_⟩
  · intro mapping hmapping huser
    have hadm := hspace.admissible mapping hmapping
    have htop := hadm.belowTop huser
    refine ⟨?_, _, _, _, levelIndex_eq _ (by decide), levelIndex_eq _ (by decide),
      levelIndex_eq _ (by decide), toNat_eq_indices htop hadm.alignedVirtual,
      tableIndex_lt _ _, tableIndex_lt _ _, tableIndex_lt _ _⟩
    rw [levelIndex_eq _ (by decide), tableIndex_zero htop]
  · intro slot hlt other hlt' mapping mapping' hslot hother hne huser huser' hsame
    have hadm := hspace.admissible _ (AddressSpace.mem_stored.mpr ⟨slot, hlt, hslot⟩)
    have hadm' := hspace.admissible _ (AddressSpace.mem_stored.mpr ⟨other, hlt', hother⟩)
    exact hne (hspace.unique slot other hlt hlt' _ _ hslot hother
      (eq_of_leafIndices_eq (hadm.belowTop huser) hadm.alignedVirtual
        (hadm'.belowTop huser') hadm'.alignedVirtual hsame))

/-! ## The word in that place -/

/-- The output address and the permissions that a descriptor stands for. -/
def decode (descriptor : BitVec 64) : BitVec 64 × PagePermissions :=
  (addressField descriptor 12,
    { writable := !descriptor.getLsbD 7
      executable := !(descriptor.getLsbD 53 && descriptor.getLsbD 54)
      user := descriptor.getLsbD 6
      device := !(descriptor.getLsbD 2 || descriptor.getLsbD 3 || descriptor.getLsbD 4) })

/-- What the address field can hold of an address. -/
def truncated (physicalAddress : BitVec 64) : BitVec 64 :=
  BitVec.ofNat 64 (physicalAddress.toNat % 2 ^ 48)

section

variable {physicalAddress : BitVec 64} {permissions : PagePermissions}

theorem toNat_truncated (physicalAddress : BitVec 64) :
    (truncated physicalAddress).toNat = physicalAddress.toNat % 2 ^ 48 := by
  rw [truncated, BitVec.toNat_ofNat]
  omega

theorem truncated_eq_iff : truncated physicalAddress = physicalAddress ↔
    physicalAddress.toNat < 2 ^ 48 := by
  rw [← BitVec.toNat_inj, toNat_truncated]
  omega

theorem pageAddress_truncated (haligned : physicalAddress % PAGE_SIZE = 0) :
    PageAddress (truncated physicalAddress) := by
  rw [mod_PAGE_SIZE] at haligned
  constructor
  · rw [toNat_truncated]
    omega
  · rw [toNat_truncated]
    exact Nat.mod_lt _ (by decide)

/-- The mask of `page_descriptor` cuts an aligned address down to the field. -/
theorem and_OUTPUT_ADDRESS_MASK (haligned : physicalAddress % PAGE_SIZE = 0) :
    physicalAddress &&& OUTPUT_ADDRESS_MASK = truncated physicalAddress := by
  have hhigh : ∀ i < 64, OUTPUT_ADDRESS_MASK.getLsbD i = true → i < 48 := by decide
  rw [← (pageAddress_truncated haligned).and_mask]
  apply BitVec.eq_of_getLsbD_eq
  intro i hi
  rw [BitVec.getLsbD_and, BitVec.getLsbD_and]
  show (physicalAddress.getLsbD i && OUTPUT_ADDRESS_MASK.getLsbD i) =
    ((truncated physicalAddress).getLsbD i && OUTPUT_ADDRESS_MASK.getLsbD i)
  cases hmask : OUTPUT_ADDRESS_MASK.getLsbD i with
  | false => rw [Bool.and_false, Bool.and_false]
  | true =>
      rw [Bool.and_true, Bool.and_true, BitVec.getLsbD, BitVec.getLsbD, toNat_truncated,
        Nat.testBit_mod_two_pow, decide_eq_true (hhigh i hi hmask), Bool.true_and]

/-- What an accepted call has passed, and what it returns. -/
theorem pageDescriptor_eq_ok {descriptor : BitVec 64} :
    pageDescriptor physicalAddress permissions = .ok descriptor ↔
      physicalAddress % PAGE_SIZE = 0 ∧
      ¬(permissions.writable = true ∧ permissions.executable = true) ∧
      descriptor = truncated physicalAddress ||| attributes permissions := by
  constructor
  · intro h
    by_cases haligned : physicalAddress % PAGE_SIZE = 0
    · by_cases hexclusive : permissions.writable = true ∧ permissions.executable = true
      · rw [pageDescriptor, if_neg (not_not.mpr haligned), if_pos hexclusive] at h
        cases h
      · rw [pageDescriptor_eq haligned hexclusive, Except.ok.injEq,
          and_OUTPUT_ADDRESS_MASK haligned] at h
        exact ⟨haligned, hexclusive, h.symm⟩
    · rw [pageDescriptor, if_pos haligned] at h
      cases h
  · rintro ⟨haligned, hexclusive, rfl⟩
    rw [pageDescriptor_eq haligned hexclusive, and_OUTPUT_ADDRESS_MASK haligned]

/-- Decoding gives the permissions back, and of the address what the field holds. -/
theorem decode_descriptor (haligned : physicalAddress % PAGE_SIZE = 0)
    (hexclusive : ¬(permissions.writable = true ∧ permissions.executable = true)) :
    decode (truncated physicalAddress ||| attributes permissions) =
      (truncated physicalAddress, permissions) := by
  have hpage := pageAddress_truncated haligned
  have hattributes : Attributes (attributes permissions) := by
    obtain ⟨writable, executable, user, device⟩ := permissions
    revert writable executable user device
    decide
  refine Prod.ext ?_ ?_
  · exact hpage.addressField_entry hattributes le_rfl (Nat.dvd_of_mod_eq_zero hpage.aligned)
  · simp only [decode]
    repeat rw [hpage.getLsbD_entry _ (by decide)]
    obtain ⟨writable, executable, user, device⟩ := permissions
    revert hexclusive
    revert writable executable user device
    decide

/-- Which calls return the same descriptor. -/
theorem collides_iff (haligned : physicalAddress % PAGE_SIZE = 0)
    (hexclusive : ¬(permissions.writable = true ∧ permissions.executable = true))
    (other : BitVec 64) (permissions' : PagePermissions) :
    pageDescriptor other permissions' =
        .ok (truncated physicalAddress ||| attributes permissions) ↔
      permissions' = permissions ∧ other.toNat % 2 ^ 48 = physicalAddress.toNat % 2 ^ 48 := by
  constructor
  · intro hother
    obtain ⟨haligned', hexclusive', heq⟩ := pageDescriptor_eq_ok.mp hother
    have hdecode := decode_descriptor haligned' hexclusive'
    rw [← heq, decode_descriptor haligned hexclusive, Prod.mk.injEq, ← BitVec.toNat_inj,
      toNat_truncated, toNat_truncated] at hdecode
    exact ⟨hdecode.2.symm, hdecode.1.symm⟩
  · rintro ⟨rfl, hsame⟩
    have htruncated : truncated other = truncated physicalAddress := by
      rw [truncated, hsame, truncated]
    refine pageDescriptor_eq_ok.mpr ⟨?_, hexclusive, by rw [htruncated]⟩
    rw [mod_PAGE_SIZE] at haligned ⊢
    omega

end

/-- **A descriptor is faithful exactly below 2^48.**  Decoding the descriptor of an accepted
call gives the physical address and the permissions back if and only if the address is
below 2^48.  Two accepted calls with addresses below 2^48 return the same descriptor only
if they were given the same address and permissions; in general they do exactly if the
permissions agree and the addresses agree modulo 2^48. -/
theorem page_descriptor_faithful_iff {physicalAddress descriptor : BitVec 64}
    {permissions : PagePermissions}
    (h : pageDescriptor physicalAddress permissions = .ok descriptor) :
    (decode descriptor = (physicalAddress, permissions) ↔ physicalAddress.toNat < 2 ^ 48) ∧
    (∀ other permissions', pageDescriptor other permissions' = .ok descriptor →
      physicalAddress.toNat < 2 ^ 48 → other.toNat < 2 ^ 48 →
        other = physicalAddress ∧ permissions' = permissions) ∧
    ∀ other permissions', pageDescriptor other permissions' = .ok descriptor ↔
      permissions' = permissions ∧ other.toNat % 2 ^ 48 = physicalAddress.toNat % 2 ^ 48 := by
  obtain ⟨haligned, hexclusive, rfl⟩ := pageDescriptor_eq_ok.mp h
  refine ⟨?_, ?_, collides_iff haligned hexclusive⟩
  · rw [decode_descriptor haligned hexclusive, Prod.mk.injEq, truncated_eq_iff]
    exact and_iff_left rfl
  · intro other permissions' hother hlt hlt'
    obtain ⟨hpermissions, hsame⟩ :=
      (collides_iff haligned hexclusive other permissions').mp hother
    rw [Nat.mod_eq_of_lt hlt, Nat.mod_eq_of_lt hlt'] at hsame
    exact ⟨BitVec.eq_of_toNat_eq hsame, hpermissions⟩

/-- The highest page that a descriptor can hold. -/
theorem page_descriptor_faithful_iff_top :
    ∃ descriptor, pageDescriptor 0x0000fffffffff000 .USER_CODE = .ok descriptor ∧
      decode descriptor = (0x0000fffffffff000, .USER_CODE) :=
  ⟨_, rfl, (page_descriptor_faithful_iff rfl).1.mpr (by decide)⟩

/-- **Two addresses, one descriptor.**  The page at 2^48 is accepted and gets the descriptor
of the page at 0. -/
theorem page_descriptor_collision :
    ∃ descriptor, pageDescriptor 0x0001000000000000 .USER_DATA = .ok descriptor ∧
      pageDescriptor 0 .USER_DATA = .ok descriptor ∧ decode descriptor = (0, .USER_DATA) :=
  ⟨_, rfl, rfl, rfl⟩

end Aegis.Paging
