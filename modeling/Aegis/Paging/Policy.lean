import Mathlib
import Aegis.Paging.Model

/-!
# The policy and the encoding agree

`map` and `pageDescriptor` check mappings independently of each other.  Everything an
address space stores is `Admissible`, and everything admissible has a descriptor, whose
attribute bits say what the mapping's permissions say (`Encodes`).  The physical address
cannot disturb them: the mask keeps it away from every attribute bit.
-/

namespace Aegis.Paging

open Foundation Memory

/-! ## Descriptors -/

/-- The bits of a descriptor that do not come from the physical address. -/
def attributes (permissions : PagePermissions) : BitVec 64 :=
  DESCRIPTOR_VALID ||| DESCRIPTOR_PAGE ||| ACCESS_FLAG |||
    (if permissions.device then 0 else ATTR_NORMAL ||| SH_INNER) |||
    (if permissions.writable then 0 else AP_READ_ONLY) |||
    (if permissions.user then AP_USER else 0) |||
    (if !permissions.executable then PXN ||| UXN else if permissions.user then PXN else UXN)

theorem pageDescriptor_eq {physicalAddress : BitVec 64} {permissions : PagePermissions}
    (haligned : physicalAddress % PAGE_SIZE = 0)
    (hexclusive : ¬(permissions.writable = true ∧ permissions.executable = true)) :
    pageDescriptor physicalAddress permissions =
      .ok (physicalAddress &&& OUTPUT_ADDRESS_MASK ||| attributes permissions) := by
  rw [pageDescriptor, if_neg (not_not.mpr haligned), if_neg hexclusive]
  obtain ⟨writable, executable, user, device⟩ := permissions
  cases writable <;> cases executable <;> cases user <;> cases device <;>
    simp [attributes, BitVec.or_assoc]

/-- An attribute bit of a descriptor does not depend on the physical address. -/
theorem getLsbD_descriptor (physicalAddress : BitVec 64) (permissions : PagePermissions) {i : ℕ}
    (hi : OUTPUT_ADDRESS_MASK.getLsbD i = false) :
    (physicalAddress &&& OUTPUT_ADDRESS_MASK ||| attributes permissions).getLsbD i =
      (attributes permissions).getLsbD i := by
  rw [BitVec.getLsbD_or, BitVec.getLsbD_and, hi, Bool.and_false, Bool.false_or]

/-- What a descriptor says about the page it maps. -/
structure Encodes (permissions : PagePermissions) (descriptor : BitVec 64) : Prop where
  valid : descriptor.getLsbD 0 = true
  page : descriptor.getLsbD 1 = true
  user : descriptor.getLsbD 6 = true ↔ permissions.user = true
  writable : descriptor.getLsbD 7 = false ↔ permissions.writable = true
  executeNever : permissions.writable = true ∨ permissions.executable = false →
    descriptor.getLsbD 53 = true ∧ descriptor.getLsbD 54 = true
  userCode : permissions.user = true ∧ permissions.executable = true →
    descriptor.getLsbD 53 = true ∧ descriptor.getLsbD 54 = false
  kernelCode : permissions.user = false ∧ permissions.executable = true →
    descriptor.getLsbD 54 = true ∧ descriptor.getLsbD 53 = false

theorem encodes_descriptor (physicalAddress : BitVec 64) {permissions : PagePermissions}
    (hexclusive : ¬(permissions.writable = true ∧ permissions.executable = true)) :
    Encodes permissions (physicalAddress &&& OUTPUT_ADDRESS_MASK ||| attributes permissions) := by
  constructor
  all_goals
    repeat rw [getLsbD_descriptor _ _ (by decide)]
    obtain ⟨writable, executable, user, device⟩ := permissions
    revert hexclusive
    revert writable executable user device
    decide

/-! ## Address spaces -/

/-- The checks of `map` that concern the mapping alone. -/
structure Admissible (mapping : Mapping) : Prop where
  alignedVirtual : mapping.virtualAddress % PAGE_SIZE = 0
  alignedPhysical : mapping.physicalAddress % PAGE_SIZE = 0
  belowTop : mapping.permissions.user = true → mapping.virtualAddress < USER_TOP
  exclusive : ¬(mapping.permissions.writable = true ∧ mapping.permissions.executable = true)

section Space

variable {MAPPINGS : ℕ} {space space' : AddressSpace MAPPINGS} {mapping : Mapping}
  {r : Except MapError Unit}

theorem AddressSpace.mem_stored :
    mapping ∈ space.stored ↔ ∃ (slot : ℕ) (_ : slot < MAPPINGS),
      space.mappings[slot] = some mapping := by
  rw [stored, List.reduceOption_mem_iff, Vector.mem_toList_iff, Vector.mem_iff_getElem]

/-- Every outcome of `map`. -/
inductive MapTransition (space : AddressSpace MAPPINGS) (mapping : Mapping) :
    Except MapError Unit → AddressSpace MAPPINGS → Prop
  | inadmissible {e : MapError} (h : ¬Admissible mapping) :
      MapTransition space mapping (.error e) space
  | alreadyMapped {entry : Mapping} (hmapping : Admissible mapping) (hentry : entry ∈ space.stored)
      (hsame : entry.virtualAddress = mapping.virtualAddress) :
      MapTransition space mapping (.error .alreadyMapped) space
  | full (hmapping : Admissible mapping)
      (hunmapped : ∀ entry ∈ space.stored, entry.virtualAddress ≠ mapping.virtualAddress)
      (hfull : ∀ (slot : ℕ) (_ : slot < MAPPINGS), space.mappings[slot] ≠ none) :
      MapTransition space mapping (.error .mapFull) space
  | stored {slot : ℕ} (hlt : slot < MAPPINGS) (hmapping : Admissible mapping)
      (hunmapped : ∀ entry ∈ space.stored, entry.virtualAddress ≠ mapping.virtualAddress)
      (hslot : space.mappings[slot] = none) :
      MapTransition space mapping (.ok ()) { mappings := space.mappings.set slot (some mapping) }

theorem map_transition (space : AddressSpace MAPPINGS) (mapping : Mapping) :
    ∃ r space', AddressSpace.map mapping space = some (r, space') ∧
      MapTransition space mapping r space' := by
  rw [AddressSpace.map]
  split
  · next h =>
      exact ⟨_, space, rfl, .inadmissible fun hadm =>
        h.elim (fun h => h hadm.alignedVirtual) fun h => h hadm.alignedPhysical⟩
  · next haligned =>
      rw [not_or, not_not, not_not] at haligned
      split
      · next h =>
          exact ⟨_, space, rfl, .inadmissible fun hadm =>
            absurd (hadm.belowTop h.2) (BitVec.not_lt.mpr h.1)⟩
      · next htop =>
          split
          · next h => exact ⟨_, space, rfl, .inadmissible fun hadm => hadm.exclusive h⟩
          · next hexclusive =>
              have hadm : Admissible mapping :=
                ⟨haligned.1, haligned.2,
                  fun huser => BitVec.not_le.mp fun hge => htop ⟨hge, huser⟩, hexclusive⟩
              split
              · next h =>
                  obtain ⟨entry, hentry, hsame⟩ := List.any_eq_true.mp h
                  exact ⟨_, space, rfl, .alreadyMapped hadm hentry (by simpa using hsame)⟩
              · next h =>
                  have hunmapped : ∀ entry ∈ space.stored,
                      entry.virtualAddress ≠ mapping.virtualAddress := by
                    simpa using h
                  cases hfind : (List.finRange MAPPINGS).find?
                      fun slot => (getElem space.mappings slot slot.isLt).isNone with
                  | none =>
                      refine ⟨_, space, rfl, .full hadm hunmapped fun slot hlt hslot => ?_⟩
                      rw [List.find?_eq_none] at hfind
                      refine hfind ⟨slot, hlt⟩ (List.mem_finRange _) ?_
                      simp [hslot]
                  | some slot =>
                      refine ⟨_, _, rfl, .stored slot.isLt hadm hunmapped ?_⟩
                      have hnone := List.find?_some hfind
                      simpa using hnone

/-- Everything stored is admissible, and nothing is mapped twice. -/
structure WellFormed (space : AddressSpace MAPPINGS) : Prop where
  admissible : ∀ entry ∈ space.stored, Admissible entry
  unique : ∀ (i j : ℕ) (_ : i < MAPPINGS) (_ : j < MAPPINGS) entry other,
    space.mappings[i] = some entry → space.mappings[j] = some other →
      entry.virtualAddress = other.virtualAddress → i = j

theorem wellFormed_new : WellFormed (AddressSpace.new : AddressSpace MAPPINGS) := by
  have hnone : ∀ (i : ℕ) (_ : i < MAPPINGS),
      (AddressSpace.new : AddressSpace MAPPINGS).mappings[i] = none :=
    fun i _ => by simp [AddressSpace.new]
  constructor
  · intro entry hentry
    obtain ⟨slot, hlt, hslot⟩ := AddressSpace.mem_stored.mp hentry
    rw [hnone slot hlt] at hslot
    cases hslot
  · intro i j hi hj entry other hentry
    rw [hnone i hi] at hentry
    cases hentry

theorem MapTransition.wellFormed (h : MapTransition space mapping r space')
    (hspace : WellFormed space) : WellFormed space' := by
  cases h with
  | @stored slot hlt hmapping hunmapped hslot =>
      -- a stored mapping is an old one, in its old slot, or the new one
      have hcases : ∀ (i : ℕ) (_ : i < MAPPINGS) entry,
          (space.mappings.set slot (some mapping))[i] = some entry →
          i = slot ∧ entry = mapping ∨ space.mappings[i] = some entry := by
        intro i hi entry hentry
        rcases eq_or_ne i slot with rfl | hne
        · rw [Vector.getElem_set_self, Option.some.injEq] at hentry
          exact .inl ⟨rfl, hentry.symm⟩
        · rw [Vector.getElem_set_ne _ _ hne.symm] at hentry
          exact .inr hentry
      constructor
      · intro entry hentry
        obtain ⟨i, hi, hentry⟩ := AddressSpace.mem_stored.mp hentry
        rcases hcases i hi entry hentry with ⟨-, rfl⟩ | hold
        · exact hmapping
        · exact hspace.admissible entry (AddressSpace.mem_stored.mpr ⟨i, hi, hold⟩)
      · intro i j hi hj entry other hentry hother hsame
        rcases hcases i hi entry hentry with ⟨rfl, rfl⟩ | hold
        · rcases hcases j hj other hother with ⟨rfl, -⟩ | hold'
          · rfl
          · exact absurd hsame.symm (hunmapped other (AddressSpace.mem_stored.mpr ⟨j, hj, hold'⟩))
        · rcases hcases j hj other hother with ⟨rfl, rfl⟩ | hold'
          · exact absurd hsame (hunmapped entry (AddressSpace.mem_stored.mpr ⟨i, hi, hold⟩))
          · exact hspace.unique i j hi hj entry other hold hold' hsame
  | _ => exact hspace

theorem WellFormed.exec (ops : List Mapping) :
    ∃ es space, (spaceMachine MAPPINGS).exec AddressSpace.new ops = some (es, space) ∧
      WellFormed space := by
  refine Machine.exec_of_invariant (fun _ => WellFormed) wellFormed_new ?_ ops
  intro es space mapping hspace
  obtain ⟨r, space', hstep, htrans⟩ := map_transition space mapping
  exact ⟨r, space', hstep, htrans.wellFormed hspace⟩

end Space

/-- **Policy and encoding agree** on what is stored after any sequence of calls: every
stored mapping is aligned, not writable and executable, below the top of user space if it
is a user's, and alone at its virtual address; and it has a descriptor that says so. -/
theorem stored_mappings_encoded (MAPPINGS : ℕ) (ops : List Mapping) :
    ∃ es space, (spaceMachine MAPPINGS).exec AddressSpace.new ops = some (es, space) ∧
      ∀ (slot : ℕ) (_ : slot < MAPPINGS) mapping, space.mappings[slot] = some mapping →
        Admissible mapping ∧
        (∀ (other : ℕ) (_ : other < MAPPINGS) mapping', space.mappings[other] = some mapping' →
          mapping'.virtualAddress = mapping.virtualAddress → other = slot) ∧
        ∃ descriptor,
          pageDescriptor mapping.physicalAddress mapping.permissions = .ok descriptor ∧
          Encodes mapping.permissions descriptor := by
  obtain ⟨es, space, hexec, hspace⟩ := WellFormed.exec ops
  refine ⟨es, space, hexec, fun slot hlt mapping hslot => ?_⟩
  have hadm := hspace.admissible mapping (AddressSpace.mem_stored.mpr ⟨slot, hlt, hslot⟩)
  refine ⟨hadm, ?_, _, pageDescriptor_eq hadm.alignedPhysical hadm.exclusive,
    encodes_descriptor _ hadm.exclusive⟩
  intro other hlt' mapping' hother hsame
  exact hspace.unique other slot hlt' hlt mapping' mapping hother hslot hsame

end Aegis.Paging
