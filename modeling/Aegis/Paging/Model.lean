import Mathlib
import Aegis.Foundation.Call
import Aegis.Foundation.Machine
import Aegis.Memory.Model

/-!
# Address spaces and page descriptors

A translation of `paging.rs`.  `AddressSpace` is the policy: a table of mappings with the
checks a new one must pass.  `pageDescriptor` encodes a mapping as the word that the
hardware reads in a level-3 table, with checks of its own; neither calls the other.
-/

namespace Aegis.Paging

open Foundation Memory

/-- A table fills one page. -/
def ENTRIES_PER_TABLE : ℕ := 512

/-- User pages are below this address: 39 bits are translated. -/
def USER_TOP : BitVec 64 := 0x0000008000000000

/-- Bit 0 of an entry: without it the address is not mapped. -/
def DESCRIPTOR_VALID : BitVec 64 := 1

/-- Bit 1, which at level 3 every valid entry has. -/
def DESCRIPTOR_PAGE : BitVec 64 := 1 <<< 1

/-- AF, without which the first access faults. -/
def ACCESS_FLAG : BitVec 64 := 1 <<< 10

def SH_INNER : BitVec 64 := 0b11 <<< 8

/-- AP[2]. -/
def AP_READ_ONLY : BitVec 64 := 1 <<< 7

/-- AP[1], which gives EL0 the access that EL1 has. -/
def AP_USER : BitVec 64 := 1 <<< 6

/-- Attributes 1 of `MAIR_EL1`; attributes 0 are those of devices. -/
def ATTR_NORMAL : BitVec 64 := 1 <<< 2

/-- Not executable at EL1. -/
def PXN : BitVec 64 := 1 <<< 53

/-- Not executable at EL0. -/
def UXN : BitVec 64 := 1 <<< 54

/-- Bits 47 to 12, where an entry has its output address. -/
def OUTPUT_ADDRESS_MASK : BitVec 64 := 0x0000fffffffff000

/-- What a page may be used for, and whether EL0 may use it. -/
structure PagePermissions where
  writable : Bool
  executable : Bool
  user : Bool
  device : Bool
  deriving DecidableEq, Repr

namespace PagePermissions

def USER_DATA : PagePermissions where
  writable := true
  executable := false
  user := true
  device := false

def USER_CODE : PagePermissions where
  writable := false
  executable := true
  user := true
  device := false

def KERNEL_DATA : PagePermissions where
  writable := true
  executable := false
  user := false
  device := false

end PagePermissions

/-- Why a mapping is refused, in the order in which `map` finds out. -/
inductive MapError
  | unaligned
  | invalidAddress
  | writeExecute
  | alreadyMapped
  | mapFull
  deriving DecidableEq, Repr

/-- A page of an address space, and the frame that it is mapped to. -/
structure Mapping where
  virtualAddress : BitVec 64
  physicalAddress : BitVec 64
  permissions : PagePermissions
  deriving DecidableEq, Repr

/-! ## The policy -/

/-- A fixed number of slots for mappings, in no particular order. -/
structure AddressSpace (MAPPINGS : ℕ) where
  mappings : Vector (Option Mapping) MAPPINGS
  deriving DecidableEq

namespace AddressSpace

variable {MAPPINGS : ℕ}

def new : AddressSpace MAPPINGS where
  mappings := Vector.replicate MAPPINGS none

/-- `self.mappings.iter().flatten()` -/
def stored (space : AddressSpace MAPPINGS) : List Mapping :=
  space.mappings.toList.reduceOption

/-- The four checks of a new mapping, and then the first slot that is free.  Nothing but the
virtual address is compared with the mappings that are there: a frame may be mapped twice. -/
def map (mapping : Mapping) : Call (AddressSpace MAPPINGS) MapError Unit := fun space =>
  if mapping.virtualAddress % PAGE_SIZE ≠ 0 ∨ mapping.physicalAddress % PAGE_SIZE ≠ 0 then
    some (.error .unaligned, space)
  else if mapping.virtualAddress ≥ USER_TOP ∧ mapping.permissions.user then
    some (.error .invalidAddress, space)
  else if mapping.permissions.writable ∧ mapping.permissions.executable then
    some (.error .writeExecute, space)
  else if space.stored.any fun entry => entry.virtualAddress = mapping.virtualAddress then
    some (.error .alreadyMapped, space)
  else
    match (List.finRange MAPPINGS).find? fun slot =>
        (getElem space.mappings slot slot.isLt).isNone with
    | none => some (.error .mapFull, space)
    | some slot => some (.ok (),
        { mappings := space.mappings.set slot (some mapping) slot.isLt })

/-- The mapping of a page.  `map` makes sure that there is at most one. -/
def mappingAt (space : AddressSpace MAPPINGS) (virtualAddress : BitVec 64) : Option Mapping :=
  space.stored.find? fun entry => entry.virtualAddress = virtualAddress

end AddressSpace

/-- An address space, filled by calls of `map` from `new()`. -/
def spaceMachine (MAPPINGS : ℕ) :
    Machine (AddressSpace MAPPINGS) Mapping (Except MapError Unit) where
  init := AddressSpace.new
  step space mapping := AddressSpace.map mapping space

/-! ## The encoding -/

/-- The nine bits of an address that index the table at a level, of which there are four. -/
def levelIndex (virtualAddress : BitVec 64) (level : ℕ) : Except MapError ℕ :=
  match level with
  | 0 => .ok (virtualAddress >>> 39 &&& 0x1ff).toNat
  | 1 => .ok (virtualAddress >>> 30 &&& 0x1ff).toNat
  | 2 => .ok (virtualAddress >>> 21 &&& 0x1ff).toNat
  | 3 => .ok (virtualAddress >>> 12 &&& 0x1ff).toNat
  | _ => .error .invalidAddress

/-- The level-3 entry for a frame.  An address of more than 48 bits is cut off, not refused.  A
page is executable at one exception level at most. -/
def pageDescriptor (physicalAddress : BitVec 64) (permissions : PagePermissions) :
    Except MapError (BitVec 64) :=
  if physicalAddress % PAGE_SIZE ≠ 0 then .error .unaligned
  else if permissions.writable ∧ permissions.executable then .error .writeExecute
  else
    let descriptor :=
      physicalAddress &&& OUTPUT_ADDRESS_MASK ||| DESCRIPTOR_VALID ||| DESCRIPTOR_PAGE |||
        ACCESS_FLAG
    let descriptor :=
      if !permissions.device then descriptor ||| (ATTR_NORMAL ||| SH_INNER) else descriptor
    let descriptor := if !permissions.writable then descriptor ||| AP_READ_ONLY else descriptor
    let descriptor := if permissions.user then descriptor ||| AP_USER else descriptor
    .ok (if !permissions.executable then descriptor ||| (PXN ||| UXN)
      else if permissions.user then descriptor ||| PXN
      else descriptor ||| UXN)

end Aegis.Paging
