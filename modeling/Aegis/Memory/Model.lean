import Mathlib
import Aegis.Foundation.Call
import Aegis.Foundation.Machine

/-!
# The frame allocator

A translation of `memory.rs`: a region of 4 KiB frames, one bit for each frame that is
allocated or reserved, and a hint where the search for a free frame begins.

Addresses and bitmap words are 64-bit words with wrapping arithmetic, as in the release
build.  Frame numbers and page counts (`usize`) are natural numbers; the two places where
their width shows, the number of bits `WORDS * 64` and the `checked_add` of `reserve`, say
so.  The bitmap is indexed without a check of its own, and the model panics where the
index is out of bounds.
-/

namespace Aegis.Memory

open Foundation

def PAGE_SIZE : BitVec 64 := 4096

theorem toNat_PAGE_SIZE : PAGE_SIZE.toNat = 4096 := rfl

/-- `address % PAGE_SIZE == 0`. -/
theorem mod_PAGE_SIZE (address : BitVec 64) :
    address % PAGE_SIZE = 0 ↔ address.toNat % 4096 = 0 := by
  rw [← BitVec.toNat_inj, BitVec.toNat_umod, toNat_PAGE_SIZE]
  rfl

structure Frame where
  physicalAddress : BitVec 64
  deriving DecidableEq, Repr

inductive FrameError
  | emptyRegion
  | unaligned
  | outOfRange
  | outOfMemory
  | doubleFree
  deriving DecidableEq, Repr

/-- A set bit means allocated or reserved. -/
structure FrameAllocator (WORDS : ℕ) where
  base : BitVec 64
  frameCount : ℕ
  used : Vector (BitVec 64) WORDS
  nextHint : ℕ
  deriving DecidableEq

namespace FrameAllocator

variable {WORDS : ℕ}

/-- The bit of a frame. -/
def isUsed (allocator : FrameAllocator WORDS) (index : ℕ) : Option Bool :=
  allocator.used[index / 64]?.map fun word => word &&& 1#64 <<< (index % 64) ≠ 0#64

/-- Set or clear the bit of a frame. -/
def setUsed (allocator : FrameAllocator WORDS) (index : ℕ) (used : Bool) :
    Option (FrameAllocator WORDS) :=
  if h : index / 64 < WORDS then
    let mask := 1#64 <<< (index % 64)
    let word := allocator.used[index / 64]
    some { allocator with
      used := allocator.used.set (index / 64) (if used then word ||| mask else word &&& ~~~mask) }
  else none

/-- The loops of `new` and `reserve`: mark one frame after another. -/
def setAllUsed (allocator : FrameAllocator WORDS) (indices : List ℕ) :
    Option (FrameAllocator WORDS) :=
  indices.foldlM (fun allocator index => allocator.setUsed index true) allocator

/-- `WORDS * 64`, a multiplication of machine words. -/
def bitCount (WORDS : ℕ) : ℕ := WORDS * 64 % 2 ^ 64

/-- A region of whole frames, none of them in use, if there are bits enough. -/
def new (base bytes : BitVec 64) : Option (Except FrameError (FrameAllocator WORDS)) :=
  if base % PAGE_SIZE ≠ 0 ∨ bytes % PAGE_SIZE ≠ 0 then some (.error .unaligned)
  else
    let frameCount := (bytes / PAGE_SIZE).toNat
    if frameCount = 0 ∨ frameCount > bitCount WORDS then some (.error .emptyRegion)
    else
      let allocator : FrameAllocator WORDS :=
        { base, frameCount, used := Vector.replicate WORDS 0, nextHint := 0 }
      -- the bits beyond the last frame stay set for ever
      (allocator.setAllUsed (List.range' frameCount (bitCount WORDS - frameCount))).map .ok

/-- The first index from the hint on, around the circle of frames, that is not used. -/
def findUnused (allocator : FrameAllocator WORDS) : Option (Option ℕ) :=
  ((List.range allocator.frameCount).map fun offset =>
    (allocator.nextHint + offset) % allocator.frameCount).findM? fun index =>
      (allocator.isUsed index).map not

/-- Take the first free frame from the hint on; the hint moves behind it. -/
def allocate : Call (FrameAllocator WORDS) FrameError Frame := fun allocator =>
  match allocator.findUnused with
  | none => none
  | some none => some (.error .outOfMemory, allocator)
  | some (some index) =>
      (allocator.setUsed index true).map fun marked =>
        (.ok { physicalAddress := allocator.base + BitVec.ofNat 64 index * PAGE_SIZE },
          { marked with nextHint := (index + 1) % allocator.frameCount })

/-- The number of the frame at an address. -/
def indexOf (allocator : FrameAllocator WORDS) (address : BitVec 64) : Except FrameError ℕ :=
  if address % PAGE_SIZE ≠ 0 ∨ address < allocator.base then .error .outOfRange
  else
    let index := ((address - allocator.base) / PAGE_SIZE).toNat
    if index ≥ allocator.frameCount then .error .outOfRange else .ok index

/-- Mark frames in a row, whether or not they are marked already. -/
def reserve (start : BitVec 64) (pages : ℕ) : Call (FrameAllocator WORDS) FrameError Unit :=
  fun allocator =>
    if start % PAGE_SIZE ≠ 0 then some (.error .unaligned, allocator)
    else
      match allocator.indexOf start with
      | .error e => some (.error e, allocator)
      | .ok first =>
          -- `first.checked_add(pages)`
          if first + pages ≥ 2 ^ 64 then some (.error .outOfRange, allocator)
          else if first + pages > allocator.frameCount then some (.error .outOfRange, allocator)
          else (allocator.setAllUsed (List.range' first pages)).map fun marked => (.ok (), marked)

/-- Clear the bit of a frame that has it set, however it came to be set; the hint moves back to
the frame if that is before it. -/
def free (frame : Frame) : Call (FrameAllocator WORDS) FrameError Unit := fun allocator =>
  match allocator.indexOf frame.physicalAddress with
  | .error e => some (.error e, allocator)
  | .ok index =>
      match allocator.isUsed index with
      | none => none
      | some false => some (.error .doubleFree, allocator)
      | some true =>
          (allocator.setUsed index false).map fun cleared =>
            (.ok (), if index < cleared.nextHint then { cleared with nextHint := index }
              else cleared)

/-- How many frames are free. -/
def available (allocator : FrameAllocator WORDS) : Option ℕ :=
  ((List.range allocator.frameCount).mapM allocator.isUsed).map (List.count false)

end FrameAllocator

/-! ## The allocator as a machine -/

/-- The methods, with arbitrary arguments. -/
inductive FrameOp
  | allocate
  | reserve (start : BitVec 64) (pages : ℕ)
  | free (frame : Frame)
  | available
  deriving DecidableEq, Repr

/-- What they return. -/
inductive FrameResult
  | allocated (result : Except FrameError Frame)
  | done (result : Except FrameError Unit)
  | counted (frames : ℕ)
  deriving DecidableEq

/-- An allocator, driven by calls of its methods. -/
def frameMachine {WORDS : ℕ} (allocator : FrameAllocator WORDS) :
    Machine (FrameAllocator WORDS) FrameOp FrameResult where
  init := allocator
  step allocator op :=
    match op with
    | .allocate => (FrameAllocator.allocate allocator).map (Prod.map .allocated id)
    | .reserve start pages =>
        (FrameAllocator.reserve start pages allocator).map (Prod.map .done id)
    | .free frame => (FrameAllocator.free frame allocator).map (Prod.map .done id)
    | .available => allocator.available.map fun frames => (.counted frames, allocator)

abbrev FrameEvent (WORDS : ℕ) := Event (FrameAllocator WORDS) FrameOp FrameResult

end Aegis.Memory
