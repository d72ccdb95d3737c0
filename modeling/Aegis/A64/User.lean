import Mathlib
import Aegis.A64.Listing
import Aegis.A64.Translation

/-!
# Code at EL0

User code sees memory through the translation tables: a load, a store and the fetch of an
instruction each need a leaf that allows it, and go to the address that the leaf maps to.

Whatever user code does between two exceptions, it leaves some registers and has made some
stores.  `UserRun` is that, without a program; `Stores` says what such stores do to memory,
where a store that is not allowed does nothing.  For the instructions of a given program,
`UserInstr.step` says which `UserRun` one of them is, and with what exception it ends, if any.
-/

namespace A64

/-! ## Access -/

section Access

variable (memory : Word → Word) (ttbr va : Word)

/-- Translate an address of 39 bits, if its leaf allows the access. -/
def translateIf (allows : Word → Bool) : Option Word :=
  if va.toNat < 2 ^ 39 then
    (walk memory ttbr va).bind fun leaf => if allows leaf.entry then some leaf.output else none
  else none

/-- AP[1]. -/
def el0Load : Option Word := translateIf memory ttbr va fun entry => entry.getLsbD 6

/-- AP[1], and not AP[2]. -/
def el0Store : Option Word :=
  translateIf memory ttbr va fun entry => entry.getLsbD 6 && !entry.getLsbD 7

/-- Not UXN. -/
def el0Fetch : Option Word := translateIf memory ttbr va fun entry => !entry.getLsbD 54

end Access

/-- The memory after stores of whole words, one after the other. -/
def storeAll (ttbr : Word) (memory : Word → Word) (stores : List (Word × Word)) : Word → Word :=
  stores.foldl (fun memory store =>
    match el0Store memory ttbr store.1 with
    | some address => if Aligned address then Function.update memory address store.2 else memory
    | none => memory) memory

/-- What user code leaves behind. -/
structure UserRun where
  x : Reg → Word
  sp : Word
  pc : Word
  flags : Flags
  stores : List (Word × Word)

/-! ## Instructions -/

inductive UserInstr (L : Type*)
  /-- `mov xd, #value`, and `mov wd, #value` -/
  | mov (d : Reg) (value : Word)
  /-- `ldr xt, =value` -/
  | ldrLiteral (t : Reg) (value : Word)
  | add (d n : Reg) (value : Word)
  | sub (d n : Reg) (value : Word)
  /-- `ldr xt, [xn]` -/
  | ldr (t n : Reg)
  /-- `str xt, [xn]` -/
  | str (t : Source) (n : Reg)
  /-- `str wt, [xn]` -/
  | strW (t n : Reg)
  | cbnz (t : Reg) (l : L)
  | b (l : L)
  | svc (imm : BitVec 16)
  | wfe

abbrev UserCode (L : Type*) := Listing (UserInstr L) L

/-! ## Running them -/

/-- Syndromes: the exception class in bits 31 to 26, bit 25 for a 32-bit instruction. -/
def syndrome (ec : BitVec 6) (iss : BitVec 25) : Word := 0#32 ++ ec ++ 1#1 ++ iss

def EC_UNKNOWN : BitVec 6 := 0x00

def EC_SVC : BitVec 6 := 0x15

def EC_INSTRUCTION_ABORT : BitVec 6 := 0x20

def EC_DATA_ABORT : BitVec 6 := 0x24

/-- One step of user code: what it leaves, and the syndrome of the exception that it ends
with.  The program counter is then the address to return to. -/
structure UserStep where
  run : UserRun
  trap : Option Word

/-- The state as user code sees it. -/
structure UserView where
  x : Reg → Word
  sp : Word
  pc : Word
  flags : Flags
  memory : Word → Word
  ttbr : Word

namespace UserView

variable (u : UserView)

/-- Nothing has changed. -/
def unchanged : UserRun where
  x := u.x
  sp := u.sp
  pc := u.pc
  flags := u.flags
  stores := []

/-- Write a register and go on. -/
def setReg (d : Reg) (value : Word) : UserStep where
  run := { u.unchanged with x := Function.update u.x d value, pc := u.pc + 4 }
  trap := none

def jump (pc : Word) : UserStep where
  run := { u.unchanged with pc }
  trap := none

/-- An exception at this instruction. -/
def abort (ec : BitVec 6) : UserStep where
  run := u.unchanged
  trap := some (syndrome ec 0)

def source : Source → Word
  | .x t => u.x t
  | .xzr => 0

/-- A store of a whole word. -/
def store (address value : Word) : UserStep :=
  match el0Store u.memory u.ttbr address with
  | some pa =>
      if Aligned pa then
        ⟨{ u.unchanged with pc := u.pc + 4, stores := [(address, value)] }, none⟩
      else u.abort EC_DATA_ABORT
  | none => u.abort EC_DATA_ABORT

/-- A store of half a word leaves the other half as it is. -/
def storeHalf (address : Word) (value : BitVec 32) : UserStep :=
  match el0Store u.memory u.ttbr address with
  | some pa =>
      if pa.toNat % 8 = 0 then
        u.store address ((u.memory pa).extractLsb' 32 32 ++ value)
      else if pa.toNat % 8 = 4 then
        u.store (address - 4) (value ++ (u.memory (pa - 4)).extractLsb' 0 32)
      else u.abort EC_DATA_ABORT
  | none => u.abort EC_DATA_ABORT

end UserView

/-- One instruction; `target` is where labels are. -/
def UserInstr.step {L : Type*} (target : L → Word) (u : UserView) : UserInstr L → UserStep
  | .mov d value => u.setReg d value
  | .ldrLiteral t value => u.setReg t value
  | .add d n value => u.setReg d (u.x n + value)
  | .sub d n value => u.setReg d (u.x n - value)
  | .ldr t n =>
      match el0Load u.memory u.ttbr (u.x n) with
      | some pa => if Aligned pa then u.setReg t (u.memory pa) else u.abort EC_DATA_ABORT
      | none => u.abort EC_DATA_ABORT
  | .str t n => u.store (u.x n) (u.source t)
  | .strW t n => u.storeHalf (u.x n) ((u.x t).setWidth 32)
  | .cbnz t l => u.jump (if u.x t ≠ 0 then target l else u.pc + 4)
  | .b l => u.jump (target l)
  | .svc imm =>
      -- the return address is that of the next instruction
      ⟨{ u.unchanged with pc := u.pc + 4 }, some (syndrome EC_SVC (imm.setWidth 25))⟩
  | .wfe => u.jump (u.pc + 4)

/-- The next instruction of a program. -/
def UserCode.step {L : Type*} [DecidableEq L] (code : UserCode L) (base : Word) (u : UserView) :
    UserStep :=
  match el0Fetch u.memory u.ttbr u.pc with
  | none => u.abort EC_INSTRUCTION_ABORT
  | some pc =>
      match code.fetch base pc with
      | none => u.abort EC_UNKNOWN
      | some i => i.step (fun l => Listing.addressOf base (code.indexOf l)) u

end A64
