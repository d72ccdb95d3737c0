import Mathlib
import Aegis.A64.Machine

/-!
# Exceptions

Taking an exception to EL1 saves the return address in `ELR_EL1` and the processor state in
`SPSR_EL1`, masks interrupts, and continues at the vector for its kind and for where it came
from; `eret` restores both.  Of the processor state there are the condition flags, the
interrupt masks and the mode, which is the exception level and the choice of stack pointer.
-/

namespace A64

/-- Modes: the exception level, and whether it uses its own stack pointer. -/
abbrev Mode := BitVec 4

/-- User code. -/
def EL0t : Mode := 0b0000

/-- The kernel on the stack of user code. -/
def EL1t : Mode := 0b0100

/-- The kernel on its own stack, where exceptions are taken. -/
def EL1h : Mode := 0b0101

/-! ## The saved processor state -/

/-- The flags in bits 31 to 28, the masks in bits 9 to 6 and the mode in bits 3 to 0. -/
def spsr (flags : Flags) (daif : BitVec 4) (mode : Mode) : Word :=
  0#32 ++ BitVec.ofBool flags.negative ++ BitVec.ofBool flags.zero ++
    BitVec.ofBool flags.carry ++ BitVec.ofBool flags.overflow ++ 0#18 ++ daif ++ 0#2 ++ mode

def spsrFlags (saved : Word) : Flags where
  negative := saved.getLsbD 31
  zero := saved.getLsbD 30
  carry := saved.getLsbD 29
  overflow := saved.getLsbD 28

def spsrDaif (saved : Word) : BitVec 4 := saved.extractLsb' 6 4

def spsrMode (saved : Word) : Mode := saved.extractLsb' 0 4

section Spsr

variable (flags : Flags) (daif : BitVec 4) (mode : Mode)

/-- What is saved is restored. -/
theorem spsr_restored : spsrFlags (spsr flags daif mode) = flags ∧
    spsrDaif (spsr flags daif mode) = daif ∧ spsrMode (spsr flags daif mode) = mode := by
  obtain ⟨negative, zero, carry, overflow⟩ := flags
  revert negative zero carry overflow daif mode
  decide +kernel

@[simp] theorem spsrFlags_spsr : spsrFlags (spsr flags daif mode) = flags :=
  (spsr_restored flags daif mode).1

@[simp] theorem spsrDaif_spsr : spsrDaif (spsr flags daif mode) = daif :=
  (spsr_restored flags daif mode).2.1

@[simp] theorem spsrMode_spsr : spsrMode (spsr flags daif mode) = mode :=
  (spsr_restored flags daif mode).2.2

end Spsr

theorem spsrFlags_zero : spsrFlags 0 = .clear := by decide

/-! ## Entry and return -/

/-- The registers after an exception has been taken. -/
def State.takeException (s : State) (pc : Word) (daif : BitVec 4) (mode : Mode) : State :=
  let saved := spsr s.flags daif mode
  { s with sys := Function.update (Function.update s.sys .elrEl1 pc) .spsrEl1 saved }

/-- The registers after `eret`; the program counter comes from `ELR_EL1`, masks and mode
from `SPSR_EL1`. -/
def State.exceptionReturn (s : State) : State :=
  { s with flags := spsrFlags (s.sys .spsrEl1) }

inductive ExceptionKind
  | sync
  | irq
  | fiq
  | serror
  deriving DecidableEq

/-- Where the vector is, relative to `VBAR_EL1`: four groups by origin, each with one entry
of 128 bytes for each kind. -/
def vectorOffset (mode : Mode) (kind : ExceptionKind) : ℕ :=
  let group := if mode = EL1t then 0x000 else if mode = EL1h then 0x200 else 0x400
  group + match kind with
    | .sync => 0x000
    | .irq => 0x080
    | .fiq => 0x100
    | .serror => 0x180

end A64
