import Mathlib
import Aegis.A64.Exception
import Aegis.A64.Listing
import Aegis.Foundation.Successor

/-!
# Code that runs at reset

The CPU may leave reset at a higher exception level than a kernel runs at.  `Reset` has the
mode, the interrupt masks and the registers of EL2 beside those of `State`.  Every level has
a stack pointer of its own, and the one in `State` is the one in use.

The registers of EL2 can be written from EL2 upwards, and the way down from there is an
exception return.
-/

namespace A64

open Foundation

inductive El2Reg
  | hcrEl2
  | cnthctlEl2
  | cntvoffEl2
  | spsrEl2
  | elrEl2
  /-- the stack pointer of EL1, while it is not in use -/
  | spEl1
  deriving DecidableEq

structure Reset where
  cpu : State
  mode : Mode
  daif : BitVec 4
  el2 : El2Reg → Word

/-- The exception level of a mode. -/
def levelOf (mode : Mode) : BitVec 2 := mode.extractLsb' 2 2

inductive ResetInstr (L : Type*)
  /-- `msr daifset, #imm` -/
  | daifset (imm : BitVec 4)
  | plain (i : Instr)
  /-- `mov sp, xn` -/
  | movToSp (n : Reg)
  /-- `mrs xt, CurrentEL` -/
  | currentEl (t : Reg)
  | msr (r : El2Reg) (t : Source)
  | adr (t : Reg) (l : L)
  /-- `b.eq` -/
  | beq (l : L)
  | b (l : L)
  | wfe
  | eret

namespace Reset

variable (r : Reset)

def setReg (t : Reg) (value : Word) : Reset := { r with cpu := r.cpu.set t value }

/-- HCR_EL2.RW and not HCR_EL2.TGE: EL1 is there, and runs A64. -/
def el1Available : Bool := (r.el2 .hcrEl2).getLsbD 31 && !(r.el2 .hcrEl2).getLsbD 27

/-- `eret` from EL2 to EL1 with its own stack pointer. -/
def exceptionReturn : Option Reset :=
  let saved := r.el2 .spsrEl2
  -- bit 4 is the execution state, 0 for A64
  if levelOf r.mode = 2 ∧ r.el1Available ∧ saved.extractLsb' 0 5 = 0#1 ++ EL1h then
    some { r with
      cpu := { r.cpu with sp := r.el2 .spEl1, flags := spsrFlags saved }
      mode := spsrMode saved
      daif := spsrDaif saved }
  else none

end Reset

/-- One instruction: the registers after it, and where to go on if not at the next one.
`target` is where labels are. -/
def ResetInstr.exec {L : Type*} (target : L → Word) (r : Reset) :
    ResetInstr L → Option (Reset × Option Word)
  | .daifset imm =>
      if levelOf r.mode = 0 then none else some ({ r with daif := r.daif ||| imm }, none)
  | .plain i => (i.exec r.cpu).map fun cpu => ({ r with cpu }, none)
  | .movToSp n => some ({ r with cpu := { r.cpu with sp := r.cpu.x n } }, none)
  | .currentEl t =>
      -- the level is in bits 3 and 2
      if levelOf r.mode = 0 then none
      else some (r.setReg t ((levelOf r.mode).setWidth 64 <<< 2), none)
  | .msr reg t =>
      if 2 ≤ levelOf r.mode then
        some ({ r with el2 := Function.update r.el2 reg (r.cpu.source t) }, none)
      else none
  | .adr t l => some (r.setReg t (target l), none)
  | .beq l => some (r, if r.cpu.flags.zero then some (target l) else none)
  | .b l => some (r, some (target l))
  | .wfe => some (r, none)
  | .eret => r.exceptionReturn.map fun r' => (r', some (r.el2 .elrEl2))

abbrev ResetCode (L : Type*) := Listing (ResetInstr L) L

namespace ResetCode

variable {L : Type*}

/-- A straight line of code. -/
def execLine (target : L → Word) : List (ResetInstr L) → Reset → Option Reset
  | [], r => some r
  | i :: is, r =>
      match i.exec target r with
      | some (r', none) => execLine target is r'
      | some (_, some _) | none => none

variable [DecidableEq L] (code : ResetCode L) (base : Word)

/-- Where a label is. -/
def target (l : L) : Word := Listing.addressOf base (code.indexOf l)

/-- Run one instruction. -/
def step : Word × Reset → Option (Word × Reset)
  | (pc, r) =>
      (code.fetch base pc).bind fun i =>
        (i.exec (target code base) r).map fun result => (result.2.getD (pc + 4), result.1)

/-- Running for some number of steps. -/
def Reaches (c c' : Word × Reset) : Prop :=
  Relation.ReflTransGen (Follows (step code base)) c c'

section Rules

variable {code base} {c c' c'' : Word × Reset} {r r' : Reset} {i : ℕ}

theorem step_eq {instr : ResetInstr L} (hi : i < 2 ^ 62)
    (hinstr : (code.filterMap Listing.instrOf)[i]? = some instr) :
    step code base (Listing.addressOf base i, r) =
      (instr.exec (target code base) r).map fun result =>
        (result.2.getD (Listing.addressOf base (i + 1)), result.1) := by
  rw [step, Listing.fetch_addressOf _ hi, hinstr, Option.bind_some, Listing.addressOf_succ]

theorem step_eq_none (hi : i < 2 ^ 62) (hend : (code.filterMap Listing.instrOf)[i]? = none) :
    step code base (Listing.addressOf base i, r) = none := by
  rw [step, Listing.fetch_addressOf _ hi, hend, Option.bind_none]

theorem Reaches.trans (h : Reaches code base c c') (h' : Reaches code base c' c'') :
    Reaches code base c c'' :=
  Relation.ReflTransGen.trans h h'

theorem Reaches.jump (instr : ResetInstr L) {pc : Word} (hi : i < 2 ^ 62)
    (hinstr : (code.filterMap Listing.instrOf)[i]? = some instr)
    (hexec : instr.exec (target code base) r = some (r', some pc)) :
    Reaches code base (Listing.addressOf base i, r) (pc, r') := by
  refine Relation.ReflTransGen.single ?_
  rw [Follows, step_eq hi hinstr, hexec]
  rfl

/-- A straight line of code runs to its end. -/
theorem Reaches.line {is rest : List (ResetInstr L)} {j : ℕ} (hj : i + is.length = j)
    (hlt : j < 2 ^ 62) (h : (code.filterMap Listing.instrOf).drop i = is ++ rest)
    (hexec : execLine (target code base) is r = some r') :
    Reaches code base (Listing.addressOf base i, r) (Listing.addressOf base j, r') := by
  induction is generalizing i r with
  | nil =>
      cases hexec
      cases hj
      exact Relation.ReflTransGen.refl
  | cons instr is ih =>
      have hfirst : (code.filterMap Listing.instrOf)[i]? = some instr := by
        rw [← List.head?_drop, h, List.cons_append, List.head?_cons]
      have hrest : (code.filterMap Listing.instrOf).drop (i + 1) = is ++ rest := by
        rw [← List.tail_drop, h, List.cons_append, List.tail_cons]
      rw [List.length_cons] at hj
      rw [execLine] at hexec
      split at hexec
      case h_1 t ht =>
        refine Relation.ReflTransGen.head ?_ (ih (by omega) hrest hexec)
        rw [Follows, step_eq (by omega) hfirst, ht]
        rfl
      all_goals cases hexec

end Rules

end ResetCode

end A64
