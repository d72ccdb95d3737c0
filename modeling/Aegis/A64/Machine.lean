import Mathlib
import Aegis.Foundation.Overwrite

/-!
# A fragment of the A64 instruction set

The integer registers `x0` to `x30`, the stack pointer, a few system registers, the
condition flags, and memory as a family of 64-bit words at addresses that are multiples of
eight.  Loads and stores move whole words; one that is not aligned faults, and the model has no
state after it.

`Instr.exec` is the meaning of one instruction, `execBlock` that of a straight line of them.
Code with labels and branches runs by `Code.step`, one line at a time, and `Reaches` is
running for any number of steps.  The rules for `Reaches` are those one uses on paper: a
straight line of code, a branch, a loop with an invariant.
-/

namespace A64

open Foundation

abbrev Word := BitVec 64

/-- `x0` to `x30`. -/
abbrev Reg := Fin 31

instance Reg.neZero : NeZero 31 := ⟨by decide⟩

/-- The system registers that the instructions below name. -/
inductive SysReg
  | spEl0
  | elrEl1
  | spsrEl1
  | ttbr0El1
  | mairEl1
  | tcrEl1
  | sctlrEl1
  deriving DecidableEq, Repr

/-- The condition flags N, Z, C and V. -/
structure Flags where
  negative : Bool
  zero : Bool
  carry : Bool
  overflow : Bool
  deriving DecidableEq, Repr

def Flags.clear : Flags := ⟨false, false, false, false⟩

/-- A comparison is a subtraction: C says that it borrows nothing, and V that its result as a
signed number is not the difference. -/
def Flags.compare (a b : Word) : Flags where
  negative := (a - b).msb
  zero := a == b
  carry := decide (b ≤ a)
  overflow := BitVec.ssubOverflow a b

@[ext] structure State where
  x : Reg → Word
  sp : Word
  sys : SysReg → Word
  memory : Word → Word
  flags : Flags

/-- A register that holds an address. -/
inductive Base
  | x (n : Reg)
  | sp

/-- A word to store. -/
inductive Source
  | x (t : Reg)
  | xzr

/-- The second operand of an arithmetic instruction. -/
inductive Operand
  | x (m : Reg)
  | imm (value : Word)

/-- The addressing modes of `ldr` and `str`. -/
inductive Address
  /-- `[base, #offset]` -/
  | offset (base : Base) (offset : Word)
  /-- `[base, xm, lsl #3]` -/
  | index (base : Base) (m : Reg)
  /-- `[xn], #offset`, which moves `xn` after the access -/
  | post (n : Reg) (offset : Word)

inductive Instr
  /-- `ldr xt, =value` -/
  | ldrLiteral (t : Reg) (value : Word)
  /-- `mov xd, #value` -/
  | mov (d : Reg) (value : Word)
  /-- `mov xd, sp` -/
  | movSp (d : Reg)
  | add (d n : Reg) (operand : Operand)
  | sub (d n : Reg) (operand : Operand)
  | orr (d n : Reg) (operand : Operand)
  | lsr (d n : Reg) (shift : ℕ)
  /-- `add sp, sp, #value` -/
  | addSp (value : Word)
  /-- `sub sp, sp, #value` -/
  | subSp (value : Word)
  | cmp (n : Reg) (operand : Operand)
  | str (t : Source) (address : Address)
  | ldr (t : Reg) (address : Address)
  /-- `stp xt, xu, [sp, #offset]` -/
  | stp (t u : Reg) (offset : Word)
  /-- `ldp xt, xu, [sp, #offset]` -/
  | ldp (t u : Reg) (offset : Word)
  | msr (r : SysReg) (t : Reg)
  | mrs (t : Reg) (r : SysReg)
  /-- `dsb`, `isb` and `tlbi`: the model runs one instruction after the other and keeps
  no translations, so there is nothing to wait for -/
  | barrier

/-! ## Straight lines -/

/-- Word accesses are aligned. -/
def Aligned (address : Word) : Prop := 8 ∣ address.toNat

instance (address : Word) : Decidable (Aligned address) :=
  inferInstanceAs (Decidable (8 ∣ address.toNat))

namespace State

/-- Write a register. -/
def set (s : State) (d : Reg) (value : Word) : State :=
  { s with x := Function.update s.x d value }

section Set

variable (s : State) (d : Reg) (value : Word)

@[simp] theorem set_x : (s.set d value).x = Function.update s.x d value := rfl

@[simp] theorem set_sp : (s.set d value).sp = s.sp := rfl

@[simp] theorem set_sys : (s.set d value).sys = s.sys := rfl

@[simp] theorem set_memory : (s.set d value).memory = s.memory := rfl

end Set

def load (s : State) (address : Word) : Option Word :=
  if Aligned address then some (s.memory address) else none

def store (s : State) (address value : Word) : Option State :=
  if Aligned address then some { s with memory := Function.update s.memory address value }
  else none

def base (s : State) : Base → Word
  | .x n => s.x n
  | .sp => s.sp

def source (s : State) : Source → Word
  | .x t => s.x t
  | .xzr => 0

def operand (s : State) : Operand → Word
  | .x m => s.x m
  | .imm value => value

/-- The word an address stands for. -/
def address (s : State) : Address → Word
  | .offset b offset => s.base b + offset
  | .index b m => s.base b + s.x m <<< 3
  | .post n _ => s.x n

/-- The register that an address moves. -/
def moveBase (s : State) : Address → State
  | .post n offset => s.set n (s.x n + offset)
  | .offset _ _ | .index _ _ => s

end State

/-- The meaning of one instruction. -/
def Instr.exec : Instr → State → Option State
  | .ldrLiteral t value, s => some (s.set t value)
  | .mov d value, s => some (s.set d value)
  | .movSp d, s => some (s.set d s.sp)
  | .add d n o, s => some (s.set d (s.x n + s.operand o))
  | .sub d n o, s => some (s.set d (s.x n - s.operand o))
  | .orr d n o, s => some (s.set d (s.x n ||| s.operand o))
  | .lsr d n shift, s => some (s.set d (s.x n >>> shift))
  | .addSp value, s => some { s with sp := s.sp + value }
  | .subSp value, s => some { s with sp := s.sp - value }
  | .cmp n o, s => some { s with flags := .compare (s.x n) (s.operand o) }
  | .str t a, s => (s.store (s.address a) (s.source t)).map (·.moveBase a)
  | .ldr t a, s => (s.load (s.address a)).map fun value => (s.moveBase a).set t value
  | .stp t u offset, s => do
      let s ← s.store (s.sp + offset) (s.x t)
      s.store (s.sp + (offset + 8#64)) (s.x u)
  | .ldp t u offset, s => do
      let first ← s.load (s.sp + offset)
      let second ← s.load (s.sp + (offset + 8#64))
      return (s.set t first).set u second
  | .msr r t, s => some { s with sys := Function.update s.sys r (s.x t) }
  | .mrs t r, s => some (s.set t (s.sys r))
  | .barrier, s => some s

/-- The meaning of a straight line of code. -/
def execBlock : List Instr → State → Option State
  | [], s => some s
  | i :: is, s => (i.exec s).bind (execBlock is)

@[simp] theorem execBlock_nil (s : State) : execBlock [] s = some s := rfl

theorem execBlock_cons {i : Instr} {is : List Instr} {s t : State} (h : i.exec s = some t) :
    execBlock (i :: is) s = execBlock is t := by
  rw [execBlock, h, Option.bind_some]

theorem execBlock_append {is js : List Instr} {s t : State} (h : execBlock is s = some t) :
    execBlock (is ++ js) s = execBlock js t := by
  induction is generalizing s with
  | nil =>
      cases h
      rfl
  | cons i is ih =>
      cases hi : i.exec s with
      | none =>
          rw [execBlock, hi] at h
          cases h
      | some u =>
          rw [execBlock_cons hi] at h
          rw [List.cons_append, execBlock_cons hi, ih h]

/-! ## Code with branches -/

inductive Cond
  /-- `b` -/
  | always
  /-- `b.ne` -/
  | ne
  /-- `b.hs` -/
  | hs

def Cond.holds : Cond → State → Bool
  | .always, _ => true
  | .ne, s => !s.flags.zero
  | .hs, s => s.flags.carry

/-- A line of code. -/
inductive Line (L : Type*)
  | label (l : L)
  | instr (i : Instr)
  | branch (cond : Cond) (l : L)

abbrev Code (L : Type*) := List (Line L)

namespace Code

variable {L : Type*} [DecidableEq L] {code : Code L} {pc pc' : ℕ} {s s' : State}

def isLabel (l : L) : Line L → Bool
  | .label l' => l' = l
  | .instr _ | .branch _ _ => false

/-- The line that carries a label. -/
def lineOf (code : Code L) (l : L) : ℕ := code.findIdx (isLabel l)

/-- Run one line. -/
def step (code : Code L) : ℕ × State → Option (ℕ × State)
  | (pc, s) =>
      match code[pc]? with
      | none => none
      | some (.label _) => some (pc + 1, s)
      | some (.instr i) => (i.exec s).map fun s' => (pc + 1, s')
      | some (.branch cond l) => some (if cond.holds s then code.lineOf l else pc + 1, s)

/-- Running for some number of steps. -/
def Reaches (code : Code L) (c c' : ℕ × State) : Prop :=
  Relation.ReflTransGen (fun c c' => code.step c = some c') c c'

theorem Reaches.refl (c : ℕ × State) : code.Reaches c c := Relation.ReflTransGen.refl

theorem Reaches.trans {c₁ c₂ c₃ : ℕ × State} (h : code.Reaches c₁ c₂) (h' : code.Reaches c₂ c₃) :
    code.Reaches c₁ c₃ :=
  Relation.ReflTransGen.trans h h'

theorem Reaches.step {c c' : ℕ × State} (h : code.step c = some c') : code.Reaches c c' :=
  Relation.ReflTransGen.single h

theorem Reaches.label {l : L} (h : code[pc]? = some (.label l)) :
    code.Reaches (pc, s) (pc + 1, s) :=
  .step (by simp [Code.step, h])

theorem Reaches.branch {cond : Cond} {l : L} (h : code[pc]? = some (.branch cond l))
    (hcond : cond.holds s = true) : code.Reaches (pc, s) (code.lineOf l, s) :=
  .step (by simp [Code.step, h, hcond])

theorem Reaches.fallThrough {cond : Cond} {l : L} (h : code[pc]? = some (.branch cond l))
    (hcond : cond.holds s = false) : code.Reaches (pc, s) (pc + 1, s) :=
  .step (by simp [Code.step, h, hcond])

/-- A straight line of code runs to its end. -/
theorem Reaches.block {is : List Instr} {rest : Code L}
    (h : code.drop pc = is.map Line.instr ++ rest) (hexec : execBlock is s = some s') :
    code.Reaches (pc, s) (pc + is.length, s') := by
  induction is generalizing pc s with
  | nil =>
      cases hexec
      exact .refl _
  | cons i is ih =>
      rw [List.map_cons, List.cons_append] at h
      cases hi : i.exec s with
      | none =>
          rw [execBlock, hi] at hexec
          cases hexec
      | some t =>
          rw [execBlock_cons hi] at hexec
          have hpc : code[pc]? = some (.instr i) := by
            rw [← List.head?_drop, h, List.head?_cons]
          have hrest : code.drop (pc + 1) = is.map Line.instr ++ rest := by
            rw [← List.tail_drop, h, List.tail_cons]
          have hfirst : code.Reaches (pc, s) (pc + 1, t) := .step (by simp [Code.step, hpc, hi])
          have hlength : pc + (i :: is).length = pc + 1 + is.length := by
            rw [List.length_cons]
            omega
          rw [hlength]
          exact hfirst.trans (ih hrest hexec)

/-- **The loop rule.**  A piece of code that comes back to where it began, and each time
takes an invariant one further, takes it as far as one likes. -/
theorem Reaches.loop {n : ℕ} (I : ℕ → State → Prop)
    (body : ∀ k < n, ∀ s, I k s → ∃ s', code.Reaches (pc, s) (pc, s') ∧ I (k + 1) s')
    (start : I 0 s) : ∃ s', code.Reaches (pc, s) (pc, s') ∧ I n s' := by
  induction n with
  | zero => exact ⟨s, .refl _, start⟩
  | succ n ih =>
      obtain ⟨t, hreach, ht⟩ := ih fun k hk => body k (by omega)
      obtain ⟨s', hlast, hs'⟩ := body n (by omega) t ht
      exact ⟨s', hreach.trans hlast, hs'⟩

end Code

/-! ## Code that leaves the stack pointer alone -/

def Instr.movesSp : Instr → Bool
  | .addSp _ | .subSp _ => true
  | _ => false

def Line.movesSp {L : Type*} : Line L → Bool
  | .instr i => i.movesSp
  | .label _ | .branch _ _ => false

theorem State.store_sp {s t : State} {address value : Word} (h : s.store address value = some t) :
    t.sp = s.sp := by
  unfold State.store at h
  split at h
  · cases h
    rfl
  · cases h

theorem State.moveBase_sp (s : State) (address : Address) : (s.moveBase address).sp = s.sp := by
  cases address <;> rfl

theorem Instr.exec_sp {i : Instr} {s t : State} (hi : i.movesSp = false)
    (h : i.exec s = some t) : t.sp = s.sp := by
  cases i with
  | addSp value => cases hi
  | subSp value => cases hi
  | str source address =>
      obtain ⟨u, hu, rfl⟩ := Option.map_eq_some_iff.mp h
      rw [State.moveBase_sp, State.store_sp hu]
  | ldr target address =>
      obtain ⟨value, -, rfl⟩ := Option.map_eq_some_iff.mp h
      rw [State.set_sp, State.moveBase_sp]
  | stp first second offset =>
      obtain ⟨u, hu, ht⟩ := Option.bind_eq_some_iff.mp h
      rw [State.store_sp ht, State.store_sp hu]
  | ldp first second offset =>
      obtain ⟨x, -, h⟩ := Option.bind_eq_some_iff.mp h
      obtain ⟨y, -, h⟩ := Option.bind_eq_some_iff.mp h
      cases h
      rfl
  | _ =>
      cases h
      rfl

theorem Code.Reaches.sp_eq {L : Type*} [DecidableEq L] {code : Code L} {c c' : ℕ × State}
    (hcode : code.all (!·.movesSp) = true) (h : code.Reaches c c') : c'.2.sp = c.2.sp := by
  induction h with
  | refl => rfl
  | @tail d d' _ hstep ih =>
      rw [← ih]
      obtain ⟨pc, s⟩ := d
      rw [Code.step] at hstep
      split at hstep
      case h_1 => cases hstep
      case h_2 =>
        cases hstep
        rfl
      case h_3 i hline =>
        obtain ⟨t, ht, rfl⟩ := Option.map_eq_some_iff.mp hstep
        have hi : i.movesSp = false := by
          simpa [Line.movesSp] using List.all_eq_true.mp hcode _ (List.mem_of_getElem? hline)
        exact Instr.exec_sp hi ht
      case h_4 =>
        cases hstep
        rfl

end A64
