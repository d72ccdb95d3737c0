import Mathlib
import Aegis.Live.Service

/-!
# The user programs run

The programs of `user.S` on the live kernel, one instruction at a time, with time passing in
between as it likes.  `Stage` is where the two tasks are, and `Stage.Holds` says what the
registers, the word that the tasks share and the console are then.  Each instruction and each
interrupt takes a stage to the next one.

The word is what the programs race for: A clears it and waits until it is set, B sets it.  If
A is interrupted before it has cleared the word, it clears what B has set; if B is interrupted
before it has set the word, nobody will.  In both cases A waits forever (`spins`).
-/

namespace Aegis.Live

open Foundation A64 Preempt Boot Irq

variable {layout : Layout}

/-! ## The machine -/

/-- What user code sees of the CPU. -/
def Core.view (core : Core) : UserView where
  x := core.cpu.x
  sp := core.cpu.sys .spEl0
  pc := core.pc
  flags := core.cpu.flags
  memory := core.cpu.memory
  ttbr := core.cpu.sys .ttbr0El1

inductive DemoOp
  /-- the next instruction of the running task -/
  | instr (scratch : Scratch)
  | elapse (duration spent : ℕ) (scratch : Scratch)

/-- The next instruction of the program that is loaded, and the trap that it ends with. -/
def Core.execute (layout : Layout) (core : Core) (scratch : Scratch) :
    Option (LiveResult × Core) :=
  let u := (userText layout).step layout.userTextStart core.view
  match core.step layout (.run u.run), u.trap with
  | none, _ => none
  | some (r, core), none => some (r, core)
  | some (_, core), some esr => core.step layout (.sync esr scratch)

def demoMachine (layout : Layout) (init : Core) : Machine Core DemoOp LiveResult where
  init := init
  step core op :=
    match op with
    | .instr scratch => core.execute layout scratch
    | .elapse duration spent scratch => core.step layout (.elapse duration spent scratch)

abbrev DemoEvent := Event Core DemoOp LiveResult

/-! ## Stages -/

/-- Where the two tasks are; instructions are numbered as in `user.S`. -/
inductive Stage
  /-- A is at instruction `i` -/
  | alone (i : ℕ)
  /-- B is at its instruction `j`, and A was interrupted at `i` -/
  | other (i j : ℕ)
  /-- A is back, and the word will stay clear -/
  | spins (i : ℕ)
  /-- A is back, and the word is set; at the test of what it has read, it has read this -/
  | finds (i : ℕ) (seen : Bool)
  /-- A has found the word set, and makes its system calls -/
  | serves (k : ℕ)
  | done
  deriving DecidableEq

/-- The instruction of A after `i`, while the word is clear. -/
def nextA (i : ℕ) : ℕ := if i = 9 then 6 else i + 1

/-- The instruction of B after `j`. -/
def nextB (j : ℕ) : ℕ := if j = 6 then 5 else j + 1

namespace Stage

/-- One instruction. -/
def next : Stage → Stage
  | .alone i => .alone (nextA i)
  | .other i j => .other i (nextB j)
  | .spins i => .spins (nextA i)
  | .finds i seen =>
      if i = 6 then .finds 7 true
      else if i = 7 ∧ seen = true then .serves 0
      else .finds (nextA i) false
  | .serves k => if k = 8 then .done else .serves (k + 1)
  | .done => .done

/-- An interrupt. -/
def interrupted : Stage → Stage
  | .alone i => .other i 0
  | .other i j => if 6 ≤ i ∧ 5 ≤ j then .finds i false else .spins i
  | s => s

/-- How much of the transcript has been printed. -/
def printed : Stage → ℕ
  | .alone _ => 0
  | .other _ _ => 1
  | .spins _ | .finds _ _ => 2
  | .serves k => [2, 4, 4, 5, 9, 10, 10, 10, 11].getD k 11
  | .done => 13

/-- Both interrupts have been. -/
def isBack : Stage → Bool
  | .alone _ | .other _ _ => false
  | .spins _ | .finds _ _ | .serves _ | .done => true

end Stage

/-- What the demo prints. -/
def transcript : List Output := [
  .line .switchedToB,
  .line .restoredA,
  .line .yielded,
  .line (.registerIntegrity true),
  .line .callReceived,
  .byte 65,
  .line .authorizedWrite,
  .line .replied,
  .line (.subtreeRevoked 2),
  .line .callDenied,
  .line .uartDenied,
  .line .recovered,
  .line .complete]

/-! ## What holds in each stage -/

/-- The address of an instruction of `user.S`. -/
def textAt (layout : Layout) (i : ℕ) : Word := Listing.addressOf layout.userTextStart i

/-- The word that the tasks share. -/
def sharedWord (layout : Layout) : Word := userStackATop layout - 8

/-- A is at instruction `i`, in the part before its system calls. -/
structure AtA (layout : Layout) (i : ℕ) (seen : Bool) (task : UserTask) : Prop where
  pc : task.pc = textAt layout i
  x19 : 1 ≤ i → task.x 19 = 0x19
  x20 : 2 ≤ i → task.x 20 = 0x20
  x21 : 3 ≤ i → task.x 21 = 0x21
  top : i = 4 → task.x 24 = userStackATop layout
  shared : 5 ≤ i → task.x 24 = sharedWord layout
  seen : i = 7 → task.x 25 = if seen then 1 else 0

/-- B is at its instruction `j`. -/
structure AtB (layout : Layout) (j : ℕ) (task : UserTask) : Prop where
  pc : task.pc = textAt layout (23 + j)
  top : j = 2 → task.x 24 = userStackATop layout
  shared : 3 ≤ j → task.x 24 = sharedWord layout
  one : 4 ≤ j → task.x 25 = 1

/-- The instructions at which A makes its system calls, with that of the server between. -/
def serveIndex (k : ℕ) : ℕ := [10, 11, 12, 20, 13, 14, 15, 16, 17].getD k 17

/-- The protocol of the runtime during the system calls. -/
def servePhase (k : ℕ) : Phase := if k ≤ 2 then .idle else if k = 3 then .serving 65 else .closed

/-- The tasks, and the word. -/
def Stage.Tasks (layout : Layout) : Stage → Sandbox → Prop
  | .alone i, a => i ≤ 9 ∧ a.current = 0 ∧ a.switches = 0 ∧ a.phase = .idle ∧
      a.waiting = initialB layout ∧ AtA layout i false a.running ∧
      (6 ≤ i → a.memory (sharedWord layout) = 0)
  | .other i j, a => i ≤ 9 ∧ j ≤ 6 ∧ a.current = 1 ∧ a.switches = 1 ∧ a.phase = .idle ∧
      AtA layout i false a.waiting ∧ AtB layout j a.running ∧
      (5 ≤ j → a.memory (sharedWord layout) = 1) ∧
      (6 ≤ i → j < 5 → a.memory (sharedWord layout) = 0)
  | .spins i, a => i ≤ 9 ∧ AtA layout i false a.running ∧
      (6 ≤ i → a.memory (sharedWord layout) = 0)
  | .finds i seen, a => 6 ≤ i ∧ i ≤ 9 ∧ a.switches = 2 ∧ a.phase = .idle ∧
      AtA layout i seen a.running ∧ a.memory (sharedWord layout) = 1
  | .serves k, a => k ≤ 8 ∧ a.running.pc = textAt layout (serveIndex k) ∧
      a.phase = servePhase k ∧ (k = 0 → a.registersIntact = true) ∧
      (k = 2 → a.running.x 0 = 65) ∧ (k = 6 ∨ k = 7 → a.running.x 1 = 0x09000000)
  | .done, _ => True

/-- The stage that a sandbox is in, with what was on the console before. -/
structure Stage.Holds (layout : Layout) (before : List Output) (s : Stage) (a : Sandbox) :
    Prop where
  console : a.console = before ++ transcript.take s.printed
  halted : a.halted = decide (s = .done)
  due : a.alarm.due = false
  stopped : s.isBack = true → a.alarm.deadline = none
  tasks : s.Tasks layout a

/-! ## One instruction -/

theorem toNat_textAt {i : ℕ} (hi : i < 30) :
    (textAt layout i).toNat = layout.userTextStart.toNat + 4 * i := by
  have hlt := layout.userText_page.lt
  rw [textAt, Listing.addressOf, BitVec.toNat_add, BitVec.toNat_ofNat]
  omega

theorem toNat_sharedWord (layout : Layout) :
    (sharedWord layout).toNat = layout.userStackABottom.toNat + 4088 := by
  have hlt := layout.userStackA_page.lt
  rw [sharedWord, userStackATop, BitVec.toNat_sub, BitVec.toNat_add]
  show (2 ^ 64 - 8 + (layout.userStackABottom.toNat + 4096) % 2 ^ 64) % 2 ^ 64 = _
  omega

theorem sharedWord_inStack (layout : Layout) : InStack layout (sharedWord layout) := by
  left
  constructor <;> rw [toNat_sharedWord] <;> omega

theorem sharedWord_aligned (layout : Layout) : Aligned (sharedWord layout) := by
  have haligned := layout.userStackA_page.aligned
  show 8 ∣ (sharedWord layout).toNat
  rw [toNat_sharedWord]
  omega

/-- The instruction at an address of the user text is run. -/
theorem step_text {u : UserView} (tables : BuiltTables layout u.memory)
    (httbr : u.ttbr = layout.bootL1Table) {i : ℕ} (hi : i < 30) (hpc : u.pc = textAt layout i)
    {instr : UserInstr UserLabel}
    (hinstr : ((userText layout).filterMap Listing.instrOf)[i]? = some instr) :
    (userText layout).step layout.userTextStart u = instr.step (userSymbol layout) u := by
  have hpage : InPage layout.userTextStart (textAt layout i) := by
    constructor <;> rw [toNat_textAt hi] <;> omega
  rw [UserCode.step, httbr, hpc, el0Fetch_eq tables hpage]
  simp only [textAt, Listing.fetch_addressOf _ (Nat.lt_trans hi (by decide)), hinstr]
  rfl

section Instr

variable {boot : State} {period : ℕ} {core : Core} {a : Sandbox}

theorem Hosts.view_eq (h : Hosts layout boot period core a) (prepared : Prepared layout boot)
    (hlive : a.halted = false) : core.view = {
      x := a.running.x
      sp := a.running.sp
      pc := a.running.pc
      flags := a.running.flags
      memory := core.cpu.memory
      ttbr := layout.bootL1Table } := by
  have hruns := h.runs hlive
  rw [Core.view, hruns.x, hruns.spEl0, hruns.pc, hruns.flags,
    hruns.sys _ fixed_ttbr0El1, prepared.ttbr]

variable (h : Hosts layout boot period core a) (prepared : Prepared layout boot)
  (hlive : a.halted = false) {i : ℕ} (hi : i < 30) (hpc : a.running.pc = textAt layout i)
  {instr : UserInstr UserLabel}
  (hinstr : ((userText layout).filterMap Listing.instrOf)[i]? = some instr) (scratch : Scratch)
include h prepared hlive hi hpc hinstr

/-- An instruction that does not trap. -/
theorem Hosts.execute_runs {run : UserRun}
    (hstep : instr.step (userSymbol layout) core.view = ⟨run, none⟩) :
    ∃ core', core.execute layout scratch = some (.ran, core') ∧
      Hosts layout boot period core' (a.userRan layout run) := by
  have hview := h.view_eq prepared hlive
  have htext : (userText layout).step layout.userTextStart core.view = ⟨run, none⟩ := by
    rw [step_text (h.builtTables prepared) (by rw [hview]) hi (by rw [hview]; exact hpc) hinstr,
      hstep]
  obtain ⟨core', hcore, h'⟩ := h.step prepared (.run run)
  rw [a.step_run hlive] at hcore h'
  refine ⟨core', ?_, h'⟩
  simp only [Core.execute, htext, hcore]

/-- An instruction that traps. -/
theorem Hosts.execute_traps {run : UserRun} {esr : Word}
    (hstep : instr.step (userSymbol layout) core.view = ⟨run, some esr⟩) :
    ∃ core', core.execute layout scratch = some (.trapped, core') ∧
      Hosts layout boot period core' ((a.userRan layout run).trap layout esr) := by
  have hview := h.view_eq prepared hlive
  have htext : (userText layout).step layout.userTextStart core.view = ⟨run, some esr⟩ := by
    rw [step_text (h.builtTables prepared) (by rw [hview]) hi (by rw [hview]; exact hpc) hinstr,
      hstep]
  obtain ⟨core₁, hcore₁, h₁⟩ := h.step prepared (.run run)
  rw [a.step_run hlive] at hcore₁ h₁
  obtain ⟨core', hcore', h'⟩ := h₁.step prepared (.sync esr scratch)
  rw [(a.userRan layout run).step_sync hlive] at hcore' h'
  refine ⟨core', ?_, h'⟩
  simp only [Core.execute, htext, hcore₁, hcore']

end Instr

/-! ## Loads and stores -/

section Memory

variable {u : UserView} (tables : BuiltTables layout u.memory) (httbr : u.ttbr = layout.bootL1Table)
  (target : UserLabel → Word) {n : Reg}
include tables httbr

theorem ldr_shared (t : Reg) (hn : u.x n = sharedWord layout) :
    (UserInstr.ldr t n).step target u = u.setReg t (u.memory (sharedWord layout)) := by
  have hin := sharedWord_inStack layout
  have hlt : (sharedWord layout).toNat < 2 ^ 39 := by
    have hrange := layout.userStackA_page.lt
    rw [toNat_sharedWord]
    omega
  simp only [UserInstr.step, httbr, hn, el0Load_eq tables hlt, if_pos (Or.inr hin),
    if_pos (sharedWord_aligned layout)]

theorem str_shared (t : Source) (hn : u.x n = sharedWord layout) :
    (UserInstr.str t n).step target u = ⟨{ u.unchanged with
      pc := u.pc + 4, stores := [(sharedWord layout, u.source t)] }, none⟩ := by
  simp only [UserInstr.step, UserView.store, httbr, hn, el0Store_eq tables,
    if_pos (sharedWord_inStack layout), if_pos (sharedWord_aligned layout)]

/-- The UART is not for user code. -/
theorem strW_uart (t : Reg) (hn : u.x n = 0x09000000) :
    (UserInstr.strW t n).step target u = u.abort EC_DATA_ABORT := by
  have hnot : ¬InStack layout 0x09000000 := by
    rintro (hin | hin)
    · have hrange := layout.userStackA_page.range_of_inPage hin
      exact absurd hrange.1 (by decide)
    · have hrange := layout.userStackB_page.range_of_inPage hin
      exact absurd hrange.1 (by decide)
  simp only [UserInstr.step, UserView.storeHalf, httbr, hn, el0Store_eq tables, if_neg hnot]

end Memory

theorem storeStacks_shared (memory : Word → Word) (value : Word) :
    storeStacks layout memory [(sharedWord layout, value)] (sharedWord layout) = value := by
  show (if InStack layout (sharedWord layout) ∧ Aligned (sharedWord layout) then
    Function.update memory (sharedWord layout) value else memory) (sharedWord layout) = value
  rw [if_pos ⟨sharedWord_inStack layout, sharedWord_aligned layout⟩, Function.update_self]

end Aegis.Live
