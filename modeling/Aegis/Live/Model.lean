import Mathlib
import Aegis.A64.Exception
import Aegis.Boot.AddressMap
import Aegis.Irq.Model
import Aegis.Live.Console
import Aegis.Live.Program
import Aegis.Preempt.Model
import Aegis.Runtime.Model

/-!
# The live kernel

A translation of what `main.rs` and `vectors.S` do once user code runs: the vector table,
the two vectors for exceptions from EL0, the dispatchers they call, and the start of the
first user task.

The machine `liveMachine` is the kernel under user code of any kind.  Between two exceptions
user code leaves whatever registers it likes and makes whatever stores the translation tables
allow (`run`); it can trap with any syndrome (`sync`); time passes, and an interrupt is taken
if the controller signals one and it is not masked (`elapse`); and the system may fail
(`serror`).

The kernel's own data are not kept in the memory of the CPU, but beside it, in `Statics`.
What compiled code does to memory is left open, as in `Aegis.Preempt.Model`, with one
assumption: that it does not write to the pages of user code and to the boot tables, to which no
kernel code holds a pointer.  `confine` is where this assumption is made.  It bounds what the
instructions of compiled code leave in memory and nothing else; the stores of the vectors and
of the dispatchers to the frame are modelled one by one.
-/

namespace Aegis.Live

open Foundation A64 Sched Preempt Boot Irq

def PREEMPT_TASK_A : TaskId := 0

def PREEMPT_TASK_B : TaskId := 1

/-- The `static`s of the kernel, and the console. -/
structure Statics where
  interrupts : Interrupts
  /-- `LIVE_SCHEDULER` -/
  scheduler : Scheduler 2
  /-- `PREEMPT_SWITCHES` -/
  switches : BitVec 64
  runtime : Runtime
  console : List Output

namespace Statics

variable (k : Statics)

def println (line : Line) : Statics := { k with console := k.console ++ [.line line] }

def putc (byte : UInt8) : Statics := { k with console := k.console ++ [.byte byte] }

/-- `PREEMPT_SWITCHES.fetch_add(1)` -/
def countSwitch : Statics := { k with switches := k.switches + 1 }

def stopTimer : Statics := { k with interrupts := k.interrupts.stopTimer }

end Statics

/-! ## The dispatchers -/

/-- How a dispatcher ends. -/
inductive Dispatch
  /-- it returns to the vector -/
  | returns (k : Statics) (cpu : State)
  /-- it waits forever, with interrupts masked -/
  | halts (k : Statics)

def exceptionReport (kind : ℕ) (esr elr : Word) (k : Statics) : Dispatch :=
  .halts (k.println (.fault kind esr elr))

/-- What is done between the acknowledgement and the end takes some time. -/
def lowerIrqDispatch (spent : ℕ) (frame : Word) (k : Statics) (cpu : State) : Option Dispatch :=
  let (interrupt, interrupts) := k.interrupts.acknowledge
  let k := { k with interrupts := interrupts.elapse spent }
  match interrupt with
  | .timer _ =>
      match scheduleLowerFrame frame k.scheduler cpu with
      | none => none
      | some (switched, scheduler, cpu) =>
          let k := { k with scheduler }
          if switched = some (PREEMPT_TASK_A, PREEMPT_TASK_B) then
            some (.returns (k.countSwitch.println .switchedToB) cpu)
          else if switched = some (PREEMPT_TASK_B, PREEMPT_TASK_A) then
            some (.returns (k.countSwitch.stopTimer.println .restoredA) cpu)
          else some (.returns (k.stopTimer.println .selectionFailed) cpu)
  | .unknown id => some (.returns (k.stopTimer.println (.unexpectedLowerInterrupt id)) cpu)

/-- `core::ptr::read(frame.add(i))` -/
def frameWord (cpu : State) (frame : Word) (i : ℕ) : Word := cpu.memory (wordAt frame i)

/-- `msr`, from Rust. -/
def writeSys (cpu : State) (r : SysReg) (value : Word) : State :=
  { cpu with sys := Function.update cpu.sys r value }

/-- Continue at an address, on another stack. -/
def redirect (cpu : State) (sp pc : Word) : State :=
  writeSys (writeSys cpu .spEl0 sp) .elrEl1 pc

def yieldCall (frame : Word) (k : Statics) (cpu : State) : Option Dispatch :=
  let registersOk := frameWord cpu frame 19 = 0x19 ∧ frameWord cpu frame 20 = 0x20 ∧
    frameWord cpu frame 21 = 0x21
  let k := k.println .yielded
  some (.returns (k.println (.registerIntegrity (registersOk ∧ k.switches = 2))) cpu)

def sendCall (layout : Layout) (frame : Word) (k : Statics) (cpu : State) : Option Dispatch :=
  let byte := frameWord cpu frame 0
  match Runtime.appCall (.ofBitVec (byte.setWidth 8)) k.runtime with
  | none => none
  | some (.error _, runtime) => some (.returns ({ k with runtime }.println .callDenied) cpu)
  | some (.ok _, runtime) =>
      let cpu := redirect cpu (userStackBTop layout) (userSymbol layout .userBEntry)
      some (.returns ({ k with runtime }.println .callReceived) cpu)

def replyCall (layout : Layout) (k : Statics) (cpu : State) : Option Dispatch :=
  match Runtime.consoleReplyAndRevoke k.runtime with
  | none => none
  | some (.error _, runtime) =>
      some (.returns ({ k with runtime }.println .unauthorizedCaller) cpu)
  | some (.ok (byte, revoked), runtime) =>
      let k := ({ k with runtime }.putc byte).println .authorizedWrite
      let cpu := redirect cpu (userStackATop layout) (userSymbol layout .userAResumed)
      some (.returns ((k.println .replied).println (.subtreeRevoked revoked)) cpu)

def probeCall (k : Statics) (cpu : State) : Option Dispatch :=
  match Runtime.appCall 66 k.runtime with
  | none => none
  | some (.ok _, runtime) =>
      some (.returns ({ k with runtime }.println .revokedCallAuthorized) cpu)
  | some (.error _, runtime) => some (.returns ({ k with runtime }.println .callDenied) cpu)

def lowerSyncDispatch (layout : Layout) (esr frame : Word) (k : Statics) (cpu : State) :
    Option Dispatch :=
  if esr >>> 26 = 0x15 then
    let immediate := esr &&& 0xffff
    if immediate = 0 then yieldCall frame k cpu
    else if immediate = 10 then sendCall layout frame k cpu
    else if immediate = 11 then replyCall layout k cpu
    else if immediate = 12 then probeCall k cpu
    else if immediate = 2 then some (.halts ((k.println .recovered).println .complete))
    else some (.returns k cpu)
  else if esr >>> 26 = 0x24 then
    let cpu := writeSys cpu .elrEl1 (userSymbol layout .userAfterFault)
    some (.returns (k.println .uartDenied) cpu)
  else some (exceptionReport 8 esr 0 k)

/-! ## Memory that is not the kernel's to use -/

/-- The pages of user code, and the boot tables. -/
def Guarded (layout : Layout) (address : Word) : Prop :=
  InPage layout.userTextStart address ∨ InPage layout.userStackABottom address ∨
    InPage layout.userStackBBottom address ∨ InPage layout.bootL1Table address ∨
    InPage layout.bootL2Table address ∨ InPage layout.bootL3Table address

instance (layout : Layout) (address : Word) : Decidable (Guarded layout address) :=
  inferInstanceAs (Decidable (_ ∨ _ ∨ _ ∨ _ ∨ _ ∨ _))

/-- Compiled code leaves the guarded pages alone.  This is assumed, not proved: the
instructions that the compiler emits are not modelled. -/
def confine (layout : Layout) (cpu : State) (scratch : Scratch) : Scratch :=
  { scratch with
    memory := fun a => if Guarded layout a then cpu.memory a else scratch.memory a }

/-! ## The vectors -/

/-- The state of the CPU, with what is not in `State`, and the kernel's. -/
structure Core where
  cpu : State
  pc : Word
  mode : Mode
  kernel : Statics
  halted : Bool

namespace Core

/-- Take an exception: interrupts are masked, and the stack pointer is that of EL1. -/
def enter (core : Core) : Core :=
  { core with
    cpu := core.cpu.takeException core.pc core.kernel.interrupts.daif core.mode
    mode := EL1h
    kernel := { core.kernel with interrupts := { core.kernel.interrupts with daif := 0xf } } }

/-- `eret` -/
def eret (core : Core) : Core :=
  let saved := core.cpu.sys .spsrEl1
  { core with
    cpu := core.cpu.exceptionReturn
    pc := core.cpu.sys .elrEl1
    mode := spsrMode saved
    kernel := { core.kernel with
      interrupts := { core.kernel.interrupts with daif := spsrDaif saved } } }

/-- The vectors for exceptions from EL0 differ in the dispatcher that they call. -/
def vectorLower (layout : Layout) (dispatch : Word → Statics → State → Option Dispatch)
    (scratch : Scratch) (core : Core) : Option Core :=
  match execBlock vectorEntry core.cpu with
  | none => none
  | some entered =>
      match dispatch (entered.x 0) core.kernel entered with
      | none => none
      | some (.halts k) => some { core with cpu := entered, kernel := k, halted := true }
      | some (.returns k dispatched) =>
          let left := returned dispatched (entered.x 0) (confine layout dispatched scratch)
          match execBlock vectorExit left with
          | none => none
          | some resumed => some ({ core with cpu := resumed, kernel := k } : Core).eret

def vectorSyncLowerA64 (layout : Layout) (esr : Word) (scratch : Scratch) (core : Core) :
    Option Core :=
  core.vectorLower layout (lowerSyncDispatch layout esr) scratch

def vectorIrqLowerA64 (layout : Layout) (spent : ℕ) (scratch : Scratch) (core : Core) :
    Option Core :=
  core.vectorLower layout (lowerIrqDispatch spent) scratch

/-- The vectors that report. -/
def report (number : ℕ) (esr : Word) (core : Core) : Option Core :=
  match exceptionReport number esr (core.cpu.sys .elrEl1) core.kernel with
  | .halts k => some { core with kernel := k, halted := true }
  | .returns _ _ => none

end Core

/-- The entries of the vector table. -/
inductive VectorEntry
  | report (number : ℕ)
  | irqCurrentSpx
  | syncLowerA64
  | irqLowerA64
  deriving DecidableEq

/-- `__exception_vectors` -/
def exceptionVectors : List VectorEntry := [
  .report 0, .report 1, .report 2, .report 3,
  .report 4, .irqCurrentSpx, .report 6, .report 7,
  .syncLowerA64, .irqLowerA64, .report 10, .report 11,
  .report 12, .report 13, .report 14, .report 15]

/-! ## The machine -/

/-- What happens to the system while user code runs. -/
inductive LiveOp
  | run (user : UserRun)
  | sync (esr : Word) (scratch : Scratch)
  | elapse (duration spent : ℕ) (scratch : Scratch)
  | serror (esr : Word) (scratch : Scratch)

inductive LiveResult
  | ran
  | elapsed
  | trapped
  | interrupted
  /-- the kernel has stopped before -/
  | halted
  deriving DecidableEq

namespace Core

/-- User code has run. -/
def userRan (core : Core) (user : UserRun) : Core :=
  { core with
    pc := user.pc
    cpu := { core.cpu with
      x := user.x
      sys := Function.update core.cpu.sys .spEl0 user.sp
      memory := storeAll (core.cpu.sys .ttbr0El1) core.cpu.memory user.stores
      flags := user.flags } }

/-- PSTATE.I -/
def irqMasked (core : Core) : Bool := core.kernel.interrupts.daif.getLsbD 1

/-- An exception of some kind goes where the vector table says. -/
def exception (layout : Layout) (kind : ExceptionKind) (esr : Word) (spent : ℕ)
    (scratch : Scratch) (core : Core) : Option Core :=
  match exceptionVectors[vectorOffset core.mode kind / 128]? with
  | some .syncLowerA64 => core.enter.vectorSyncLowerA64 layout esr scratch
  | some .irqLowerA64 => core.enter.vectorIrqLowerA64 layout spent scratch
  | some (.report number) => core.enter.report number esr
  -- exceptions of the kernel itself are the subject of another module
  | some .irqCurrentSpx | none => none

def step (layout : Layout) (core : Core) (op : LiveOp) : Option (LiveResult × Core) :=
  if core.halted then some (.halted, core)
  else if core.mode ≠ EL0t then none
  else
    match op with
    | .run user => some (.ran, core.userRan user)
    | .sync esr scratch => (core.exception layout .sync esr 0 scratch).map fun core =>
        (.trapped, core)
    | .elapse duration spent scratch =>
        let interrupts := core.kernel.interrupts.elapse duration
        let core := { core with kernel := { core.kernel with interrupts } }
        if interrupts.signalled.isSome && !core.irqMasked then
          (core.exception layout .irq 0 spent scratch).map fun core => (.interrupted, core)
        else some (.elapsed, core)
    | .serror esr scratch => (core.exception layout .serror esr 0 scratch).map fun core =>
        (.trapped, core)

end Core

/-- The kernel under user code. -/
def liveMachine (layout : Layout) (init : Core) : Machine Core LiveOp LiveResult where
  init := init
  step := Core.step layout

abbrev LiveEvent := Event Core LiveOp LiveResult

/-! ## The start of user code -/

/-- The context that a task is spawned with. -/
def initialContext (sp pc ttbr : Word) : UserContext where
  x := Vector.replicate 31 0
  spEl0 := sp
  elrEl1 := pc
  spsrEl1 := 0
  ttbr0El1 := ttbr

/-- `initialize_live_scheduler`; the assertions and `unwrap`s panic. -/
def initializeLiveScheduler (layout : Layout) (ttbr : Word) : Option (Scheduler 2) :=
  let contextA := initialContext (userStackATop layout) (userSymbol layout .userEntry) ttbr
  let contextB := initialContext (userStackBTop layout) (userSymbol layout .preemptBEntry) ttbr
  match Scheduler.spawn contextA Scheduler.new with
  | some (.ok taskA, scheduler) =>
      match Scheduler.spawn contextB scheduler with
      | some (.ok taskB, scheduler) =>
          if taskA = PREEMPT_TASK_A ∧ taskB = PREEMPT_TASK_B then
            match scheduler.schedule with
            | some (switch, scheduler) =>
                if switch.map Switch.next = some PREEMPT_TASK_A then some scheduler else none
            | none => none
          else none
      | _ => none
  | _ => none

/-- `launch_user_demo` up to `eret`. -/
def launchUserDemo (layout : Layout) : List Instr := [
  .ldrLiteral 0 (userStackATop layout),
  .msr .spEl0 0,
  .ldrLiteral 0 (userSymbol layout .userEntry),
  .msr .elrEl1 0,
  .mov 0 0,
  .msr .spsrEl1 0,
  .barrier]

/-- The end of `kernel_main`, from `runtime::initialize()` on, when no interrupt comes before
user code runs. -/
def enterSandbox (layout : Layout) (fuel : ℕ) (core : Core) : Option Core :=
  match Runtime.initializeRuntime with
  | some (.ok (), runtime) =>
      match initializeLiveScheduler layout (core.cpu.sys .ttbr0El1) with
      | none => none
      | some scheduler =>
          let k := { core.kernel with runtime, scheduler, switches := 0 }
          match k.interrupts.init fuel 20 with
          | none => none
          | some interrupts =>
              let k := ({ k with interrupts } : Statics).println .enteringSandbox
              match execBlock (launchUserDemo layout) core.cpu with
              | none => none
              | some cpu => some ({ core with cpu, kernel := k } : Core).eret
  | _ => none

end Aegis.Live
