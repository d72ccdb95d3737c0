import Mathlib
import Aegis.Irq.Alarm
import Aegis.Live.Model
import Aegis.Runtime.Protocol

/-!
# What user code sees of the kernel

Two tasks take turns: an alarm interrupts the running one, and the other continues where it
was.  A trap is answered by the protocol of the runtime and by lines on the console, and may
send the running task to one of three places in the user text.  Of memory there are the two
stacks.

There is no frame on a kernel stack here, no scheduler table, no interrupt controller, no
translation table and no capability.  `Aegis.Live.Refinement` shows that the live kernel does
what this machine does, for user code of any kind.
-/

namespace Aegis.Live

open Foundation A64 Preempt Boot Irq

instance twoTasks : NeZero 2 := ⟨by decide⟩

/-- The registers of a task, its program counter and its flags. -/
structure UserTask where
  x : Reg → Word
  sp : Word
  pc : Word
  flags : Flags

/-- Two tasks and what they share: the stacks, the alarm, the runtime and the console. -/
structure Sandbox where
  running : UserTask
  waiting : UserTask
  /-- the task that runs -/
  current : Fin 2
  /-- what is in the two stacks -/
  memory : Word → Word
  alarm : Alarm
  switches : BitVec 64
  phase : Phase
  console : List Output
  halted : Bool

/-- The address lies in one of the two user stacks. -/
def InStack (layout : Layout) (address : Word) : Prop :=
  InPage layout.userStackABottom address ∨ InPage layout.userStackBBottom address

instance (layout : Layout) (address : Word) : Decidable (InStack layout address) :=
  inferInstanceAs (Decidable (_ ∨ _))

/-- Stores go to the stacks, or nowhere. -/
def storeStacks (layout : Layout) (memory : Word → Word) (stores : List (Word × Word)) :
    Word → Word :=
  stores.foldl (fun memory store =>
    if InStack layout store.1 ∧ Aligned store.1 then Function.update memory store.1 store.2
    else memory) memory

/-- What a trap asks for. -/
inductive Trap
  /-- `svc #0` -/
  | yield
  /-- `svc #10` -/
  | send
  /-- `svc #11` -/
  | reply
  /-- `svc #12` -/
  | probe
  /-- `svc #2` -/
  | finish
  /-- any other `svc` -/
  | ignored
  /-- a load or store that is not allowed -/
  | dataAbort
  | unexpected
  deriving DecidableEq

/-- The exception class is in bits 31 to 26 of the syndrome, the number of the `svc` in the low
bits. -/
def Trap.of (esr : Word) : Trap :=
  if esr >>> 26 = 0x15 then
    let immediate := esr &&& 0xffff
    if immediate = 0 then .yield
    else if immediate = 10 then .send
    else if immediate = 11 then .reply
    else if immediate = 12 then .probe
    else if immediate = 2 then .finish
    else .ignored
  else if esr >>> 26 = 0x24 then .dataAbort
  else .unexpected

namespace Sandbox

variable (layout : Layout) (a : Sandbox)

def print (outputs : List Output) : Sandbox := { a with console := a.console ++ outputs }

def halt : Sandbox := { a with halted := true }

/-- The running task continues elsewhere. -/
def continueAt (sp pc : Word) : Sandbox := { a with running := { a.running with sp, pc } }

/-- The callee-saved registers that the program of task A sets, and two switches. -/
def registersIntact : Bool :=
  (a.running.x 19 = 0x19 ∧ a.running.x 20 = 0x20 ∧ a.running.x 21 = 0x21) ∧ a.switches = 2

/-- The low byte of `x0`. -/
def argument : UInt8 := .ofBitVec ((a.running.x 0).setWidth 8)

/-- The first call is accepted: the byte is kept for the server, and the running task becomes the
server, at its entry and on the other stack. -/
def send : Sandbox :=
  match a.phase with
  | .idle => ({ a with phase := .serving a.argument }.continueAt (userStackBTop layout)
      (userSymbol layout .userBEntry)).print [.line .callReceived]
  | .serving _ | .closed => a.print [.line .callDenied]

/-- The byte of the call is written, the running task is the caller again, and the endpoint is
revoked, so that there is no second call. -/
def reply : Sandbox :=
  match a.phase with
  | .serving byte => ({ a with phase := .closed }.continueAt (userStackATop layout)
      (userSymbol layout .userAResumed)).print
        [.byte byte, .line .authorizedWrite, .line .replied, .line (.subtreeRevoked 2)]
  | .idle | .closed => a.print [.line .unauthorizedCaller]

/-- A call of byte 66, which is turned down once there has been another. -/
def probe : Sandbox :=
  match a.phase with
  | .idle => { a with phase := .serving 66 }.print [.line .revokedCallAuthorized]
  | .serving _ | .closed => a.print [.line .callDenied]

/-- The answer to a trap of the running task. -/
def trap (esr : Word) : Sandbox :=
  match Trap.of esr with
  | .yield => a.print [.line .yielded, .line (.registerIntegrity a.registersIntact)]
  | .send => a.send layout
  | .reply => a.reply layout
  | .probe => a.probe
  | .finish => (a.print [.line .recovered, .line .complete]).halt
  | .ignored => a
  | .dataAbort => (a.continueAt a.running.sp (userSymbol layout .userAfterFault)).print
      [.line .uartDenied]
  | .unexpected => (a.print [.line (.fault 8 esr 0)]).halt

/-- The running task is interrupted and the other one continues; when it is task A again, the
alarm is stopped. -/
def preempt (period spent : ℕ) : Sandbox :=
  let a := { a with
    running := a.waiting
    waiting := a.running
    current := a.current + 1
    switches := a.switches + 1
    alarm := (a.alarm.acknowledge period).2.elapse spent }
  if a.current = 1 then a.print [.line .switchedToB]
  else { a with alarm := a.alarm.stop }.print [.line .restoredA]

/-- User code has run. -/
def userRan (user : UserRun) : Sandbox :=
  { a with
    running := ⟨user.x, user.sp, user.pc, user.flags⟩
    memory := storeStacks layout a.memory user.stores }

/-- One operation.  The alarm goes off only while time passes. -/
def step (period : ℕ) (op : LiveOp) : LiveResult × Sandbox :=
  if a.halted then (.halted, a)
  else
    match op with
    | .run user => (.ran, a.userRan layout user)
    | .sync esr _ => (.trapped, a.trap layout esr)
    | .elapse duration spent _ =>
        let a := { a with alarm := a.alarm.elapse duration }
        if a.alarm.due then (.interrupted, a.preempt period spent) else (.elapsed, a)
    | .serror esr _ => (.trapped, (a.print [.line (.fault 11 esr a.running.pc)]).halt)

end Sandbox

/-! ## One operation -/

section Step

variable {layout : Layout} (a : Sandbox) {period : ℕ} (hlive : a.halted = false)

theorem Sandbox.step_halted (hhalted : a.halted = true) (op : LiveOp) :
    a.step layout period op = (.halted, a) := by
  rw [Sandbox.step.eq_def, if_pos hhalted]

include hlive

theorem Sandbox.step_run (user : UserRun) :
    a.step layout period (.run user) = (.ran, a.userRan layout user) := by
  rw [Sandbox.step.eq_def, if_neg (Bool.eq_false_iff.mp hlive)]

theorem Sandbox.step_sync (esr : Word) (scratch : Scratch) :
    a.step layout period (.sync esr scratch) = (.trapped, a.trap layout esr) := by
  rw [Sandbox.step.eq_def, if_neg (Bool.eq_false_iff.mp hlive)]

theorem Sandbox.step_elapse (duration spent : ℕ) (scratch : Scratch) :
    a.step layout period (.elapse duration spent scratch) =
      if (a.alarm.elapse duration).due then
        (.interrupted, { a with alarm := a.alarm.elapse duration }.preempt period spent)
      else (.elapsed, { a with alarm := a.alarm.elapse duration }) := by
  rw [Sandbox.step.eq_def, if_neg (Bool.eq_false_iff.mp hlive)]

theorem Sandbox.step_serror (esr : Word) (scratch : Scratch) :
    a.step layout period (.serror esr scratch) =
      (.trapped, (a.print [.line (.fault 11 esr a.running.pc)]).halt) := by
  rw [Sandbox.step.eq_def, if_neg (Bool.eq_false_iff.mp hlive)]

end Step

/-! ## What a trap leaves alone -/

/-- The turns, the alarm and the memory are the same. -/
structure SameTurn (a a' : Sandbox) : Prop where
  current : a'.current = a.current
  waiting : a'.waiting = a.waiting
  alarm : a'.alarm = a.alarm
  switches : a'.switches = a.switches
  memory : a'.memory = a.memory

section SameTurn

variable (a : Sandbox)

theorem SameTurn.print (outputs : List Output) : SameTurn a (a.print outputs) :=
  ⟨rfl, rfl, rfl, rfl, rfl⟩

theorem SameTurn.continueAt (phase : Phase) (sp pc : Word) (outputs : List Output) :
    SameTurn a (({ a with phase }.continueAt sp pc).print outputs) :=
  ⟨rfl, rfl, rfl, rfl, rfl⟩

theorem Sandbox.trap_sameTurn (layout : Layout) (esr : Word) : SameTurn a (a.trap layout esr) := by
  unfold Sandbox.trap
  split
  · exact .print a _
  · unfold Sandbox.send
    split
    · exact .continueAt a _ _ _ _
    · exact .print a _
    · exact .print a _
  · unfold Sandbox.reply
    split
    · exact .continueAt a _ _ _ _
    · exact .print a _
    · exact .print a _
  · unfold Sandbox.probe
    split
    · exact ⟨rfl, rfl, rfl, rfl, rfl⟩
    · exact .print a _
    · exact .print a _
  · exact ⟨rfl, rfl, rfl, rfl, rfl⟩
  · exact ⟨rfl, rfl, rfl, rfl, rfl⟩
  · exact .continueAt a _ _ _ _
  · exact ⟨rfl, rfl, rfl, rfl, rfl⟩

end SameTurn

@[simp] theorem Sandbox.preempt_memory (a : Sandbox) (period spent : ℕ) :
    (a.preempt period spent).memory = a.memory := by
  simp only [Sandbox.preempt]
  split_ifs <;> rfl

/-- Two tasks that take turns. -/
def sandboxMachine (layout : Layout) (period : ℕ) (init : Sandbox) :
    Machine Sandbox LiveOp LiveResult where
  init := init
  step a op := some (a.step layout period op)

end Aegis.Live
