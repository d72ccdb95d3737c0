import Mathlib
import Aegis.A64.Memory
import Aegis.Sched.Transition

/-!
# Timer preemption

A translation of the lower-EL IRQ path: the vector `vector_irq_lower_a64` of `vectors.S`,
which saves `x0` to `x30` on the kernel stack, calls the dispatcher and restores them, and
`schedule_lower_frame` of `main.rs`, which the dispatcher calls with the frame.  The state
is that of the scheduler and of the CPU.

The instructions that the compiler emits for the Rust code are not modelled.  What they do
to the registers `x0` to `x30` and to memory outside the frame is left open: it is the
`Scratch` that a preemption is given, and nothing is assumed of it.
-/

namespace Aegis.Preempt

open Foundation A64 Sched

variable {TASKS : ℕ}

/-! ## The vector -/

/-- The stores of `vector_irq_lower_a64`. -/
def saveRegisters : List Instr := [
  .stp 0 1 0,
  .stp 2 3 16,
  .stp 4 5 32,
  .stp 6 7 48,
  .stp 8 9 64,
  .stp 10 11 80,
  .stp 12 13 96,
  .stp 14 15 112,
  .stp 16 17 128,
  .stp 18 19 144,
  .stp 20 21 160,
  .stp 22 23 176,
  .stp 24 25 192,
  .stp 26 27 208,
  .stp 28 29 224,
  .str (.x 30) (.offset .sp 240)]

/-- `vector_irq_lower_a64` up to `bl lower_irq_dispatch`. -/
def vectorEntry : List Instr :=
  .subSp 256 :: (saveRegisters ++ [.movSp 0])

/-- The loads of `vector_irq_lower_a64`. -/
def loadRegisters : List Instr := [
  .ldp 0 1 0,
  .ldp 2 3 16,
  .ldp 4 5 32,
  .ldp 6 7 48,
  .ldp 8 9 64,
  .ldp 10 11 80,
  .ldp 12 13 96,
  .ldp 14 15 112,
  .ldp 16 17 128,
  .ldp 18 19 144,
  .ldp 20 21 160,
  .ldp 22 23 176,
  .ldp 24 25 192,
  .ldp 26 27 208,
  .ldp 28 29 224,
  .ldr 30 (.offset .sp 240)]

/-- `vector_irq_lower_a64` after the call, up to `eret`. -/
def vectorExit : List Instr :=
  loadRegisters ++ [.addSp 256]

/-! ## The dispatcher -/

/-- The 35 registers that a task sees. -/
def userContext (cpu : State) : UserContext where
  x := Vector.ofFn cpu.x
  spEl0 := cpu.sys .spEl0
  elrEl1 := cpu.sys .elrEl1
  spsrEl1 := cpu.sys .spsrEl1
  ttbr0El1 := cpu.sys .ttbr0El1

/-- The 31 words of a frame. -/
def readFrame (memory : Word → Word) (frame : Word) : Vector Word 31 :=
  Vector.ofFn fun i => memory (wordAt frame i)

def writeFrame (memory : Word → Word) (frame : Word) (x : Vector Word 31) : Word → Word :=
  overwrite memory ((List.finRange 31).map fun i : Fin 31 => (wordAt frame i, x[i]))

/-- The registers as the dispatcher finds them: `x0` to `x30` in the frame, the others
where they are. -/
def frameContext (cpu : State) (frame : Word) : UserContext :=
  { userContext cpu with x := readFrame cpu.memory frame }

/-- What `schedule_lower_frame` does under the scheduler: save the context of the current
task, select the next one and look its context up.  Each `?` returns early and keeps what
has been done so far. -/
def selectNext (context : UserContext) (scheduler : Scheduler TASKS) :
    Option (Option (TaskId × TaskId × UserContext) × Scheduler TASKS) :=
  match scheduler.current with
  | none => some (none, scheduler)
  | some previous =>
      match scheduler.context previous with
      | none => some (none, scheduler)
      -- every field of the copy is overwritten before it is saved
      | some _ =>
          match Scheduler.saveContext previous context scheduler with
          | none => none
          | some (.error _, scheduler) => some (none, scheduler)
          | some (.ok (), scheduler) =>
              match scheduler.schedule with
              | none => none
              | some (none, scheduler) => some (none, scheduler)
              | some (some switch, scheduler) =>
                  match scheduler.context switch.next with
                  | none => some (none, scheduler)
                  | some context => some (some (previous, switch.next, context), scheduler)

/-- The system registers with those of a context written to them. -/
def writeSystem (sys : SysReg → Word) (context : UserContext) : SysReg → Word
  | .spEl0 => context.spEl0
  | .elrEl1 => context.elrEl1
  | .spsrEl1 => context.spsrEl1
  | .ttbr0El1 => context.ttbr0El1
  | r => sys r

/-- Put a context into the frame and the system registers. -/
def loadContext (cpu : State) (frame : Word) (context : UserContext) : State :=
  { cpu with
    memory := writeFrame cpu.memory frame context.x
    sys := writeSystem cpu.sys context }

def scheduleLowerFrame (frame : Word) (scheduler : Scheduler TASKS) (cpu : State) :
    Option (Option (TaskId × TaskId) × Scheduler TASKS × State) :=
  match selectNext (frameContext cpu frame) scheduler with
  | none => none
  | some (none, scheduler) => some (none, scheduler, cpu)
  | some (some (previous, next, context), scheduler) =>
      some (some (previous, next), scheduler, loadContext cpu frame context)

/-- What compiled code leaves in the registers, the flags and the memory that are its to
use. -/
structure Scratch where
  x : Reg → Word
  memory : Word → Word
  flags : Flags

/-- The return to the vector: the stack pointer, the system registers and the frame are as
the dispatcher left them, all else is anything. -/
def returned (cpu : State) (frame : Word) (scratch : Scratch) : State :=
  { cpu with
    x := scratch.x
    memory := writeFrame scratch.memory frame (readFrame cpu.memory frame)
    flags := scratch.flags }

/-- A timer interrupt taken while a task runs. -/
def preempt (scratch : Scratch) (scheduler : Scheduler TASKS) (cpu : State) :
    Option (Option (TaskId × TaskId) × Scheduler TASKS × State) :=
  match execBlock vectorEntry cpu with
  | none => none
  | some entered =>
      match scheduleLowerFrame (entered.x 0) scheduler entered with
      | none => none
      | some (switched, scheduler, dispatched) =>
          (execBlock vectorExit (returned dispatched (entered.x 0) scratch)).map fun resumed =>
            (switched, scheduler, resumed)

/-! ## The system -/

structure System (TASKS : ℕ) where
  scheduler : Scheduler TASKS
  cpu : State

/-- What happens to the system. -/
inductive SystemOp
  | spawn (context : UserContext)
  | block (task : TaskId)
  | wake (task : TaskId)
  | fault (task : TaskId)
  /-- the `schedule()` that selects the first task -/
  | launch
  /-- the running task leaves these registers and this memory -/
  | run (context : UserContext) (memory : Word → Word)
  | preempt (scratch : Scratch)

inductive SystemResult
  | spawned (result : Except ScheduleError TaskId)
  | done (result : Except ScheduleError Unit)
  | launched (switch : Option Switch)
  | ran
  | preempted (switched : Option (TaskId × TaskId))

/-- The registers and the memory that a task can change. -/
def ran (cpu : State) (context : UserContext) (memory : Word → Word) : State :=
  { cpu with
    x := fun i => context.x[i]
    memory
    sys := writeSystem cpu.sys context }

def systemStep (system : System TASKS) : SystemOp → Option (SystemResult × System TASKS)
  | .spawn context => (Scheduler.spawn context system.scheduler).map
      fun (result, scheduler) => (.spawned result, { system with scheduler })
  | .block task => (Scheduler.block task system.scheduler).map
      fun (result, scheduler) => (.done result, { system with scheduler })
  | .wake task => (Scheduler.wake task system.scheduler).map
      fun (result, scheduler) => (.done result, { system with scheduler })
  | .fault task => (Scheduler.fault task system.scheduler).map
      fun (result, scheduler) => (.done result, { system with scheduler })
  | .launch => system.scheduler.schedule.map
      fun (switch, scheduler) => (.launched switch, { system with scheduler })
  | .run context memory => some (.ran, { system with cpu := ran system.cpu context memory })
  | .preempt scratch => (preempt scratch system.scheduler system.cpu).map
      fun (switched, scheduler, cpu) => (.preempted switched, { scheduler, cpu })

/-- The system, from `new()` and any state of the CPU. -/
def systemMachine (TASKS : ℕ) (cpu : State) : Machine (System TASKS) SystemOp SystemResult where
  init := ⟨Scheduler.new, cpu⟩
  step := systemStep

abbrev SystemEvent (TASKS : ℕ) := Event (System TASKS) SystemOp SystemResult

end Aegis.Preempt
