import Mathlib
import Aegis.Foundation.Call
import Aegis.Foundation.RoundRobin

/-!
# The scheduler

A translation of `scheduler.rs`: a table of tasks with their saved contexts, and the task
that runs.  Task numbers are natural numbers (`usize` arguments of any value).  The
operations check the numbers they are given; `schedule` uses its own `current` to index
without a check, and the model panics where that index is out of bounds.

Machine words are bit vectors, and the tick counter wraps around, as it does in the
release build.
-/

namespace Aegis.Sched

open Foundation

abbrev TaskId := ℕ

/-- The registers of a task while it does not run. -/
structure UserContext where
  x : Vector (BitVec 64) 31
  spEl0 : BitVec 64
  elrEl1 : BitVec 64
  spsrEl1 : BitVec 64
  ttbr0El1 : BitVec 64
  deriving DecidableEq

/-- `UserContext::empty()` -/
def UserContext.empty : UserContext where
  x := Vector.replicate 31 0
  spEl0 := 0
  elrEl1 := 0
  spsrEl1 := 0
  ttbr0El1 := 0

/-- The states of an entry.  An entry that is in use is never unused again. -/
inductive TaskState
  | unused
  | runnable
  | blocked
  | faulted
  deriving DecidableEq, Repr

/-- An entry of the table. -/
structure Task where
  state : TaskState
  context : UserContext
  runtimeTicks : BitVec 64
  deriving DecidableEq

def EMPTY_TASK : Task where
  state := .unused
  context := .empty
  runtimeTicks := 0

/-- Why an operation is refused; nothing in the source returns the last of them. -/
inductive ScheduleError
  | noTaskSlot
  | badTask
  | notRunnable
  deriving DecidableEq, Repr

/-- What `schedule` reports: who ran, and who runs now.  The two may be the same. -/
structure Switch where
  previous : Option TaskId
  next : TaskId
  deriving DecidableEq, Repr

/-- The table, and the task that runs, if any. -/
structure Scheduler (TASKS : ℕ) where
  tasks : Vector Task TASKS
  current : Option TaskId
  deriving DecidableEq

namespace Scheduler

variable {TASKS : ℕ}

def new : Scheduler TASKS where
  tasks := Vector.replicate TASKS EMPTY_TASK
  current := none

/-- The first entry that is unused becomes a runnable task. -/
def spawn (context : UserContext) : Call (Scheduler TASKS) ScheduleError TaskId :=
  fun scheduler =>
    match (List.finRange TASKS).find? fun id =>
        (getElem scheduler.tasks id id.isLt).state = .unused with
    | none => some (.error .noTaskSlot, scheduler)
    | some id => some (.ok id, { scheduler with
        tasks := scheduler.tasks.set id { state := .runnable, context, runtimeTicks := 0 }
          id.isLt })

/-- Charge the tick to the current task, if it is still runnable. -/
def tick (scheduler : Scheduler TASKS) : Option (Scheduler TASKS) :=
  match scheduler.current with
  | none => some scheduler
  | some current =>
      if h : current < TASKS then
        let task := scheduler.tasks[current]
        if task.state = .runnable then
          some { scheduler with
            tasks := scheduler.tasks.set current
              { task with runtimeTicks := task.runtimeTicks + 1 } }
        else some scheduler
      else none

/-- Where the search for the next task begins. -/
def start (scheduler : Scheduler TASKS) : ℕ :=
  match scheduler.current with
  | none => 0
  | some id => (id + 1) % TASKS

/-- Whether `self.tasks[task].state` is `Runnable`; no other index is asked for. -/
def isRunnable (scheduler : Scheduler TASKS) (task : TaskId) : Bool :=
  scheduler.tasks[task]?.any fun entry => entry.state = .runnable

/-- The next runnable task, in cyclic order after the one that runs.  That one comes last, and is
selected again if it is the only one; if there is none, nothing runs. -/
def schedule (scheduler : Scheduler TASKS) : Option (Option Switch × Scheduler TASKS) :=
  match scheduler.tick with
  | none => none
  | some ticked =>
      match cyclicFind TASKS ticked.start ticked.isRunnable with
      | some candidate => some (some { previous := ticked.current, next := candidate },
          { ticked with current := some candidate })
      | none => some (none, { ticked with current := none })

/-- Write an entry that is in range and in use. -/
def writeTask (task : TaskId) (write : Task → Task) :
    Call (Scheduler TASKS) ScheduleError Unit := fun scheduler =>
  if h : task < TASKS then
    if scheduler.tasks[task].state = .unused then some (.error .badTask, scheduler)
    else some (.ok (), { scheduler with
      tasks := scheduler.tasks.set task (write scheduler.tasks[task]) })
  else some (.error .badTask, scheduler)

def setState (task : TaskId) (state : TaskState) : Call (Scheduler TASKS) ScheduleError Unit :=
  writeTask task fun entry => { entry with state }

/-- A blocked task stays `current`, until the next call of `schedule`. -/
def block (task : TaskId) : Call (Scheduler TASKS) ScheduleError Unit :=
  setState task .blocked

/-- Any task in use, a faulted one too. -/
def wake (task : TaskId) : Call (Scheduler TASKS) ScheduleError Unit :=
  writeTask task fun entry => { entry with state := .runnable }

def fault (task : TaskId) : Call (Scheduler TASKS) ScheduleError Unit :=
  setState task .faulted

/-- The context of any task in use, whether or not it runs. -/
def saveContext (task : TaskId) (context : UserContext) :
    Call (Scheduler TASKS) ScheduleError Unit :=
  writeTask task fun entry => { entry with context }

def state (scheduler : Scheduler TASKS) (task : TaskId) : Option TaskState :=
  scheduler.tasks[task]?.map Task.state

def runtimeTicks (scheduler : Scheduler TASKS) (task : TaskId) : Option (BitVec 64) :=
  scheduler.tasks[task]?.map Task.runtimeTicks

/-- The context of a task; an entry that is not in use has none. -/
def context (scheduler : Scheduler TASKS) (task : TaskId) : Option UserContext :=
  (scheduler.tasks[task]?.filter fun entry => entry.state ≠ .unused).map Task.context

end Scheduler

/-! ## The scheduler as a machine -/

/-- The operations that change the scheduler, with arbitrary arguments. -/
inductive SchedulerOp
  | spawn (context : UserContext)
  | schedule
  | block (task : TaskId)
  | wake (task : TaskId)
  | fault (task : TaskId)
  | saveContext (task : TaskId) (context : UserContext)
  deriving DecidableEq

/-- What the operations return. -/
inductive SchedulerResult
  | spawned (result : Except ScheduleError TaskId)
  | switched (switch : Option Switch)
  | done (result : Except ScheduleError Unit)
  deriving DecidableEq

/-- The scheduler, driven by its operations from `new()`. -/
def schedulerMachine (TASKS : ℕ) : Machine (Scheduler TASKS) SchedulerOp SchedulerResult where
  init := Scheduler.new
  step scheduler op :=
    match op with
    | .spawn context => (Scheduler.spawn context scheduler).map (Prod.map .spawned id)
    | .schedule => scheduler.schedule.map (Prod.map .switched id)
    | .block task => (Scheduler.block task scheduler).map (Prod.map .done id)
    | .wake task => (Scheduler.wake task scheduler).map (Prod.map .done id)
    | .fault task => (Scheduler.fault task scheduler).map (Prod.map .done id)
    | .saveContext task context =>
        (Scheduler.saveContext task context scheduler).map (Prod.map .done id)

abbrev SchedulerEvent (TASKS : ℕ) := Event (Scheduler TASKS) SchedulerOp SchedulerResult

end Aegis.Sched
