import Mathlib
import Aegis.Preempt.Switching

/-!
# When a tick resumes a task

`schedule_lower_frame` begins with the current task: it saves that task's context before it
asks the scheduler for the next one, and returns at once if there is none.  But a scheduler
without a current task may well have runnable ones.  A tick that finds every task blocked
leaves it without a current task, and a wake does not change that; from then on no tick
selects anything, although `schedule` would.  With a current task, runnable or not, a tick
always resumes a runnable task if there is one.
-/

namespace Aegis.Preempt

open Foundation A64 Sched

variable {TASKS : ℕ}

/-! ## The scheduler under a timer -/

/-- The operations of the scheduler, and timer ticks with any frame and CPU. -/
inductive TimerOp
  | call (op : SchedulerOp)
  | tick (frame : Word) (cpu : State)

inductive TimerResult
  | returned (result : SchedulerResult)
  | ticked (switched : Option (TaskId × TaskId)) (cpu : State)

/-- The scheduler, driven by its operations and by timer ticks from `new()`. -/
def timerMachine (TASKS : ℕ) : Machine (Scheduler TASKS) TimerOp TimerResult where
  init := Scheduler.new
  step scheduler op :=
    match op with
    | .call op => ((schedulerMachine TASKS).step scheduler op).map (Prod.map .returned id)
    | .tick frame cpu => (scheduleLowerFrame frame scheduler cpu).map
        fun (switched, scheduler, cpu) => (.ticked switched cpu, scheduler)

/-- A tick now resumes a runnable task: it is returned, it is the current task, and its
saved context is in the frame and the system registers. -/
def Resumes (frame : Word) (scheduler : Scheduler TASKS) (cpu : State) : Prop :=
  ∃ previous next scheduler' cpu',
    scheduleLowerFrame frame scheduler cpu = some (some (previous, next), scheduler', cpu') ∧
      scheduler'.state next = some .runnable ∧ scheduler'.current = some next ∧
      scheduler'.context next = some (frameContext cpu' frame)

/-! ## The current task is in use -/

/-- The current task, if any, is in range and in use. -/
def CurrentUsed (scheduler : Scheduler TASKS) : Prop :=
  ∀ current, scheduler.current = some current →
    ∃ t : Fin TASKS, current = t ∧ (scheduler.taskAt t).state ≠ .unused

section Steps

variable {s s' : Scheduler TASKS} {op : SchedulerOp} {r : SchedulerResult}

theorem CurrentUsed.valid (h : CurrentUsed s) : s.Valid := by
  intro current hcurrent
  obtain ⟨t, rfl, -⟩ := h current hcurrent
  exact t.isLt

theorem currentUsed_new : CurrentUsed (Scheduler.new : Scheduler TASKS) := by
  intro current hcurrent
  cases hcurrent

theorem CurrentUsed.transition (h : CurrentUsed s) (htrans : Transition s op r s') :
    CurrentUsed s' := by
  have hstate := htrans.current_state (P := (· ≠ .unused)) nofun SchedulerOp.writes_used
    fun t ht => by
      obtain ⟨u, hu, hused⟩ := h t ht
      obtain rfl : t = u := Fin.ext hu
      exact hused
  intro current hcurrent
  have hlt := htrans.valid h.valid current hcurrent
  lift current to Fin TASKS using hlt
  exact ⟨current, rfl, hstate current hcurrent⟩

/-- A tick is a save and a schedule, or nothing. -/
theorem CurrentUsed.selectNext (h : CurrentUsed s) (context : UserContext) :
    ∃ selected s', selectNext context s = some (selected, s') ∧ CurrentUsed s' := by
  cases hcurrent : s.current with
  | none => exact ⟨none, s, selectNext_idle hcurrent, h⟩
  | some p =>
      obtain ⟨p, rfl, hused⟩ := h p hcurrent
      obtain ⟨switch, s', htrans, hselect⟩ := selectNext_eq context h.valid hcurrent hused
      have hop : (SchedulerOp.saveContext p context).writes =
        some (p.val, fun entry => { entry with context }) := rfl
      have hsaved : CurrentUsed (s.setTask p { s.taskAt p with context }) :=
        h.transition (.wrote hop hused)
      exact ⟨_, s', hselect, hsaved.transition htrans⟩

theorem CurrentUsed.scheduleLowerFrame (h : CurrentUsed s) (frame : Word) (cpu : State) :
    ∃ switched s' cpu', scheduleLowerFrame frame s cpu = some (switched, s', cpu') ∧
      CurrentUsed s' := by
  obtain ⟨selected, s', hselect, hnext⟩ := h.selectNext (frameContext cpu frame)
  cases selected with
  | none => exact ⟨none, s', cpu, by rw [Preempt.scheduleLowerFrame, hselect], hnext⟩
  | some selected => exact ⟨_, s', _, by rw [Preempt.scheduleLowerFrame, hselect], hnext⟩

theorem CurrentUsed.exec (ops : List TimerOp) :
    ∃ es s, (timerMachine TASKS).exec Scheduler.new ops = some (es, s) ∧ CurrentUsed s := by
  refine Machine.exec_of_invariant (fun _ => CurrentUsed) currentUsed_new ?_ ops
  intro es s op h
  cases op with
  | call op =>
      obtain ⟨r, s', hstep, htrans⟩ := step_transition h.valid op
      exact ⟨.returned r, s', Option.map_eq_some_iff.mpr ⟨_, hstep, rfl⟩, h.transition htrans⟩
  | tick frame cpu =>
      obtain ⟨switched, s', cpu', hframe, hnext⟩ := h.scheduleLowerFrame frame cpu
      exact ⟨.ticked switched cpu', s', Option.map_eq_some_iff.mpr ⟨_, hframe, rfl⟩, hnext⟩

/-! ## The tick -/

/-- Without a current task a tick does nothing. -/
theorem scheduleLowerFrame_idle (h : s.current = none) (frame : Word) (cpu : State) :
    scheduleLowerFrame frame s cpu = some (none, s, cpu) := by
  rw [scheduleLowerFrame, selectNext_idle h]

theorem CurrentUsed.resumes (h : CurrentUsed s) (hcurrent : s.current ≠ none)
    (hrun : ∃ task, s.state task = some .runnable) (frame : Word) (cpu : State) :
    Resumes frame s cpu := by
  obtain ⟨p, hp⟩ := Option.ne_none_iff_exists'.mp hcurrent
  obtain ⟨p, rfl, hused⟩ := h p hp
  obtain ⟨task, htask⟩ := hrun
  obtain ⟨t, rfl, ht⟩ := Scheduler.state_eq_some.mp htask
  obtain ⟨next, s', hselect, hcurrent', hnext, -⟩ :=
    selectNext_of_runnable (frameContext cpu frame) h.valid hp hused ⟨t, ht⟩
  refine ⟨p, next, s', loadContext cpu frame (s'.taskAt next).context, ?_, ?_, hcurrent', ?_⟩
  · rw [Preempt.scheduleLowerFrame, hselect]
  · rw [Scheduler.state_coe, hnext]
  · rw [frameContext_loadContext, Scheduler.context_coe (by rw [hnext]; nofun)]

end Steps

/-- **A tick resumes a runnable task exactly if there is a current one.**  In every state
that operations and ticks lead to, and in which some task is runnable, a tick with any frame
and CPU resumes a runnable task if and only if the scheduler has a current task. -/
theorem tick_resumes_iff_current (ops : List TimerOp) :
    ∃ es s, (timerMachine TASKS).exec Scheduler.new ops = some (es, s) ∧
      ∀ frame cpu, (∃ task, s.state task = some .runnable) →
        (Resumes frame s cpu ↔ s.current ≠ none) := by
  obtain ⟨es, s, hexec, hused⟩ := CurrentUsed.exec ops
  refine ⟨es, s, hexec, fun frame cpu hrun => ⟨?_, fun h => hused.resumes h hrun frame cpu⟩⟩
  rintro ⟨previous, next, s', cpu', htick, -⟩ hnone
  rw [scheduleLowerFrame_idle hnone] at htick
  cases htick

/-- A CPU with nothing in it. -/
def blankCpu : State where
  x _ := 0
  sp := 0
  sys _ := 0
  memory _ := 0
  flags := .clear

/-- One task runs and blocks, a tick finds nothing to run, and the task is woken. -/
def wokenAfterIdle : List TimerOp := [
  .call (.spawn .empty),
  .call .schedule,
  .call (.block 0),
  .tick 0 blankCpu,
  .call (.wake 0)]

/-- **A woken task that no tick resumes.**  After an idle tick and a wake, task 0 is
runnable, and the next tick returns `None` and changes nothing, whatever frame and CPU it
comes with; `schedule` would select the task. -/
theorem woken_task_not_resumed :
    ∃ es s, (timerMachine 1).exec Scheduler.new wokenAfterIdle = some (es, s) ∧
      s.state 0 = some .runnable ∧
      (∀ frame cpu, scheduleLowerFrame frame s cpu = some (none, s, cpu)) ∧
      (s.schedule.map Prod.fst) = some (some { previous := none, next := 0 }) :=
  ⟨_, _, rfl, rfl, fun _ _ => rfl, rfl⟩

end Aegis.Preempt
