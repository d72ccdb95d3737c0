import Mathlib
import Aegis.Sched.Model

/-!
# What a scheduler operation can do

`Transition` lists what one operation can do to a scheduler whose current task is in
range: be refused, fill an unused slot, write to a slot in use, or move on to another
task.  `step_transition` says that every operation returns and does one of these.
-/

namespace Aegis.Sched

open Foundation

variable {TASKS : ℕ}

namespace Scheduler

/-- The task in range with a given number. -/
def taskAt (scheduler : Scheduler TASKS) (t : Fin TASKS) : Task :=
  getElem scheduler.tasks t t.isLt

/-- Overwrite a task. -/
def setTask (scheduler : Scheduler TASKS) (t : Fin TASKS) (task : Task) : Scheduler TASKS :=
  { scheduler with tasks := scheduler.tasks.set t task t.isLt }

@[simp] theorem taskAt_setTask (scheduler : Scheduler TASKS) (t : Fin TASKS) (task : Task) :
    (scheduler.setTask t task).taskAt = Function.update scheduler.taskAt t task := by
  funext u
  rcases eq_or_ne u t with rfl | hu
  · simp [taskAt, setTask]
  · have : t.val ≠ u.val := fun h => hu (Fin.ext h.symm)
    simp [taskAt, setTask, hu, this]

@[simp] theorem current_setTask (scheduler : Scheduler TASKS) (t : Fin TASKS) (task : Task) :
    (scheduler.setTask t task).current = scheduler.current := rfl

@[simp] theorem taskAt_new (t : Fin TASKS) : (new : Scheduler TASKS).taskAt t = EMPTY_TASK := by
  simp [taskAt, new]

section Queries

variable {scheduler : Scheduler TASKS}

theorem state_coe (t : Fin TASKS) : scheduler.state t = some (scheduler.taskAt t).state := by
  simp [state, taskAt]

theorem state_absent {task : TaskId} (h : TASKS ≤ task) : scheduler.state task = none := by
  simp [state, h]

/-- A task number with a state is in range. -/
theorem state_eq_some {task : TaskId} {st : TaskState} :
    scheduler.state task = some st ↔
      ∃ t : Fin TASKS, task = t ∧ (scheduler.taskAt t).state = st := by
  constructor
  · intro h
    by_cases hlt : task < TASKS
    · lift task to Fin TASKS using hlt
      rw [state_coe, Option.some.injEq] at h
      exact ⟨task, rfl, h⟩
    · rw [state_absent (Nat.le_of_not_lt hlt)] at h
      cases h
  · rintro ⟨t, rfl, rfl⟩
    exact state_coe t

theorem runtimeTicks_coe (t : Fin TASKS) :
    scheduler.runtimeTicks t = some (scheduler.taskAt t).runtimeTicks := by
  simp [runtimeTicks, taskAt]

theorem isRunnable_iff {task : TaskId} :
    scheduler.isRunnable task = true ↔ scheduler.state task = some .runnable := by
  by_cases hlt : task < TASKS
  · simp [isRunnable, state, hlt]
  · simp [isRunnable, state, Nat.le_of_not_lt hlt]

theorem isRunnable_coe {t : Fin TASKS} :
    scheduler.isRunnable t = true ↔ (scheduler.taskAt t).state = .runnable := by
  rw [isRunnable_iff, state_coe, Option.some.injEq]

theorem context_coe {t : Fin TASKS} (h : (scheduler.taskAt t).state ≠ .unused) :
    scheduler.context t = some (scheduler.taskAt t).context := by
  have h' : scheduler.tasks[t.val].state ≠ .unused := h
  simp [context, taskAt, h']

theorem context_unused {t : Fin TASKS} (h : (scheduler.taskAt t).state = .unused) :
    scheduler.context t = none := by
  have h' : scheduler.tasks[t.val].state = .unused := h
  simp [context, Option.filter, h']

theorem context_absent {task : TaskId} (h : TASKS ≤ task) : scheduler.context task = none := by
  simp [context, h]

theorem context_congr {scheduler' : Scheduler TASKS} {t : Fin TASKS}
    (hstate : (scheduler'.taskAt t).state = (scheduler.taskAt t).state)
    (hcontext : (scheduler'.taskAt t).context = (scheduler.taskAt t).context) :
    scheduler'.context t = scheduler.context t := by
  by_cases hused : (scheduler.taskAt t).state = .unused
  · rw [context_unused hused, context_unused (hstate.trans hused)]
  · rw [context_coe hused, context_coe (by rwa [hstate]), hcontext]

end Queries

/-- The current task is in range. -/
def Valid (scheduler : Scheduler TASKS) : Prop :=
  ∀ current, scheduler.current = some current → current < TASKS

theorem start_lt (scheduler : Scheduler TASKS) (h : 0 < TASKS) : scheduler.start < TASKS := by
  unfold start
  cases scheduler.current with
  | none => exact h
  | some id => exact Nat.mod_lt _ h

/-- What the search of `schedule` finds is runnable. -/
theorem runnable_of_cyclicFind {scheduler : Scheduler TASKS} {next : Fin TASKS}
    (h : cyclicFind TASKS scheduler.start scheduler.isRunnable = some next.val) :
    (scheduler.taskAt next).state = .runnable :=
  isRunnable_coe.mp (cyclicFind_eq_some scheduler.start_lt h).2.1

/-- One more tick for the current task, if it is runnable. -/
def charge (scheduler : Scheduler TASKS) (t : Fin TASKS) : Task :=
  if scheduler.current = some t.val ∧ (scheduler.taskAt t).state = .runnable then
    { scheduler.taskAt t with runtimeTicks := (scheduler.taskAt t).runtimeTicks + 1 }
  else scheduler.taskAt t

@[simp] theorem charge_state (scheduler : Scheduler TASKS) (t : Fin TASKS) :
    (scheduler.charge t).state = (scheduler.taskAt t).state := by
  unfold charge
  split <;> rfl

@[simp] theorem charge_context (scheduler : Scheduler TASKS) (t : Fin TASKS) :
    (scheduler.charge t).context = (scheduler.taskAt t).context := by
  unfold charge
  split <;> rfl

theorem tick_eq {scheduler : Scheduler TASKS} (valid : scheduler.Valid) :
    ∃ ticked, scheduler.tick = some ticked ∧ ticked.taskAt = scheduler.charge ∧
      ticked.current = scheduler.current := by
  unfold tick
  cases hcurrent : scheduler.current with
  | none =>
      refine ⟨scheduler, rfl, ?_, hcurrent⟩
      funext t
      simp [charge, hcurrent]
  | some current =>
      have hlt := valid current hcurrent
      lift current to Fin TASKS using hlt
      by_cases hrun : (scheduler.taskAt current).state = .runnable
      · refine ⟨scheduler.setTask current { scheduler.taskAt current with
          runtimeTicks := (scheduler.taskAt current).runtimeTicks + 1 }, ?_, ?_, hcurrent⟩
        · have hrun' : scheduler.tasks[current.val].state = .runnable := hrun
          simp [setTask, taskAt, hcurrent, hrun']
        · rw [taskAt_setTask]
          funext t
          rcases eq_or_ne t current with rfl | ht
          · simp [charge, hcurrent, hrun]
          · have : current.val ≠ t.val := fun h => ht (Fin.ext h.symm)
            simp [charge, hcurrent, ht, this]
      · refine ⟨scheduler, ?_, ?_, hcurrent⟩
        · have hrun' : scheduler.tasks[current.val].state ≠ .runnable := hrun
          simp only [current.isLt, dite_true, hrun', if_false]
        · funext t
          rw [charge, if_neg]
          rintro ⟨hc, ht⟩
          rw [hcurrent, Option.some.injEq] at hc
          exact hrun (Fin.ext hc ▸ ht)

end Scheduler

/-- What an operation writes to a slot in use, and which. -/
def SchedulerOp.writes : SchedulerOp → Option (TaskId × (Task → Task))
  | .block task => some (task, fun entry => { entry with state := .blocked })
  | .wake task => some (task, fun entry => { entry with state := .runnable })
  | .fault task => some (task, fun entry => { entry with state := .faulted })
  | .saveContext task context => some (task, fun entry => { entry with context })
  | .spawn _ | .schedule => none

section Writes

variable {op : SchedulerOp} {task : TaskId} {write : Task → Task}

/-- A write keeps the state of the task, unless the operation is one of the three that set
it. -/
theorem SchedulerOp.writes_state (hop : op.writes = some (task, write)) (entry : Task) :
    (write entry).state = entry.state ∨
      op = .block task ∧ (write entry).state = .blocked ∨
      op = .fault task ∧ (write entry).state = .faulted ∨
      op = .wake task ∧ (write entry).state = .runnable := by
  cases op with
  | saveContext =>
      cases hop
      exact .inl rfl
  | block =>
      cases hop
      exact .inr (.inl ⟨rfl, rfl⟩)
  | fault =>
      cases hop
      exact .inr (.inr (.inl ⟨rfl, rfl⟩))
  | wake =>
      cases hop
      exact .inr (.inr (.inr ⟨rfl, rfl⟩))
  | spawn => cases hop
  | schedule => cases hop

/-- No write takes a task out of use. -/
theorem SchedulerOp.writes_used {entry : Task} (hop : op.writes = some (task, write))
    (hused : entry.state ≠ .unused) : (write entry).state ≠ .unused := by
  rcases writes_state hop entry with h | ⟨-, h⟩ | ⟨-, h⟩ | ⟨-, h⟩
  · rwa [h]
  · rw [h]
    nofun
  · rw [h]
    nofun
  · rw [h]
    nofun

/-- No write touches the ticks. -/
theorem SchedulerOp.writes_runtimeTicks (hop : op.writes = some (task, write)) (entry : Task) :
    (write entry).runtimeTicks = entry.runtimeTicks := by
  cases op with
  | saveContext => cases hop; rfl
  | block => cases hop; rfl
  | fault => cases hop; rfl
  | wake => cases hop; rfl
  | spawn => cases hop
  | schedule => cases hop

end Writes

/-- **What an operation can do**, and what it returns. -/
inductive Transition (s : Scheduler TASKS) :
    SchedulerOp → SchedulerResult → Scheduler TASKS → Prop
  | full {context : UserContext} (h : ∀ t, (s.taskAt t).state ≠ .unused) :
      Transition s (.spawn context) (.spawned (.error .noTaskSlot)) s
  | spawned {context : UserContext} {id : Fin TASKS} (h : (s.taskAt id).state = .unused)
      (first : ∀ t < id, (s.taskAt t).state ≠ .unused) :
      Transition s (.spawn context) (.spawned (.ok id))
        (s.setTask id { state := .runnable, context, runtimeTicks := 0 })
  | refused {op : SchedulerOp} {task : TaskId} {write : Task → Task}
      (hop : op.writes = some (task, write))
      (h : s.state task = none ∨ s.state task = some .unused) :
      Transition s op (.done (.error .badTask)) s
  | wrote {op : SchedulerOp} {t : Fin TASKS} {write : Task → Task}
      (hop : op.writes = some (t.val, write)) (h : (s.taskAt t).state ≠ .unused) :
      Transition s op (.done (.ok ())) (s.setTask t (write (s.taskAt t)))
  | idle {s' : Scheduler TASKS} (h : ∀ t, (s.taskAt t).state ≠ .runnable)
      (tasks : s'.taskAt = s.charge) (current : s'.current = none) :
      Transition s .schedule (.switched none) s'
  | switched {s' : Scheduler TASKS} {next : Fin TASKS}
      (h : cyclicFind TASKS s.start s.isRunnable = some next.val)
      (tasks : s'.taskAt = s.charge) (current : s'.current = some next.val) :
      Transition s .schedule (.switched (some { previous := s.current, next })) s'

section Steps

variable {s s' : Scheduler TASKS} {op : SchedulerOp} {r : SchedulerResult}

theorem spawn_transition (s : Scheduler TASKS) (context : UserContext) :
    ∃ r s', (schedulerMachine TASKS).step s (.spawn context) = some (r, s') ∧
      Transition s (.spawn context) r s' := by
  cases hfind : (List.finRange TASKS).find? fun id => s.tasks[id].state = .unused with
  | none =>
      refine ⟨.spawned (.error .noTaskSlot), s, ?_, .full fun t ht => ?_⟩
      · simp only [schedulerMachine, Scheduler.spawn, hfind]
        rfl
      · exact List.find?_eq_none.mp hfind t (List.mem_finRange t) (decide_eq_true ht)
  | some id =>
      obtain ⟨hunused, i, hi, rfl, hfirst⟩ := List.find?_eq_some_iff_getElem.mp hfind
      refine ⟨.spawned (.ok _), _, ?_, .spawned (of_decide_eq_true hunused) fun t ht hun => ?_⟩
      · simp only [schedulerMachine, Scheduler.spawn, hfind]
        rfl
      · have hlt : t.val < i := by simpa using Fin.lt_def.mp ht
        have hnot : ¬ s.tasks[t.val].state = .unused := by simpa using hfirst t hlt
        exact hnot hun

theorem writeTask_transition (s : Scheduler TASKS) {task : TaskId} {write : Task → Task}
    (hop : op.writes = some (task, write))
    (hstep : (schedulerMachine TASKS).step s op =
      (Scheduler.writeTask task write s).map (Prod.map .done id)) :
    ∃ r s', (schedulerMachine TASKS).step s op = some (r, s') ∧ Transition s op r s' := by
  by_cases hlt : task < TASKS
  · lift task to Fin TASKS using hlt
    by_cases hused : (s.taskAt task).state = .unused
    · refine ⟨.done (.error .badTask), s, ?_, .refused hop (.inr ?_)⟩
      · have hused' : s.tasks[task.val].state = .unused := hused
        rw [hstep, Scheduler.writeTask, dif_pos task.isLt, if_pos hused']
        rfl
      · rw [Scheduler.state_coe, hused]
    · refine ⟨.done (.ok ()), _, ?_, .wrote hop hused⟩
      have hused' : s.tasks[task.val].state ≠ .unused := hused
      rw [hstep, Scheduler.writeTask, dif_pos task.isLt, if_neg hused']
      rfl
  · refine ⟨.done (.error .badTask), s, ?_, .refused hop (.inl ?_)⟩
    · rw [hstep, Scheduler.writeTask, dif_neg hlt]
      rfl
    · exact Scheduler.state_absent (Nat.le_of_not_lt hlt)

theorem schedule_transition (valid : s.Valid) :
    ∃ r s', (schedulerMachine TASKS).step s .schedule = some (r, s') ∧
      Transition s .schedule r s' := by
  obtain ⟨ticked, htick, htasks, hcurrent⟩ := Scheduler.tick_eq valid
  have hstart : ticked.start = s.start := by
    rw [Scheduler.start, hcurrent, Scheduler.start]
  have hrunnable : ticked.isRunnable = s.isRunnable := by
    funext task
    rw [Bool.eq_iff_iff, Scheduler.isRunnable_iff, Scheduler.isRunnable_iff,
      Scheduler.state_eq_some, Scheduler.state_eq_some]
    simp only [htasks, Scheduler.charge_state]
  cases hfind : cyclicFind TASKS s.start s.isRunnable with
  | none =>
      refine ⟨.switched none, { ticked with current := none }, ?_, .idle (fun t hrun => ?_)
        htasks rfl⟩
      · simp [schedulerMachine, Scheduler.schedule, htick, hstart, hrunnable, hfind]
      · have := (cyclicFind_eq_none s.start_lt).mp hfind t t.isLt
        rw [Scheduler.isRunnable_coe.mpr hrun] at this
        cases this
  | some next =>
      have hnext := (cyclicFind_eq_some s.start_lt hfind).1
      lift next to Fin TASKS using hnext
      refine ⟨_, { ticked with current := some next.val }, ?_, .switched hfind htasks rfl⟩
      simp [schedulerMachine, Scheduler.schedule, htick, hstart, hrunnable, hfind, hcurrent]

/-- **One operation.**  Every operation returns, and does what a transition says. -/
theorem step_transition (valid : s.Valid) (op : SchedulerOp) :
    ∃ r s', (schedulerMachine TASKS).step s op = some (r, s') ∧ Transition s op r s' := by
  cases op with
  | spawn context => exact spawn_transition s context
  | schedule => exact schedule_transition valid
  | block task => exact writeTask_transition s rfl rfl
  | wake task => exact writeTask_transition s rfl rfl
  | fault task => exact writeTask_transition s rfl rfl
  | saveContext task context => exact writeTask_transition s rfl rfl

/-- A step is a transition. -/
theorem transition_of_step (valid : s.Valid)
    (hstep : (schedulerMachine TASKS).step s op = some (r, s')) : Transition s op r s' := by
  obtain ⟨r₁, s₁, hstep₁, htrans⟩ := step_transition valid op
  rw [hstep, Option.some.injEq, Prod.mk.injEq] at hstep₁
  obtain ⟨rfl, rfl⟩ := hstep₁
  exact htrans

theorem Transition.valid (h : Transition s op r s') (valid : s.Valid) : s'.Valid := by
  cases h with
  | full => exact valid
  | spawned => exact valid
  | refused => exact valid
  | wrote => exact valid
  | idle h tasks current =>
      intro c hc
      rw [current] at hc
      cases hc
  | @switched _ next h tasks current =>
      intro c hc
      rw [current] at hc
      cases hc
      exact next.isLt

/-- What is true of the state of a runnable task and is not lost by a write stays true of
the state of the current task. -/
theorem Transition.current_state (h : Transition s op r s') {P : TaskState → Prop}
    (hrunnable : P .runnable)
    (hwrites : ∀ {task write entry}, op.writes = some (task, write) → P entry.state →
      P (write entry).state)
    (hs : ∀ t : Fin TASKS, s.current = some t.val → P (s.taskAt t).state) :
    ∀ t : Fin TASKS, s'.current = some t.val → P (s'.taskAt t).state := by
  intro t ht
  cases h with
  | full => exact hs t ht
  | refused => exact hs t ht
  | idle _ _ current =>
      rw [current] at ht
      cases ht
  | @switched _ next hfind tasks current =>
      rw [current, Option.some.injEq] at ht
      obtain rfl : next = t := Fin.ext ht
      rwa [tasks, Scheduler.charge_state, Scheduler.runnable_of_cyclicFind hfind]
  | @spawned context id =>
      rw [Scheduler.taskAt_setTask]
      rcases eq_or_ne t id with rfl | hne
      · rwa [Function.update_self]
      · rw [Function.update_of_ne hne]
        exact hs t ht
  | @wrote _ u write hop =>
      rw [Scheduler.taskAt_setTask]
      rcases eq_or_ne t u with rfl | hne
      · rw [Function.update_self]
        exact hwrites hop (hs t ht)
      · rw [Function.update_of_ne hne]
        exact hs t ht

theorem valid_new : (Scheduler.new : Scheduler TASKS).Valid := nofun

end Steps

end Aegis.Sched
