import Mathlib
import Aegis.Foundation.History
import Aegis.Sched.Fairness

/-!
# Faulted tasks

`fault` takes a task off the processor, but no operation treats `Faulted` as final:
`block` and `wake` ask only whether the slot is in use.  A faulted task may become
blocked and stays off the processor; what brings it back is `wake`, and nothing else.
-/

namespace Aegis.Sched

open Foundation

variable {TASKS : ℕ}

/-- The event is a successful `fault` of the task. -/
def Faults (task : TaskId) (ev : SchedulerEvent TASKS) : Prop :=
  ev.op = .fault task ∧ ev.result = .done (.ok ())

/-- The event is a successful `wake` of the task. -/
def Wakes (task : TaskId) (ev : SchedulerEvent TASKS) : Prop :=
  ev.op = .wake task ∧ ev.result = .done (.ok ())

/-- The task exists and is not runnable. -/
def Scheduler.Stopped (scheduler : Scheduler TASKS) (task : TaskId) : Prop :=
  ∃ t : Fin TASKS, task = t ∧ (scheduler.taskAt t).state ≠ .unused ∧
    (scheduler.taskAt t).state ≠ .runnable

section Step

variable {s s' : Scheduler TASKS} {op : SchedulerOp} {r : SchedulerResult} {task : TaskId}

/-- A state that is neither unused nor runnable. -/
theorem Scheduler.Stopped.of_state {t : Fin TASKS} {st : TaskState}
    (hstate : (s.taskAt t).state = st) (hused : st ≠ .unused) (hnot : st ≠ .runnable) :
    s.Stopped t :=
  ⟨t, rfl, by rwa [hstate], by rwa [hstate]⟩

/-- **One operation** leaves a stopped task stopped, or wakes it. -/
theorem Transition.stopped (h : Transition s op r s') (hstopped : s.Stopped task) :
    s'.Stopped task ∨ op = .wake task ∧ r = .done (.ok ()) := by
  obtain ⟨t, rfl, hused, hnot⟩ := hstopped
  have kept : (s'.taskAt t).state = (s.taskAt t).state → s'.Stopped t :=
    fun hstate => .of_state hstate hused hnot
  cases h with
  | full => exact .inl (kept rfl)
  | refused => exact .inl (kept rfl)
  | idle _ tasks => exact .inl (kept (by rw [tasks, Scheduler.charge_state]))
  | switched _ tasks => exact .inl (kept (by rw [tasks, Scheduler.charge_state]))
  | @spawned context id hunused first =>
      have hne : t ≠ id := by
        rintro rfl
        exact hused hunused
      exact .inl (kept (by rw [Scheduler.taskAt_setTask, Function.update_of_ne hne]))
  | @wrote _ u write hop h =>
      rcases eq_or_ne t u with rfl | hne
      · have hwritten : (s.setTask t (write (s.taskAt t))).taskAt t = write (s.taskAt t) := by
          rw [Scheduler.taskAt_setTask, Function.update_self]
        rcases SchedulerOp.writes_state hop (s.taskAt t) with hst | ⟨-, hst⟩ | ⟨-, hst⟩ | ⟨hwake, -⟩
        · exact .inl (kept (by rw [hwritten, hst]))
        · exact .inl (.of_state ((congrArg Task.state hwritten).trans hst) nofun nofun)
        · exact .inl (.of_state ((congrArg Task.state hwritten).trans hst) nofun nofun)
        · exact .inr ⟨hwake, rfl⟩
      · exact .inl (kept (by rw [Scheduler.taskAt_setTask, Function.update_of_ne hne]))

/-- A fault stops the task. -/
theorem Transition.stopped_of_fault (h : Transition s (.fault task) (.done (.ok ())) s') :
    s'.Stopped task := by
  cases h with
  | @wrote _ t write hop h =>
      cases hop
      have hst : ((s.setTask t { s.taskAt t with state := .faulted }).taskAt t).state =
          .faulted := by
        rw [Scheduler.taskAt_setTask, Function.update_self]
      exact .of_state hst nofun nofun

/-- A stopped task is not selected. -/
theorem Transition.not_selected (h : Transition s op r s') (hstopped : s.Stopped task) :
    r.selected ≠ some task := by
  intro hselected
  obtain ⟨t, rfl, -, hnot⟩ := hstopped
  cases h with
  | @switched _ next hfind =>
      obtain rfl : next = t := Fin.ext (Option.some.inj hselected)
      exact hnot (Scheduler.runnable_of_cyclicFind hfind)
  | _ => cases hselected

end Step

/-! ## Runs -/

/-- Whoever has faulted is stopped or has been woken since. -/
def FaultsHeld (es : List (SchedulerEvent TASKS)) (s : Scheduler TASKS) : Prop :=
  ∀ task i, At es i (Faults task) → s.Stopped task ∨ ∃ k, i < k ∧ At es k (Wakes task)

section Run

variable {es : List (SchedulerEvent TASKS)} {s s' : Scheduler TASKS} {op : SchedulerOp}
  {r : SchedulerResult}

theorem FaultsHeld.snoc (h : FaultsHeld es s) (htrans : Transition s op r s') :
    FaultsHeld (es ++ [⟨s, op, r, s'⟩]) s' := by
  intro task i hfault
  rcases hfault.snoc_cases with hold | ⟨rfl, rfl, rfl⟩
  · rcases h task i hold with hstopped | ⟨k, hik, hk⟩
    · refine (htrans.stopped hstopped).imp_right fun hwake => ?_
      exact ⟨es.length, hold.lt_length, at_length hwake⟩
    · exact .inr ⟨k, hik, hk.snoc⟩
  · exact .inl htrans.stopped_of_fault

/-- **A faulted task runs again only after a wake.**  In every run, between a successful
`fault` of a task and a later `schedule` that selects it there is a successful `wake` of
that task. -/
theorem faulted_task_runs_only_after_wake (ops : List SchedulerOp) :
    ∃ es s, (schedulerMachine TASKS).exec Scheduler.new ops = some (es, s) ∧
      ∀ task i j, i < j → At es i (Faults task) → At es j (Selects · task) →
        ∃ k, i < k ∧ k < j ∧ At es k (Wakes task) := by
  obtain ⟨es, s, hexec, -, -, hruns⟩ := (schedulerMachine TASKS).exec_of_invariant
    (fun es s => s.Valid ∧ FaultsHeld es s ∧
      ∀ task i j, i < j → At es i (Faults task) → At es j (Selects · task) →
        ∃ k, i < k ∧ k < j ∧ At es k (Wakes task))
    ⟨valid_new, fun _ _ h => absurd h.lt_length (Nat.not_lt_zero _),
      fun _ _ _ _ h => absurd h.lt_length (Nat.not_lt_zero _)⟩
    (fun es s op ⟨valid, held, hruns⟩ => by
      obtain ⟨r, s', hstep, htrans⟩ := step_transition valid op
      refine ⟨r, s', hstep, htrans.valid valid, held.snoc htrans, ?_⟩
      intro task i j hij hfault hselect
      rcases hselect.snoc_cases with hselect | ⟨rfl, hselected⟩
      · have hi : i < es.length := hij.trans hselect.lt_length
        rcases hfault.snoc_cases with hfault | ⟨rfl, -⟩
        · obtain ⟨k, hik, hkj, hk⟩ := hruns task i j hij hfault hselect
          exact ⟨k, hik, hkj, hk.snoc⟩
        · exact absurd hi (lt_irrefl _)
      · rcases hfault.snoc_cases with hfault | ⟨rfl, -⟩
        · rcases held task i hfault with hstopped | ⟨k, hik, hk⟩
          · exact absurd hselected (htrans.not_selected hstopped)
          · exact ⟨k, hik, hk.lt_length, hk.snoc⟩
        · exact absurd hij (lt_irrefl _)) ops
  exact ⟨es, s, hexec, hruns⟩

/-- **A faulted task that runs again.**  Task 0 faults, is woken, and is selected. -/
theorem woken_faulted_task_selected :
    ∃ es s, (schedulerMachine 1).exec Scheduler.new
        [.spawn .empty, .fault 0, .wake 0, .schedule] = some (es, s) ∧
      At es 1 (Faults 0) ∧ At es 3 (Selects · 0) :=
  ⟨_, _, rfl, ⟨_, rfl, rfl, rfl⟩, ⟨_, rfl, rfl⟩⟩

end Run

end Aegis.Sched
