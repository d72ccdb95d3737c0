import Mathlib
import Aegis.Sched.Transition

/-!
# No overtaking

The scheduler is a round-robin arbiter of its tasks: the search of `schedule` begins just
after the current task, and no other operation moves that place, whatever it does to the
states of the tasks.
-/

namespace Aegis.Sched

open Foundation

variable {TASKS : ℕ}

def SchedulerOp.isSchedule : SchedulerOp → Bool
  | .schedule => true
  | _ => false

theorem SchedulerOp.isSchedule_of_writes {op : SchedulerOp} {w : TaskId × (Task → Task)}
    (h : op.writes = some w) : op.isSchedule = false := by
  cases op with
  | schedule => cases h
  | spawn => rfl
  | block => rfl
  | wake => rfl
  | fault => rfl
  | saveContext => rfl

/-- The task that a result selects. -/
def SchedulerResult.selected : SchedulerResult → Option TaskId
  | .switched (some switch) => some switch.next
  | _ => none

/-- The scheduler serves its tasks in turn. -/
def schedulerArbiter (TASKS : ℕ) : Arbiter (schedulerMachine TASKS) where
  clients := TASKS
  Valid := Scheduler.Valid
  start := Scheduler.start
  ready := Scheduler.isRunnable
  isTurn := SchedulerOp.isSchedule
  served := SchedulerResult.selected
  start_lt _ := Scheduler.start_lt _
  valid_step valid hstep := (transition_of_step valid hstep).valid valid
  turn {s op r s'} valid hstep hturn := by
    cases transition_of_step valid hstep with
    | idle h tasks current =>
        refine ⟨(cyclicFind_eq_none s.start_lt).mpr (fun c hc => ?_) |>.symm, nofun⟩
        lift c to Fin TASKS using hc
        rw [Bool.eq_false_iff]
        exact fun hrun => h c (Scheduler.isRunnable_coe.mp hrun)
    | switched h tasks current =>
        refine ⟨h.symm, ?_⟩
        rintro c ⟨⟩
        rw [Scheduler.start, current]
    | full => cases hturn
    | spawned => cases hturn
    | refused hop => rw [SchedulerOp.isSchedule_of_writes hop] at hturn; cases hturn
    | wrote hop => rw [SchedulerOp.isSchedule_of_writes hop] at hturn; cases hturn
  other {s op r s'} valid hstep hturn := by
    cases transition_of_step valid hstep with
    | idle => cases hturn
    | switched => cases hturn
    | full => exact ⟨rfl, rfl⟩
    | spawned => exact ⟨rfl, rfl⟩
    | refused => exact ⟨rfl, rfl⟩
    | wrote => exact ⟨rfl, rfl⟩

/-- The event is a `schedule` that selects the task. -/
def Selects (ev : SchedulerEvent TASKS) (t : TaskId) : Prop :=
  ev.result.selected = some t

section Runs

variable {ops : List SchedulerOp} {es fs : List (SchedulerEvent TASKS)}
  {s s' : Scheduler TASKS}

/-- Every run exists. -/
theorem exists_exec (ops : List SchedulerOp) :
    ∃ es s, (schedulerMachine TASKS).exec Scheduler.new ops = some (es, s) := by
  obtain ⟨es, s, hexec, -⟩ := Machine.exec_of_invariant (M := schedulerMachine TASKS)
    (fun _ s => s.Valid) valid_new (fun es s op valid => by
      obtain ⟨r, s', hstep, htrans⟩ := step_transition valid op
      exact ⟨r, s', hstep, htrans.valid valid⟩) ops
  exact ⟨es, s, hexec⟩

theorem valid_of_exec (valid : s.Valid)
    (h : (schedulerMachine TASKS).exec s ops = some (es, s')) : s'.Valid := by
  induction ops generalizing s es with
  | nil =>
      cases h
      exact valid
  | cons op ops ih =>
      obtain ⟨r, s₁, fs, hstep, hrest, -⟩ := Machine.exec_cons_inv h
      exact ih ((transition_of_step valid hstep).valid valid) hrest

/-- What a run says of its events after a given point, it says of a run. -/
theorem exec_suffix (h : (schedulerMachine TASKS).exec Scheduler.new ops = some (es ++ fs, s)) :
    ∃ s₀ ops', s₀.Valid ∧ (schedulerMachine TASKS).exec s₀ ops' = some (fs, s) := by
  obtain ⟨s₀, ops₁, ops₂, h₁, h₂, -⟩ := Machine.exec_split h
  exact ⟨s₀, ops₂, valid_of_exec valid_new h₁, h₂⟩

/-- A task that is selected is in range. -/
theorem selected_lt {op : SchedulerOp} {r : SchedulerResult} {u : TaskId} (valid : s.Valid)
    (hstep : (schedulerMachine TASKS).step s op = some (r, s')) (h : r.selected = some u) :
    u < TASKS := by
  cases transition_of_step valid hstep with
  | @switched _ next =>
      cases h
      exact next.isLt
  | full => cases h
  | spawned => cases h
  | refused => cases h
  | wrote => cases h
  | idle => cases h

end Runs

/-- **No overtaking.**  Every run of the scheduler exists, and in it: between two
`schedule` calls that select the same task, every other task that stays runnable is
selected; and a task that is runnable throughout a part of the run with as many `schedule`
calls as there are tasks is selected in that part. -/
theorem no_overtaking (ops : List SchedulerOp) :
    ∃ es s, (schedulerMachine TASKS).exec Scheduler.new ops = some (es, s) ∧
      (∀ past first between second future, es = past ++ first :: between ++ second :: future →
        ∀ u t, t ≠ u → Selects first u → Selects second u →
          (∀ ev ∈ first :: between, ev.after.state t = some .runnable) →
            ∃ ev ∈ between, Selects ev t) ∧
      (∀ past window future, es = past ++ window ++ future →
        ∀ t < TASKS, (∀ ev ∈ window, ev.before.state t = some .runnable) →
          TASKS ≤ window.countP (fun ev => ev.op.isSchedule) →
            ∃ ev ∈ window, Selects ev t) := by
  obtain ⟨es, s, hexec⟩ := @exists_exec TASKS ops
  refine ⟨es, s, hexec, ?_, ?_⟩
  · rintro past first between second future rfl u t hne hfirst hsecond hstays
    have hsplit : past ++ first :: between ++ second :: future =
        past ++ (first :: (between ++ [second]) ++ future) := by simp
    rw [hsplit] at hexec
    obtain ⟨s₀, ops', valid, hrun⟩ := exec_suffix hexec
    obtain ⟨s₂, ops₁, ops₂, hrun, -, -⟩ := Machine.exec_split hrun
    cases ops₁ with
    | nil => cases hrun
    | cons op ops₁ =>
        obtain ⟨r, s₁, fs, hstep, hrest, hfs⟩ := Machine.exec_cons_inv hrun
        rw [List.cons.injEq] at hfs
        obtain ⟨rfl, rfl⟩ := hfs
        rw [List.forall_mem_cons] at hstays
        have hbefore := Machine.before_of_after
          (P := fun s => s.state t = some TaskState.runnable) hrest hstays.1 hstays.2
        obtain ⟨t', rfl, -⟩ := Scheduler.state_eq_some.mp hstays.1
        have hserves : (schedulerArbiter TASKS).Serves (between ++ [second]) t' :=
          Arbiter.serves_between t'.isLt (selected_lt valid hstep hfirst) hne valid hstep hfirst
            hrest (fun ev hev => Scheduler.isRunnable_iff.mpr (hbefore ev hev))
            ⟨second, by simp, hsecond⟩
        obtain ⟨ev, hev, hselects⟩ := hserves
        rcases List.mem_append.mp hev with hev | hev
        · exact ⟨ev, hev, hselects⟩
        · -- the second call selects `u`, which is not the task
          rw [List.mem_singleton.mp hev] at hselects
          exact absurd (Option.some.inj (hselects.symm.trans hsecond)) hne
  · rintro past window future rfl t ht hstays hturns
    rw [List.append_assoc] at hexec
    obtain ⟨s₀, ops', valid, hrun⟩ := exec_suffix hexec
    obtain ⟨s₂, ops₁, ops₂, hrun, -, -⟩ := Machine.exec_split hrun
    exact Arbiter.serves_of_turns (A := schedulerArbiter TASKS) ht valid hrun
      (fun ev hev => Scheduler.isRunnable_iff.mpr (hstays ev hev)) hturns

end Aegis.Sched
