import Mathlib
import Aegis.Foundation.Tenure
import Aegis.Sched.Fairness

/-!
# CPU time

`schedule` charges a tick for the time since the call before it: to the task that is
recorded as current, if that task is still runnable, and before it looks for the next one.
The processor is thus a resource that tasks hold in turns (`cpuTenure`), and a task's
`runtime_ticks` is the number of its tenures that have been charged, modulo 2^64.  A task
that is blocked or faulted when its tenure ends is let off; without `block` and `fault`
nobody is.
-/

namespace Aegis.Sched

open Foundation

variable {TASKS : ℕ}

/-- The task that a `schedule` call charges. -/
def charged (ev : SchedulerEvent TASKS) : Option TaskId :=
  if ev.op.isSchedule then ev.before.current.filter ev.before.isRunnable else none

/-- Tasks hold the processor from one `schedule` call to the next. -/
def cpuTenure (TASKS : ℕ) : Tenure (Scheduler TASKS) SchedulerOp SchedulerResult TaskId where
  holder := Scheduler.current
  charged := charged
  granted ev := ev.result.selected

/-- The number of `schedule` calls that selected the task. -/
def selections (t : TaskId) (es : List (SchedulerEvent TASKS)) : ℕ :=
  es.countP fun ev => ev.result.selected = some t

/-- The number of `schedule` calls. -/
def scheduleCalls (ops : List SchedulerOp) : ℕ :=
  ops.countP SchedulerOp.isSchedule

/-- The operation is `block` or `fault`. -/
def SchedulerOp.stops : SchedulerOp → Bool
  | .block _ | .fault _ => true
  | _ => false

/-! ## One operation -/

section Step

variable {s s' : Scheduler TASKS} {op : SchedulerOp} {r : SchedulerResult}

theorem charged_schedule_iff {t : Fin TASKS} :
    charged ⟨s, .schedule, r, s'⟩ = some t.val ↔
      s.current = some t.val ∧ (s.taskAt t).state = .runnable := by
  rw [← Scheduler.isRunnable_coe]
  exact Option.filter_eq_some_iff

theorem charged_eq_none (hop : op.isSchedule = false) : charged ⟨s, op, r, s'⟩ = none := by
  rw [charged, if_neg (by rw [hop]; nofun)]

/-- **One operation** leaves the processor with its holder, and the ticks as they are; or it
is a turn, and charges the tick. -/
theorem Transition.kept_or_turn (h : Transition s op r s') :
    (op.isSchedule = false ∧ (cpuTenure TASKS).Kept ⟨s, op, r, s'⟩) ∨
      (op = .schedule ∧ (cpuTenure TASKS).Turn ⟨s, op, r, s'⟩ ∧ s'.taskAt = s.charge) := by
  have kept : op.isSchedule = false → r.selected = none → s'.current = s.current →
      op.isSchedule = false ∧ (cpuTenure TASKS).Kept ⟨s, op, r, s'⟩ :=
    fun hop hresult hcurrent => ⟨hop, charged_eq_none hop, hresult, hcurrent⟩
  have charges : ∀ t, charged (⟨s, .schedule, r, s'⟩ : SchedulerEvent TASKS) = some t →
      s.current = some t :=
    fun t ht => (Option.filter_eq_some_iff.mp ht).1
  cases h with
  | full => exact .inl (kept rfl rfl rfl)
  | spawned => exact .inl (kept rfl rfl rfl)
  | refused hop => exact .inl (kept (SchedulerOp.isSchedule_of_writes hop) rfl rfl)
  | wrote hop => exact .inl (kept (SchedulerOp.isSchedule_of_writes hop) rfl rfl)
  | idle _ tasks current => exact .inr ⟨rfl, ⟨charges, current⟩, tasks⟩
  | switched _ tasks current => exact .inr ⟨rfl, ⟨charges, current⟩, tasks⟩

end Step

/-! ## Runs -/

/-- The ticks of a task that has been charged `n` times; a slot out of use has not been. -/
structure Task.Charged (task : Task) (n : ℕ) : Prop where
  ticks : task.runtimeTicks = BitVec.ofNat 64 n
  unused : task.state = .unused → n = 0

/-- The tasks against the history: each has the ticks that its charges say. -/
structure Accounts (es : List (SchedulerEvent TASKS)) (s : Scheduler TASKS) : Prop where
  charged : ∀ t : Fin TASKS, (s.taskAt t).Charged ((cpuTenure TASKS).charges t es)
  bounded : (cpuTenure TASKS).Bounded es s

section Run

variable {es : List (SchedulerEvent TASKS)} {s s' : Scheduler TASKS} {op : SchedulerOp}
  {r : SchedulerResult}

theorem accounts_new : Accounts [] (Scheduler.new : Scheduler TASKS) where
  charged t := by
    rw [Scheduler.taskAt_new]
    exact ⟨rfl, fun _ => rfl⟩
  bounded := (Tenure.exact_nil rfl).bounded

/-- A call of `schedule` charges the tick and notes it. -/
theorem Accounts.schedule (h : Accounts es s)
    (hturn : (cpuTenure TASKS).Turn ⟨s, .schedule, r, s'⟩) (tasks : s'.taskAt = s.charge) :
    Accounts (es ++ [⟨s, .schedule, r, s'⟩]) s' := by
  refine ⟨fun t => ?_, h.bounded.turn hturn⟩
  obtain ⟨ticks, unused⟩ := h.charged t
  have hcharged : (cpuTenure TASKS).charged ⟨s, .schedule, r, s'⟩ = some t.val ↔
      s.current = some t.val ∧ (s.taskAt t).state = .runnable := charged_schedule_iff
  rw [tasks, Scheduler.charge, Tenure.charges_snoc]
  by_cases hcharge : s.current = some t.val ∧ (s.taskAt t).state = .runnable
  · rw [if_pos hcharge, if_pos (hcharged.mpr hcharge)]
    constructor
    · rw [BitVec.ofNat_add, ← ticks]
      rfl
    · intro hunused
      have hstate : (s.taskAt t).state = .unused := hunused
      rw [hcharge.2] at hstate
      cases hstate
  · rw [if_neg hcharge, if_neg (mt hcharged.mp hcharge)]
    exact ⟨ticks, unused⟩

/-- Any other operation leaves the ticks alone; a new task begins at zero. -/
theorem Accounts.other (h : Accounts es s) (htrans : Transition s op r s')
    (hkept : (cpuTenure TASKS).Kept ⟨s, op, r, s'⟩) (hop : op.isSchedule = false) :
    Accounts (es ++ [⟨s, op, r, s'⟩]) s' := by
  refine ⟨fun t => ?_, h.bounded.kept hkept⟩
  rw [hkept.charges_snoc]
  cases htrans with
  | full => exact h.charged t
  | refused => exact h.charged t
  | idle => cases hop
  | switched => cases hop
  | @spawned context id hunused first =>
      rw [Scheduler.taskAt_setTask]
      rcases eq_or_ne t id with rfl | hne
      · rw [Function.update_self, (h.charged t).unused hunused]
        exact ⟨rfl, fun _ => rfl⟩
      · rw [Function.update_of_ne hne]
        exact h.charged t
  | @wrote _ u write hwrites hused =>
      rw [Scheduler.taskAt_setTask]
      rcases eq_or_ne t u with rfl | hne
      · rw [Function.update_self]
        constructor
        · rw [SchedulerOp.writes_runtimeTicks hwrites, (h.charged t).ticks]
        · exact fun hunused => absurd hunused (SchedulerOp.writes_used hwrites hused)
      · rw [Function.update_of_ne hne]
        exact h.charged t

theorem Accounts.snoc (h : Accounts es s) (htrans : Transition s op r s') :
    Accounts (es ++ [⟨s, op, r, s'⟩]) s' := by
  rcases htrans.kept_or_turn with ⟨hop, hkept⟩ | ⟨rfl, hturn, tasks⟩
  · exact h.other htrans hkept hop
  · exact h.schedule hturn tasks

/-! ### Without `block` and `fault` -/

/-- The current task, if any, is runnable. -/
def CurrentRunnable (s : Scheduler TASKS) : Prop :=
  ∀ t : Fin TASKS, s.current = some t.val → (s.taskAt t).state = .runnable

theorem SchedulerOp.writes_runnable (hop : op.stops = false) {task : TaskId}
    {write : Task → Task} {entry : Task} (hwrites : op.writes = some (task, write))
    (hrun : entry.state = .runnable) : (write entry).state = .runnable := by
  rcases writes_state hwrites entry with h | ⟨rfl, -⟩ | ⟨rfl, -⟩ | ⟨-, h⟩
  · exact h.trans hrun
  · cases hop
  · cases hop
  · exact h

theorem Transition.currentRunnable (h : Transition s op r s') (hs : CurrentRunnable s)
    (hop : op.stops = false) : CurrentRunnable s' :=
  h.current_state (P := (· = .runnable)) rfl (SchedulerOp.writes_runnable hop) hs

/-- A turn charges a current task that is runnable. -/
theorem CurrentRunnable.charged_eq (hs : CurrentRunnable s) (valid : s.Valid) :
    charged (⟨s, .schedule, r, s'⟩ : SchedulerEvent TASKS) = s.current := by
  cases hcurrent : s.current with
  | none =>
      show s.current.filter s.isRunnable = none
      rw [hcurrent]
      rfl
  | some t =>
      have ht := valid t hcurrent
      lift t to Fin TASKS using ht
      exact charged_schedule_iff.mpr ⟨hcurrent, hs t hcurrent⟩

/-- The invariant of a run without `block` and `fault`. -/
theorem exact_snoc (h : (cpuTenure TASKS).Exact es s) (hs : CurrentRunnable s) (valid : s.Valid)
    (htrans : Transition s op r s') :
    (cpuTenure TASKS).Exact (es ++ [⟨s, op, r, s'⟩]) s' := by
  rcases htrans.kept_or_turn with ⟨-, hkept⟩ | ⟨rfl, hturn, -⟩
  · exact Tenure.Exact.kept h hkept
  · exact Tenure.Exact.turn h hturn (hs.charged_eq valid)

theorem accounts_exec (ops : List SchedulerOp) :
    ∃ es s, (schedulerMachine TASKS).exec Scheduler.new ops = some (es, s) ∧ Accounts es s ∧
      ((∀ op ∈ es.map Event.op, op.stops = false) → (cpuTenure TASKS).Exact es s) := by
  obtain ⟨es, s, hexec, -, haccounts, hexact⟩ := (schedulerMachine TASKS).exec_of_invariant
    (fun es s => s.Valid ∧ Accounts es s ∧ ((∀ op ∈ es.map Event.op, op.stops = false) →
      CurrentRunnable s ∧ (cpuTenure TASKS).Exact es s))
    ⟨valid_new, accounts_new, fun _ => ⟨nofun, Tenure.exact_nil rfl⟩⟩
    (by
      rintro es s op ⟨valid, haccounts, hexact⟩
      obtain ⟨r, s', hstep, htrans⟩ := step_transition valid op
      refine ⟨r, s', hstep, htrans.valid valid, haccounts.snoc htrans, fun hops => ?_⟩
      rw [List.map_append, List.forall_mem_append, List.map_singleton,
        List.forall_mem_singleton] at hops
      obtain ⟨hrunnable, hbefore⟩ := hexact hops.1
      exact ⟨htrans.currentRunnable hrunnable hops.2,
        exact_snoc hbefore hrunnable valid htrans⟩) ops
  exact ⟨es, s, hexec, haccounts, fun hops => (hexact hops).2⟩

/-! ### The sum -/

/-- Nobody is charged more often than `schedule` is called. -/
theorem charges_le_scheduleCalls (t : TaskId) (es : List (SchedulerEvent TASKS)) :
    (cpuTenure TASKS).charges t es ≤ scheduleCalls (es.map Event.op) := by
  rw [scheduleCalls, List.countP_map, Tenure.charges]
  refine List.countP_mono_left fun ev _ hcharged => ?_
  by_contra hop
  have hnone : charged ev = none := charged_eq_none (Bool.eq_false_iff.mpr hop)
  rw [show (cpuTenure TASKS).charged ev = none from hnone] at hcharged
  cases hcharged

theorem isSome_charged (ev : SchedulerEvent TASKS) :
    (charged ev).isSome = (ev.op.isSchedule && ev.before.current.any ev.before.isRunnable) := by
  rw [charged]
  cases ev.op.isSchedule with
  | false => rfl
  | true =>
      cases hcurrent : ev.before.current with
      | none => rfl
      | some c => cases hrun : ev.before.isRunnable c <;> simp [hrun]

theorem sum_charges (es : List (SchedulerEvent TASKS)) :
    ∑ t : Fin TASKS, (cpuTenure TASKS).charges t es =
      es.countP fun ev => ev.op.isSchedule && ev.before.current.any ev.before.isRunnable := by
  have hrange : ∀ ev ∈ es, ∀ t, charged ev = some t → t ∈ Finset.range TASKS := by
    intro ev _ t ht
    rw [charged] at ht
    split at ht
    · obtain ⟨u, rfl, -⟩ := Scheduler.state_eq_some.mp
        (Scheduler.isRunnable_iff.mp (Option.filter_eq_some_iff.mp ht).2)
      exact Finset.mem_range.mpr u.isLt
    · cases ht
  calc ∑ t : Fin TASKS, (cpuTenure TASKS).charges t es
      = ∑ t ∈ Finset.range TASKS, es.countP (fun ev => charged ev = some t) :=
        Fin.sum_univ_eq_sum_range (fun t => (cpuTenure TASKS).charges t es) TASKS
    _ = es.countP fun ev => (charged ev).isSome := sum_countP_eq_some hrange
    _ = _ := by simp only [isSome_charged]

end Run

/-- **CPU time is accounted for exactly.**  In every run with fewer than 2^64 `schedule`
calls, no task has more ticks than calls that selected it; without `block` and `fault` it
has one for each of them, except for the one by which it is current; and all ticks together
are the calls that were entered with a current task that was runnable. -/
theorem cpu_time_exact (ops : List SchedulerOp) (hfew : scheduleCalls ops < 2 ^ 64) :
    ∃ es s, (schedulerMachine TASKS).exec Scheduler.new ops = some (es, s) ∧
      ∃ ticks : Fin TASKS → BitVec 64, (∀ t : Fin TASKS, s.runtimeTicks t = some (ticks t)) ∧
        (∀ t, (ticks t).toNat ≤ selections t es) ∧
        ((∀ op ∈ ops, op.stops = false) → ∀ t : Fin TASKS,
          (s.current = some t.val → (ticks t).toNat + 1 = selections t es) ∧
          (s.current ≠ some t.val → (ticks t).toNat = selections t es)) ∧
        ∑ t, (ticks t).toNat =
          es.countP fun ev => ev.op.isSchedule && ev.before.current.any ev.before.isRunnable := by
  obtain ⟨es, s, hexec, haccounts, hexact⟩ := accounts_exec ops
  have hops : es.map Event.op = ops := Machine.exec_ops hexec
  have hticks : ∀ t : Fin TASKS,
      (s.taskAt t).runtimeTicks.toNat = (cpuTenure TASKS).charges t es := by
    intro t
    have hle := charges_le_scheduleCalls t.val es
    rw [hops] at hle
    rw [(haccounts.charged t).ticks, BitVec.toNat_ofNat, Nat.mod_eq_of_lt (hle.trans_lt hfew)]
  refine ⟨es, s, hexec, fun t => (s.taskAt t).runtimeTicks, Scheduler.runtimeTicks_coe,
    fun t => ?_, fun hstops t => ?_, ?_⟩
  · rw [hticks]
    exact (Nat.le_add_right _ _).trans (haccounts.bounded t.val)
  · rw [hops] at hexact
    have hbalance : (cpuTenure TASKS).charges t es + (cpuTenure TASKS).pending t s =
      selections t es := hexact hstops t.val
    rw [hticks]
    constructor
    · intro hcurrent
      rwa [Tenure.pending_of_holder hcurrent] at hbalance
    · intro hcurrent
      rwa [Tenure.pending_of_ne hcurrent] at hbalance
  · rw [← sum_charges]
    exact Finset.sum_congr rfl fun t _ => hticks t

/-- Two tasks take turns: the first call charges nobody. -/
def threeTurns : List SchedulerOp :=
  [.spawn .empty, .spawn .empty, .schedule, .schedule, .schedule]

theorem cpu_time_exact_threeTurns :
    scheduleCalls threeTurns < 2 ^ 64 ∧
      ∃ es s, (schedulerMachine 2).exec Scheduler.new threeTurns = some (es, s) ∧
        ∃ ticks : Fin 2 → BitVec 64, (∀ t : Fin 2, s.runtimeTicks t = some (ticks t)) ∧
          (ticks 0).toNat + 1 = selections 0 es ∧ (ticks 1).toNat = selections 1 es ∧
          ∑ t, (ticks t).toNat = 2 := by
  have hfew : scheduleCalls threeTurns < 2 ^ 64 := by decide
  obtain ⟨es, s, hexec, ticks, hticks, -, hexact, hsum⟩ :=
    @cpu_time_exact 2 threeTurns hfew
  have hrun := Option.some.inj hexec
  obtain rfl := congrArg Prod.fst hrun
  obtain rfl := congrArg Prod.snd hrun
  have hexact := hexact (by decide)
  exact ⟨hfew, _, _, hexec, ticks, hticks, (hexact 0).1 rfl, (hexact 1).2 (by decide), hsum⟩

end Aegis.Sched
