import Mathlib
import Aegis.Foundation.Share
import Aegis.Sched.Accounting

/-!
# Fair shares

How often a task that stays runnable is selected, over any part of any run, compared with the
other tasks and with the number of `schedule` calls.
-/

namespace Aegis.Sched

open Foundation

variable {TASKS : ℕ}

theorem services_eq (window : List (SchedulerEvent TASKS)) (t : TaskId) :
    (schedulerArbiter TASKS).services window t = selections t window := rfl

/-- **Every task that stays runnable gets its share.**  Every run of the scheduler exists.
Over any part of it in which a task stays runnable, whatever the others do, no task is selected
more than once more often than it, and it is selected in at least one of as many `schedule`
calls as there are tasks. -/
theorem fair_share (ops : List SchedulerOp) :
    ∃ es s, (schedulerMachine TASKS).exec Scheduler.new ops = some (es, s) ∧
      ∀ past window future, es = past ++ window ++ future →
        ∀ t < TASKS, (∀ ev ∈ window, ev.before.state t = some .runnable) →
          (∀ u < TASKS, selections u window ≤ selections t window + 1) ∧
          window.countP (fun ev => ev.op.isSchedule) / TASKS ≤ selections t window := by
  obtain ⟨es, s, hexec⟩ := @exists_exec TASKS ops
  refine ⟨es, s, hexec, ?_⟩
  rintro past window future rfl t ht hstays
  rw [List.append_assoc] at hexec
  obtain ⟨s₀, ops', valid, hrun⟩ := exec_suffix hexec
  obtain ⟨s₂, ops₁, ops₂, hrun, -, -⟩ := Machine.exec_split hrun
  have hready : ∀ ev ∈ window, (schedulerArbiter TASKS).ready ev.before t = true :=
    fun ev hev => Scheduler.isRunnable_iff.mpr (hstays ev hev)
  refine ⟨fun u hu => ?_, Arbiter.share_le (A := schedulerArbiter TASKS) ht valid hrun hready⟩
  rcases eq_or_ne t u with rfl | hne
  · exact Nat.le_succ _
  · have hle := Arbiter.services_le (A := schedulerArbiter TASKS) ht hu hne valid hrun hready
    have hone : (schedulerArbiter TASKS).lead s₀ t u ≤ 1 := Arbiter.lead_le_one
    rw [services_eq, services_eq] at hle
    omega

/-- Three tasks, of which the second is blocked for a while. -/
def sampleShares : List SchedulerOp := [
  .spawn .empty, .spawn .empty, .spawn .empty,
  .schedule, .schedule, .block 1, .schedule, .schedule, .schedule, .wake 1, .schedule, .schedule]

/-- From the third `spawn` on, the first task is selected in two of seven calls at least. -/
theorem fair_share_sample :
    ∃ es s, (schedulerMachine 3).exec Scheduler.new sampleShares = some (es, s) ∧
      (es.drop 3).countP (fun ev => ev.op.isSchedule) = 7 ∧
      (∀ u < 3, selections u (es.drop 3) ≤ selections 0 (es.drop 3) + 1) ∧
      2 ≤ selections 0 (es.drop 3) := by
  obtain ⟨es, s, hexec, hshare⟩ := @fair_share 3 sampleShares
  have hwindow : ((schedulerMachine 3).exec Scheduler.new sampleShares).map (fun run =>
      ((run.1.drop 3).countP (fun ev => ev.op.isSchedule),
        (run.1.drop 3).all fun ev => ev.before.state 0 = some .runnable)) = some (7, true) := by
    decide +kernel
  rw [hexec, Option.map_some, Option.some.injEq, Prod.mk.injEq] at hwindow
  obtain ⟨hcalls, hrunnable⟩ := hwindow
  obtain ⟨hothers, hshare⟩ := hshare (es.take 3) (es.drop 3) []
    (by rw [List.append_nil, List.take_append_drop]) 0 (by decide)
    (fun ev hev => of_decide_eq_true (List.all_eq_true.mp hrunnable ev hev))
  rw [hcalls] at hshare
  exact ⟨es, s, hexec, hcalls, hothers, hshare⟩

end Aegis.Sched
