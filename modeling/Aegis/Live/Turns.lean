import Mathlib
import Aegis.Live.Isolation

/-!
# Two interrupts

The timer interrupts user code twice: the first time task A is left and task B starts, the
second time A continues, and the timer is stopped.  What the tasks do in between does not
matter: A continues with the registers, the flags and the program counter that it was
interrupted with.

This rests on one thing that the code does not ensure: that an interrupt is dealt with before
the next period is over.  `stop_timer` takes the deadline away, but an alarm that went off
while the second interrupt was handled would stay latched, and come as a third one.
-/

namespace Aegis.Live

open Foundation A64 Sched Preempt Boot Irq

variable {layout : Layout}

/-! ## What is to be shown -/

/-- An interrupt is dealt with in less than a period. -/
def LiveOp.Prompt (period : ℕ) : LiveOp → Prop
  | .elapse _ spent _ => spent < period
  | .run _ | .sync _ _ | .serror _ _ => True

/-- The task in the CPU. -/
def taskOf (core : Core) : UserTask :=
  ⟨core.cpu.x, core.cpu.sys .spEl0, core.pc, core.cpu.flags⟩

/-- Task B, before it has run. -/
def initialB (layout : Layout) : UserTask :=
  ⟨fun _ => 0, userStackBTop layout, userSymbol layout .preemptBEntry, .clear⟩

/-- The events in which an interrupt is taken. -/
def interruptions (es : List LiveEvent) : List LiveEvent :=
  es.filter fun ev => ev.result = .interrupted

/-- Task A is interrupted, and task B starts. -/
structure LeavesA (layout : Layout) (ev : LiveEvent) : Prop where
  before : ev.before.kernel.scheduler.current = some PREEMPT_TASK_A
  after : ev.after.kernel.scheduler.current = some PREEMPT_TASK_B
  task : taskOf ev.after = initialB layout
  line : ev.after.kernel.console = ev.before.kernel.console ++ [.line .switchedToB]

/-- Task B is interrupted, and task A continues where the first event interrupted it. -/
structure RestoresA (first second : LiveEvent) : Prop where
  before : second.before.kernel.scheduler.current = some PREEMPT_TASK_B
  after : second.after.kernel.scheduler.current = some PREEMPT_TASK_A
  task : taskOf second.after = taskOf first.before
  line : second.after.kernel.console = second.before.kernel.console ++ [.line .restoredA]

/-- There are at most two interrupts. -/
def TakeTurns (layout : Layout) : List LiveEvent → Prop
  | [] => True
  | [first] => LeavesA layout first
  | [first, second] => LeavesA layout first ∧ RestoresA first second
  | _ => False

/-! ## The invariant -/

/-- Whose turn it is, after these interrupts. -/
inductive Turn (layout : Layout) : List LiveEvent → Sandbox → Prop
  | first {a : Sandbox} (current : a.current = 0) (due : a.alarm.due = false)
      (waiting : a.waiting = initialB layout) : Turn layout [] a
  | second {a : Sandbox} {first : LiveEvent} (leaves : LeavesA layout first)
      (current : a.current = 1) (due : a.alarm.due = false)
      (waiting : a.waiting = taskOf first.before) : Turn layout [first] a
  | last {a : Sandbox} {first second : LiveEvent} (leaves : LeavesA layout first)
      (restores : RestoresA first second) (due : a.alarm.due = false)
      (stopped : a.alarm.deadline = none) : Turn layout [first, second] a

section Turn

variable {es : List LiveEvent} {a a' : Sandbox} {period : ℕ}

theorem Turn.takeTurns (h : Turn layout es a) : TakeTurns layout es := by
  cases h with
  | first => trivial
  | second leaves => exact leaves
  | last leaves restores => exact ⟨leaves, restores⟩

theorem Turn.due (h : Turn layout es a) : a.alarm.due = false := by
  cases h <;> assumption

/-- The turn does not change while the tasks and the deadline do not. -/
theorem Turn.congr (h : Turn layout es a) (hcurrent : a'.current = a.current)
    (hwaiting : a'.waiting = a.waiting) (hdeadline : a'.alarm.deadline = a.alarm.deadline)
    (hdue : a'.alarm.due = false) : Turn layout es a' := by
  cases h with
  | first current due waiting =>
      exact .first (hcurrent.trans current) hdue (hwaiting.trans waiting)
  | second leaves current due waiting =>
      exact .second leaves (hcurrent.trans current) hdue (hwaiting.trans waiting)
  | last leaves restores due stopped =>
      exact .last leaves restores hdue (hdeadline.trans stopped)

variable {boot : State} {core core' : Core}

theorem Sandbox.preempt_first (hcurrent : a.current = 0) (duration spent : ℕ) :
    { a with alarm := a.alarm.elapse duration }.preempt period spent = { a with
      running := a.waiting
      waiting := a.running
      current := 1
      switches := a.switches + 1
      alarm := ((a.alarm.elapse duration).acknowledge period).2.elapse spent
      console := a.console ++ [.line .switchedToB] } := by
  simp only [Sandbox.preempt, hcurrent]
  rfl

theorem Sandbox.preempt_second (hcurrent : a.current = 1) (duration spent : ℕ) :
    { a with alarm := a.alarm.elapse duration }.preempt period spent = { a with
      running := a.waiting
      waiting := a.running
      current := 0
      switches := a.switches + 1
      alarm := (((a.alarm.elapse duration).acknowledge period).2.elapse spent).stop
      console := a.console ++ [.line .restoredA] } := by
  simp only [Sandbox.preempt, hcurrent]
  rfl

theorem Runs.taskOf_eq {task : UserTask} (h : Runs boot task core) : taskOf core = task := by
  rw [taskOf, h.x, h.spEl0, h.pc, h.flags]

/-- **An interrupt passes the turn on.** -/
theorem Turn.preempt (h : Turn layout es a) (hosts : Hosts layout boot period core a)
    {duration spent : ℕ} (scratch : Scratch) (hdue : (a.alarm.elapse duration).due = true)
    (hspent : spent < period) (hlive : a.halted = false)
    (hosts' : Hosts layout boot period core'
      ({ a with alarm := a.alarm.elapse duration }.preempt period spent)) :
    Turn layout (es ++ [⟨core, .elapse duration spent scratch, .interrupted, core'⟩])
      ({ a with alarm := a.alarm.elapse duration }.preempt period spent) := by
  have hquiet := Alarm.acknowledge_elapse hdue hspent
  have hkeeps := hosts.keeps hlive
  have hbefore := hkeeps.current
  cases h with
  | first current due waiting =>
      rw [Sandbox.preempt_first current] at hosts' ⊢
      rw [current] at hbefore
      have hruns' := hosts'.runs hlive
      refine .second ⟨hbefore, (hosts'.keeps hlive).current, ?_, ?_⟩ rfl hquiet
        (hosts.runs hlive).taskOf_eq.symm
      · exact hruns'.taskOf_eq.trans waiting
      · exact hosts'.console.trans (congrArg (· ++ _) hosts.console.symm)
  | @second _ first leaves current due waiting =>
      rw [Sandbox.preempt_second current] at hosts' ⊢
      rw [current] at hbefore
      have hruns' := hosts'.runs hlive
      refine .last leaves ⟨hbefore, (hosts'.keeps hlive).current, ?_, ?_⟩ hquiet rfl
      · exact hruns'.taskOf_eq.trans waiting
      · exact hosts'.console.trans (congrArg (· ++ _) hosts.console.symm)
  | last leaves restores due stopped =>
      rw [Alarm.elapse_stopped due stopped] at hdue
      cases hdue

theorem interruptions_other {ev : LiveEvent} (h : ev.result ≠ .interrupted) :
    interruptions [ev] = [] := by
  simp [interruptions, h]

theorem interruptions_taken {ev : LiveEvent} (h : ev.result = .interrupted) :
    interruptions [ev] = [ev] := by
  simp [interruptions, h]

/-- Every operation keeps the invariant. -/
theorem Turn.step (h : Turn layout es a) (hosts : Hosts layout boot period core a)
    {op : LiveOp} (hprompt : op.Prompt period)
    (hosts' : Hosts layout boot period core' (a.step layout period op).2) :
    Turn layout
      (es ++ interruptions [⟨core, op, (a.step layout period op).1, core'⟩])
      (a.step layout period op).2 := by
  -- no interrupt, and the turn is the same
  have same : ∀ r a', a.step layout period op = (r, a') → r ≠ .interrupted → Turn layout es a' →
      Turn layout (es ++ interruptions [⟨core, op, (a.step layout period op).1, core'⟩])
        (a.step layout period op).2 := by
    intro r a' hstep hresult hturn
    rwa [hstep, interruptions_other hresult, List.append_nil]
  cases hhalted : a.halted with
  | true =>
      exact same .halted a (a.step_halted hhalted op) (by decide) h
  | false =>
      cases op with
      | run user =>
          exact same .ran _ (a.step_run hhalted user) (by decide) (h.congr rfl rfl rfl h.due)
      | sync esr scratch =>
          have hsame := a.trap_sameTurn layout esr
          exact same .trapped _ (a.step_sync hhalted esr scratch) (by decide)
            (h.congr hsame.current hsame.waiting (by rw [hsame.alarm])
              (by rw [hsame.alarm, h.due]))
      | elapse duration spent scratch =>
          have heq : a.step layout period (.elapse duration spent scratch) = _ :=
            a.step_elapse hhalted duration spent scratch
          split_ifs at heq with hdue
          · rw [heq] at hosts' ⊢
            rw [interruptions_taken rfl]
            exact h.preempt hosts scratch hdue hprompt hhalted hosts'
          · exact same .elapsed _ heq (by decide)
              (h.congr rfl rfl rfl (Bool.eq_false_iff.mpr hdue))
      | serror esr scratch =>
          exact same .trapped _ (a.step_serror hhalted esr scratch) (by decide)
            (h.congr rfl rfl rfl h.due)

end Turn

/-- When the alarm is due, the running task is interrupted. -/
theorem Hosts.interrupt {boot : State} {period : ℕ} {core : Core} {a : Sandbox}
    (h : Hosts layout boot period core a) (prepared : Prepared layout boot)
    (hlive : a.halted = false) {duration : ℕ} (hdue : (a.alarm.elapse duration).due = true)
    (spent : ℕ) (scratch : Scratch) :
    ∃ core', core.step layout (.elapse duration spent scratch) = some (.interrupted, core') ∧
      Hosts layout boot period core'
        ({ a with alarm := a.alarm.elapse duration }.preempt period spent) := by
  obtain ⟨core', hstep, h'⟩ := h.step prepared (.elapse duration spent scratch)
  rw [a.step_elapse hlive, if_pos hdue] at hstep h'
  exact ⟨core', hstep, h'⟩

/-- A run with prompt interrupts, and whose turn it is at its end. -/
theorem turns_run {core start : Core} (prepared : Prepared layout core.cpu) {period : ℕ}
    (hosts : Hosts layout core.cpu period start (initialSandbox layout core)) (ops : List LiveOp)
    (hprompt : ∀ op ∈ ops, op.Prompt period) :
    ∃ es final, (liveMachine layout start).exec start ops = some (es, final) ∧
      ∃ a, Hosts layout core.cpu period final a ∧ Turn layout (interruptions es) a := by
  refine Machine.exec_of_invariant_of (M := liveMachine layout start) (LiveOp.Prompt period)
    (fun es core' => ∃ a, Hosts layout core.cpu period core' a ∧
      Turn layout (interruptions es) a) ⟨_, hosts, .first rfl rfl rfl⟩ ?_ ops hprompt
  rintro es core' op hop ⟨a, h, hturn⟩
  obtain ⟨core'', hstep, h'⟩ := h.step prepared op
  refine ⟨_, core'', hstep, _, h', ?_⟩
  rw [interruptions, List.filter_append]
  exact hturn.step h hop h'

/-- **The timer interrupts user code twice at most**, provided that each interrupt is dealt
with within a period.  The first interrupt leaves task A for task B, which starts with clear
registers; the second leaves B for A, which continues as it was, whatever both have done. -/
theorem two_interrupts {core : Core} (ready : Ready layout core) :
    ∃ start, (∀ fuel, enterSandbox layout (fuel + 1) core = some start) ∧
      ∀ ops, (∀ op ∈ ops, op.Prompt (periodOf core.kernel.interrupts 20)) →
        ∃ es final, (liveMachine layout start).exec start ops = some (es, final) ∧
          TakeTurns layout (interruptions es) := by
  obtain ⟨start, hstart, hosts⟩ := enterSandbox_hosts ready
  refine ⟨start, hstart, fun ops hprompt => ?_⟩
  obtain ⟨es, final, hexec, a, -, hturn⟩ := turns_run ready.prepared hosts ops hprompt
  exact ⟨es, final, hexec, hturn.takeTurns⟩

/-- On a timer of 62.5 MHz, the alarm that user code starts with. -/
theorem sampleAlarm : (initialSandbox sampleLayout (sampleCore sampleMemory)).alarm =
    Alarm.set 0 3125000 := by
  show Alarm.set 0 (periodOf resetInterrupts 20) = _
  rw [show periodOf resetInterrupts 20 = 3125000 by decide]

/-- The alarm after a first interrupt on which 100 ticks of the timer were spent. -/
theorem sampleAlarm_first :
    (((Alarm.set 0 3125000).elapse 3125000).acknowledge 3125000).2.elapse 100 =
      ⟨3125100, some 6250000, false, 1⟩ := by decide +kernel

/-- Each task runs for a period. -/
def periodsOps (first second : UserRun) (scratch : Scratch) : List LiveOp :=
  [.run first, .elapse 3125000 100 scratch, .run second, .elapse 3125000 100 scratch]

/-- Both are interrupted. -/
theorem periodsOps_interrupted {start : Core} (first second : UserRun) (scratch : Scratch)
    (hosts : Hosts sampleLayout (sampleCore sampleMemory).cpu 3125000 start
      (initialSandbox sampleLayout (sampleCore sampleMemory))) :
    ∃ es final e₁ e₂,
      (liveMachine sampleLayout start).exec start (periodsOps first second scratch) =
        some (es, final) ∧
      interruptions es = [e₁, e₂] ∧
      taskOf e₁.before = ⟨first.x, first.sp, first.pc, first.flags⟩ ∧ e₂.after = final := by
  have prepared := (sampleCore_ready sampleMemory_tables).prepared
  obtain ⟨core₁, hstep₁, h₁⟩ := hosts.step prepared (.run first)
  rw [Sandbox.step_run _ rfl] at hstep₁ h₁
  have halarm : ((initialSandbox sampleLayout (sampleCore sampleMemory)).userRan sampleLayout
      first).alarm = Alarm.set 0 3125000 := sampleAlarm
  obtain ⟨core₂, hstep₂, h₂⟩ := h₁.interrupt prepared rfl
    (halarm.symm ▸ (by decide : ((Alarm.set 0 3125000).elapse 3125000).due = true)) 100 scratch
  rw [Sandbox.preempt_first rfl, halarm, sampleAlarm_first] at h₂
  obtain ⟨core₃, hstep₃, h₃⟩ := h₂.step prepared (.run second)
  rw [Sandbox.step_run _ rfl] at hstep₃ h₃
  obtain ⟨core₄, hstep₄, -⟩ := h₃.interrupt prepared rfl
    (by decide : (Alarm.elapse 3125000 ⟨3125100, some 6250000, false, 1⟩).due = true) 100 scratch
  exact ⟨_, core₄, _, _, Machine.exec_cons hstep₁ (Machine.exec_cons hstep₂
    (Machine.exec_cons hstep₃ (Machine.exec_singleton hstep₄))), rfl,
    (h₁.runs rfl).taskOf_eq, rfl⟩

/-- Task A runs, then B, and A is restored. -/
theorem two_interrupts_sample :
    ∃ start,
      (∀ fuel, enterSandbox sampleLayout (fuel + 1) (sampleCore sampleMemory) = some start) ∧
      ∀ first second scratch, ∃ es final, (liveMachine sampleLayout start).exec start
          (periodsOps first second scratch) = some (es, final) ∧
        (interruptions es).length = 2 ∧ TakeTurns sampleLayout (interruptions es) ∧
        taskOf final = ⟨first.x, first.sp, first.pc, first.flags⟩ := by
  have ready := sampleCore_ready sampleMemory_tables
  obtain ⟨start, hstart, hruns⟩ := two_interrupts ready
  obtain ⟨start', hstart', hosts⟩ := enterSandbox_hosts ready
  obtain rfl : start' = start := Option.some.inj ((hstart' 0).symm.trans (hstart 0))
  refine ⟨start', hstart, fun first second scratch => ?_⟩
  have hperiod : periodOf (sampleCore sampleMemory).kernel.interrupts 20 = 3125000 := by decide
  obtain ⟨es, final, hexec, hturns⟩ := hruns (periodsOps first second scratch) (by
    rw [hperiod]
    simp [periodsOps, LiveOp.Prompt])
  obtain ⟨es', final', e₁, e₂, hexec', htaken, htask, rfl⟩ :=
    periodsOps_interrupted first second scratch hosts
  obtain ⟨rfl, rfl⟩ := Prod.mk.inj (Option.some.inj (hexec.symm.trans hexec'))
  have hrestores := hturns
  rw [htaken] at hrestores
  exact ⟨es, _, hexec, by rw [htaken]; rfl, hturns, hrestores.2.task.trans htask⟩

/-! ## A late handler -/

def LiveOp.isElapse : LiveOp → Bool
  | .elapse _ _ _ => true
  | .run _ | .sync _ _ | .serror _ _ => false

/-- The tasks and the alarm are the same until time passes. -/
structure SameTasks (a a' : Sandbox) : Prop where
  current : a'.current = a.current
  waiting : a'.waiting = a.waiting
  alarm : a'.alarm = a.alarm

theorem Sandbox.step_sameTasks (a : Sandbox) (period : ℕ) {op : LiveOp}
    (hop : op.isElapse = false) : SameTasks a (a.step layout period op).2 := by
  rw [Sandbox.step.eq_def]
  split_ifs
  · exact ⟨rfl, rfl, rfl⟩
  · cases op with
    | run user => exact ⟨rfl, rfl, rfl⟩
    | sync esr scratch =>
        have hsame := a.trap_sameTurn layout esr
        exact ⟨hsame.current, hsame.waiting, hsame.alarm⟩
    | elapse duration spent scratch => cases hop
    | serror esr scratch => exact ⟨rfl, rfl, rfl⟩

/-- A task is interrupted when the alarm is due. -/
theorem Sandbox.of_step_interrupted (a : Sandbox) {period duration spent : ℕ} {scratch : Scratch}
    (h : (a.step layout period (.elapse duration spent scratch)).1 = .interrupted) :
    a.halted = false ∧ (a.alarm.elapse duration).due = true := by
  cases hhalted : a.halted with
  | true =>
      rw [a.step_halted hhalted] at h
      cases h
  | false =>
      rw [a.step_elapse hhalted] at h
      split_ifs at h with hdue
      exact ⟨rfl, hdue⟩

theorem SameTasks.trans {a a' a'' : Sandbox} (h : SameTasks a a') (h' : SameTasks a' a'') :
    SameTasks a a'' :=
  ⟨h'.current.trans h.current, h'.waiting.trans h.waiting, h'.alarm.trans h.alarm⟩

theorem Turn.of_length_eq_one {es : List LiveEvent} {a : Sandbox} (h : Turn layout es a)
    (hlength : es.length = 1) : a.current = 1 ∧ a.alarm.due = false := by
  cases h with
  | first => cases hlength
  | second leaves current due waiting => exact ⟨current, due⟩
  | last => cases hlength

/-- **A third interrupt comes exactly when the second one is dealt with too late.**  The first
interrupt is dealt with in time, and the second takes `spent` ticks of the timer; then whatever
user code does, as soon as it is interruptible it is interrupted again if that was a period or
more, and else it is not.  Task B, which should not run again, continues where it was. -/
theorem third_interrupt_iff {core : Core} (ready : Ready layout core) :
    ∃ start, (∀ fuel, enterSandbox layout (fuel + 1) core = some start) ∧
      ∀ (pre mid : List LiveOp) (duration spent duration' spent' : ℕ) (scratch scratch' : Scratch),
        (∀ op ∈ pre, op.Prompt (periodOf core.kernel.interrupts 20)) →
        (∀ op ∈ mid, op.isElapse = false) →
        ∃ (es₁ es₂ : List LiveEvent) (second third : LiveEvent) (final : Core),
          (liveMachine layout start).exec start (pre ++ .elapse duration spent scratch ::
              (mid ++ [.elapse duration' spent' scratch'])) =
            some (es₁ ++ second :: (es₂ ++ [third]), final) ∧
          es₁.map Event.op = pre ∧
          ((interruptions es₁).length = 1 → second.result = .interrupted →
            second.after.kernel.interrupts.board.timer.counter.val < 2 ^ 63 - 1 →
            third.before.halted = false →
              (third.result = .interrupted ↔ periodOf core.kernel.interrupts 20 ≤ spent) ∧
              (third.result = .interrupted →
                third.after.kernel.scheduler.current = some PREEMPT_TASK_B ∧
                taskOf third.after = taskOf second.before)) := by
  obtain ⟨start, hstart, hosts⟩ := enterSandbox_hosts ready
  refine ⟨start, hstart, ?_⟩
  intro pre mid duration spent duration' spent' scratch scratch' hprompt hmid
  generalize periodOf core.kernel.interrupts 20 = period at *
  have prepared := ready.prepared
  obtain ⟨es₁, core₁, hexec₁, a₁, h₁, hturn⟩ := turns_run prepared hosts pre hprompt
  obtain ⟨core₂, hstep₂, h₂⟩ := h₁.step prepared (.elapse duration spent scratch)
  obtain ⟨es₂, core₃, hexec₃, a₃, h₃, hsame⟩ := Machine.exec_of_invariant_of
    (M := liveMachine layout start) (s := core₂) (LiveOp.isElapse · = false)
    (fun _ core' => ∃ a', Hosts layout core.cpu period core' a' ∧
      SameTasks (a₁.step layout period (.elapse duration spent scratch)).2 a')
    ⟨_, h₂, rfl, rfl, rfl⟩ (by
      rintro es core' op hop ⟨a', h, hsame⟩
      obtain ⟨core'', hstep, h'⟩ := h.step prepared op
      exact ⟨_, core'', hstep, _, h', hsame.trans (a'.step_sameTasks period hop)⟩) mid hmid
  obtain ⟨core₄, hstep₄, h₄⟩ := h₃.step prepared (.elapse duration' spent' scratch')
  refine ⟨es₁, es₂, _, _, core₄, Machine.exec_append hexec₁ (Machine.exec_cons hstep₂
    (Machine.exec_append hexec₃ (Machine.exec_singleton hstep₄))), Machine.exec_ops hexec₁, ?_⟩
  intro hone hsecond hclock hlive
  obtain ⟨hcurrent, -⟩ := hturn.of_length_eq_one hone
  have hlive₃ : a₃.halted = false := h₃.halted.symm.trans hlive
  obtain ⟨hlive₁, hdue⟩ := a₁.of_step_interrupted hsecond
  rw [a₁.step_elapse hlive₁, if_pos hdue, Sandbox.preempt_second hcurrent] at h₂ hsame
  -- the alarm that is stopped may be due
  have hclock₂ := (h₂.keeps hlive₁).alarm.now
  have hlate := Alarm.acknowledge_elapse_iff hdue (h₂.keeps hlive₁).alarm.period_pos
    (lt_of_eq_of_lt hclock₂.symm hclock)
  have hdue₃ : (a₃.alarm.elapse duration').due = true ↔ period ≤ spent := by
    rw [hsame.alarm, ← hlate]
    exact Eq.congr_left (Alarm.stop_elapse _ _)
  have hresult : (a₃.step layout period (.elapse duration' spent' scratch')).1 = .interrupted ↔
      period ≤ spent := by
    rw [a₃.step_elapse hlive₃, ← hdue₃]
    split_ifs with h
    · exact iff_of_true rfl h
    · exact iff_of_false not_false h
  refine ⟨hresult, fun hthird => ?_⟩
  obtain ⟨-, hdue₃⟩ := a₃.of_step_interrupted hthird
  rw [a₃.step_elapse hlive₃, if_pos hdue₃, Sandbox.preempt_first hsame.current] at h₄
  refine ⟨(h₄.keeps hlive₃).current, ?_⟩
  rw [(h₄.runs hlive₃).taskOf_eq, (h₁.runs hlive₁).taskOf_eq]
  exact hsame.waiting

/-- Twice a period is spent on the second interrupt. -/
def lateOps (scratch : Scratch) : List LiveOp :=
  [.elapse 3125000 100 scratch, .elapse 3125000 6250000 scratch, .elapse 0 100 scratch]

/-- All three are taken, and the clock is far from its end. -/
theorem lateOps_interrupted {start : Core} (scratch : Scratch)
    (hosts : Hosts sampleLayout (sampleCore sampleMemory).cpu 3125000 start
      (initialSandbox sampleLayout (sampleCore sampleMemory))) :
    ∃ first second third final,
      (liveMachine sampleLayout start).exec start (lateOps scratch) =
        some ([first, second, third], final) ∧
      first.result = .interrupted ∧ second.result = .interrupted ∧
      second.after.kernel.interrupts.board.timer.counter.val < 2 ^ 63 - 1 ∧
      third.before.halted = false := by
  have prepared := (sampleCore_ready sampleMemory_tables).prepared
  -- the alarm before the third interrupt
  have halarm₂ : (((Alarm.elapse 3125000 ⟨3125100, some 6250000, false, 1⟩).acknowledge
      3125000).2.elapse 6250000).stop = ⟨12500100, none, true, 2⟩ := by decide +kernel
  obtain ⟨core₁, hstep₁, h₁⟩ := hosts.interrupt prepared rfl
    (sampleAlarm.symm ▸ (by decide : ((Alarm.set 0 3125000).elapse 3125000).due = true)) 100 scratch
  rw [Sandbox.preempt_first rfl, sampleAlarm, sampleAlarm_first] at h₁
  obtain ⟨core₂, hstep₂, h₂⟩ := h₁.interrupt prepared rfl
    (by decide : (Alarm.elapse 3125000 ⟨3125100, some 6250000, false, 1⟩).due = true)
    6250000 scratch
  rw [Sandbox.preempt_second rfl, halarm₂] at h₂
  obtain ⟨core₃, hstep₃, -⟩ := h₂.interrupt prepared rfl
    (by decide : (Alarm.elapse 0 ⟨12500100, none, true, 2⟩).due = true) 100 scratch
  refine ⟨_, _, _, core₃, Machine.exec_cons hstep₁ (Machine.exec_cons hstep₂
    (Machine.exec_singleton hstep₃)), rfl, rfl, ?_, h₂.halted⟩
  show core₂.kernel.interrupts.board.timer.counter.val < _
  rw [(h₂.keeps rfl).alarm.now]
  decide

/-- The third interrupt comes, and task B continues. -/
theorem third_interrupt_iff_sample :
    ∃ start,
      (∀ fuel, enterSandbox sampleLayout (fuel + 1) (sampleCore sampleMemory) = some start) ∧
      ∀ scratch, ∃ (first second third : LiveEvent) (final : Core),
        (liveMachine sampleLayout start).exec start (lateOps scratch) =
          some ([first, second, third], final) ∧
        first.result = .interrupted ∧ second.result = .interrupted ∧
        third.result = .interrupted ∧
        third.after.kernel.scheduler.current = some PREEMPT_TASK_B ∧
        taskOf third.after = taskOf second.before := by
  have ready := sampleCore_ready sampleMemory_tables
  obtain ⟨start, hstart, hruns⟩ := third_interrupt_iff ready
  obtain ⟨start', hstart', hosts⟩ := enterSandbox_hosts ready
  obtain rfl : start' = start := Option.some.inj ((hstart' 0).symm.trans (hstart 0))
  refine ⟨start', hstart, fun scratch => ?_⟩
  obtain ⟨es₁, es₂, second, third, final, hexec, hops, hlate⟩ :=
    hruns [.elapse 3125000 100 scratch] [] 3125000 6250000 0 100 scratch scratch (by
      rw [List.forall_mem_singleton]
      show 100 < periodOf resetInterrupts 20
      decide) (List.forall_mem_nil _)
  obtain ⟨first, second', third', final', hexec', hfirst, hsecond, hclock, hlive⟩ :=
    lateOps_interrupted scratch hosts
  -- the events of the theorem are those of the run
  obtain ⟨first', rfl⟩ : ∃ first', es₁ = [first'] := by
    rw [← List.length_eq_one_iff, ← List.length_map, hops]
    rfl
  obtain ⟨hevents, -⟩ := Prod.mk.inj (Option.some.inj (hexec.symm.trans hexec'))
  obtain ⟨rfl, hrest⟩ := List.cons.inj hevents
  obtain ⟨rfl, hlast⟩ := List.cons.inj hrest
  have hlast : es₂ ++ [third] = [] ++ [third'] := hlast
  obtain rfl : third = third' := List.singleton_inj.mp (List.append_inj_right' hlast rfl)
  obtain ⟨hiff, hthird⟩ := hlate (by rw [interruptions_taken hfirst]; rfl) hsecond hclock hlive
  have htaken : third.result = .interrupted := by
    refine hiff.mpr ?_
    show periodOf resetInterrupts 20 ≤ 6250000
    decide
  exact ⟨_, _, _, final', hexec', hfirst, hsecond, htaken, hthird htaken⟩

end Aegis.Live
