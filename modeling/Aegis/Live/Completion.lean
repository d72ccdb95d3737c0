import Mathlib
import Aegis.Live.Stages

/-!
# When the demo completes

Whatever the interleaving of instructions and time, the console shows a beginning of one
transcript, and the kernel halts when all of it is there.  Whether that happens depends on
three numbers: how many instructions run before the first interrupt, how many between the two
and how many after.

Task A must have cleared the word before it is interrupted, which takes six instructions, and
task B must have set it, which takes five.  Nothing in the code ensures either: if the timer
is faster than that, A waits for good.
-/

namespace Aegis.Live

open Foundation A64 Preempt Boot Irq

variable {layout : Layout}

/-! ## Runs as bursts of instructions -/

def DemoOp.Prompt (period : ℕ) : DemoOp → Prop
  | .instr _ => True
  | .elapse _ spent _ => spent < period

/-- How many interrupts are taken. -/
def interruptCount (es : List DemoEvent) : ℕ := es.countP fun ev => ev.result = .interrupted

/-- How many instructions run up to the first interrupt, then up to the next, and so on. -/
def bursts : List DemoEvent → List ℕ
  | [] => [0]
  | ev :: es =>
      if ev.result = .interrupted then 0 :: bursts es
      else
        match ev.op with
        | .instr _ => (bursts es).modifyHead (· + 1)
        | .elapse _ _ _ => bursts es

/-- The word is cleared before the first interrupt and set before the second; then A finds it
set when it next reads it, and has nine more instructions. -/
def Completes : List ℕ → Prop
  | [first, second, third] =>
      6 ≤ first ∧ 5 ≤ second ∧ 11 + (4 - (first - 6) % 4) % 4 ≤ third
  | _ => False

namespace Stage

/-- The stage after an event. -/
def after (s : Stage) (ev : DemoEvent) : Stage :=
  if ev.result = .interrupted then s.interrupted
  else
    match ev.op with
    | .instr _ => s.next
    | .elapse _ _ _ => s

/-- The stage after bursts of instructions, with an interrupt between any two. -/
def afterBursts : Stage → List ℕ → Stage
  | s, [] => s
  | s, [n] => next^[n] s
  | s, n :: m :: ns => (next^[n] s).interrupted.afterBursts (m :: ns)

theorem afterBursts_zero (s : Stage) (ns : List ℕ) (h : ns ≠ []) :
    s.afterBursts (0 :: ns) = s.interrupted.afterBursts ns := by
  cases ns with
  | nil => exact absurd rfl h
  | cons m ns => rfl

theorem afterBursts_succ (s : Stage) (ns : List ℕ) (h : ns ≠ []) :
    s.afterBursts (ns.modifyHead (· + 1)) = s.next.afterBursts ns := by
  match ns, h with
  | [n], _ => rfl
  | n :: m :: ns, _ => rfl

/-- How many interrupts there have been. -/
def turns : Stage → ℕ
  | .alone _ => 0
  | .other _ _ => 1
  | .spins _ | .finds _ _ | .serves _ | .done => 2

theorem turns_next (s : Stage) : s.next.turns = s.turns := by
  cases s with
  | finds i seen =>
      simp only [next]
      split_ifs <;> rfl
  | serves k =>
      simp only [next]
      split_ifs <;> rfl
  | _ => rfl

theorem turns_interrupted {s : Stage} (h : s.isBack = false) :
    s.interrupted.turns = s.turns + 1 := by
  cases s with
  | alone i => rfl
  | other i j =>
      simp only [interrupted]
      split_ifs <;> rfl
  | spins i => cases h
  | finds i seen => cases h
  | serves k => cases h
  | done => cases h

theorem turns_le (s : Stage) : s.turns ≤ 2 := by
  cases s <;> simp [turns]

end Stage

theorem length_bursts (es : List DemoEvent) :
    (bursts es).length = interruptCount es + 1 := by
  unfold interruptCount
  induction es with
  | nil => rfl
  | cons ev es ih =>
      unfold bursts
      split_ifs with hresult
      · rw [List.length_cons, ih, List.countP_cons_of_pos (by simpa using hresult)]
      · rw [List.countP_cons_of_neg (by simpa using hresult), ← ih]
        split
        · exact List.length_modifyHead
        · rfl

theorem bursts_ne_nil (es : List DemoEvent) : bursts es ≠ [] := by
  rw [← List.length_pos_iff_ne_nil, length_bursts]
  exact Nat.succ_pos _

/-- An interrupt ends a burst. -/
theorem bursts_append_interrupted {es : List DemoEvent} {n : ℕ} (h : bursts es = [n])
    {ev : DemoEvent} (hev : ev.result = .interrupted) (fs : List DemoEvent) :
    bursts (es ++ ev :: fs) = n :: bursts fs := by
  induction es generalizing n with
  | nil =>
      cases h
      rw [List.nil_append, bursts, if_pos hev]
  | cons e es ih =>
      rw [List.cons_append, bursts]
      rw [bursts] at h
      split_ifs at h ⊢ with hresult
      · exact absurd (List.cons.inj h).2 (bursts_ne_nil es)
      · cases hop : e.op with
        | instr scratch =>
            rw [hop] at h
            simp only at h ⊢
            cases hes : bursts es with
            | nil => exact absurd hes (bursts_ne_nil es)
            | cons m ms =>
                rw [hes, List.modifyHead_cons] at h
                cases h
                rw [ih hes, List.modifyHead_cons]
        | elapse duration spent scratch =>
            rw [hop] at h
            exact ih h

/-- Only the lengths of the bursts matter. -/
theorem foldl_after (s : Stage) (es : List DemoEvent) :
    es.foldl Stage.after s = s.afterBursts (bursts es) := by
  induction es generalizing s with
  | nil => rfl
  | cons ev es ih =>
      rw [List.foldl_cons, ih, Stage.after, bursts]
      split_ifs with hresult
      · exact (s.afterBursts_zero _ (bursts_ne_nil es)).symm
      · split
        · exact (s.afterBursts_succ _ (bursts_ne_nil es)).symm
        · rfl

/-! ## How long it takes -/

theorem nextA_iterate (m : ℕ) : nextA^[m] 0 = if m < 6 then m else 6 + (m - 6) % 4 := by
  induction m with
  | zero => rfl
  | succ m ih =>
      rw [Function.iterate_succ_apply', ih, nextA]
      split_ifs <;> omega

theorem nextB_iterate (n : ℕ) : nextB^[n] 0 = if n < 5 then n else 5 + (n - 5) % 2 := by
  induction n with
  | zero => rfl
  | succ n ih =>
      rw [Function.iterate_succ_apply', ih, nextB]
      split_ifs <;> omega

namespace Stage

theorem next_iterate_alone (m i : ℕ) : next^[m] (alone i) = alone (nextA^[m] i) :=
  ((show Function.Semiconj alone nextA next from fun _ => rfl).iterate_right m i).symm

theorem next_iterate_other (n i j : ℕ) : next^[n] (other i j) = other i (nextB^[n] j) :=
  ((show Function.Semiconj (other i) nextB next from fun _ => rfl).iterate_right n j).symm

theorem next_iterate_spins (k i : ℕ) : next^[k] (spins i) = spins (nextA^[k] i) :=
  ((show Function.Semiconj spins nextA next from fun _ => rfl).iterate_right k i).symm

/-- A reads the word within four instructions. -/
theorem next_iterate_finds {i : ℕ} (hi : 6 ≤ i) (hi' : i ≤ 9) (k : ℕ) :
    next^[k] (finds i false) = done ↔ 11 + (10 - i) % 4 ≤ k := by
  have early : ∀ k < 11 + (10 - i) % 4, next^[k] (finds i false) ≠ done := by
    interval_cases i <;> decide
  have reached : next^[11 + (10 - i) % 4] (finds i false) = done := by
    interval_cases i <;> decide
  constructor
  · intro hdone
    by_contra hlt
    exact early k (by omega) hdone
  · intro hle
    obtain ⟨more, rfl⟩ := Nat.exists_eq_add_of_le hle
    rw [Nat.add_comm, Function.iterate_add_apply, reached, Function.iterate_fixed rfl]

/-- **The demo completes** under exactly this condition. -/
theorem afterBursts_done_iff {ns : List ℕ} (hlength : ns.length ≤ 3) :
    (alone 0).afterBursts ns = done ↔ Completes ns := by
  match ns, hlength with
  | [], _ => simp [afterBursts, Completes]
  | [m], _ => simp [afterBursts, next_iterate_alone, Completes]
  | [m, n], _ => simp [afterBursts, next_iterate_alone, next_iterate_other, interrupted, Completes]
  | [m, n, k], _ =>
      simp only [afterBursts, next_iterate_alone, next_iterate_other, interrupted, Completes]
      have hcleared : 6 ≤ nextA^[m] 0 ↔ 6 ≤ m := by
        rw [nextA_iterate]
        split_ifs <;> omega
      have hset : 5 ≤ nextB^[n] 0 ↔ 5 ≤ n := by
        rw [nextB_iterate]
        split_ifs <;> omega
      simp only [hcleared, hset]
      split_ifs with hword
      · have hi : nextA^[m] 0 = 6 + (m - 6) % 4 := by
          rw [nextA_iterate, if_neg (by omega)]
        rw [hi, next_iterate_finds (by omega) (by omega)]
        simp only [hword, true_and]
        omega
      · rw [next_iterate_spins]
        constructor
        · intro hdone
          cases hdone
        · exact fun h => absurd ⟨h.1, h.2.1⟩ hword

end Stage

/-! ## Every run -/

section Run

variable {boot : State} {period : ℕ} {core : Core} {a : Sandbox} {before : List Output}
  {s : Stage}

/-- **One operation** takes the stage along. -/
theorem Stage.Holds.step (hs : s.Holds layout before a) (h : Hosts layout boot period core a)
    (prepared : Prepared layout boot) {op : DemoOp} (hprompt : op.Prompt period) (init : Core) :
    ∃ r core' a', (demoMachine layout init).step core op = some (r, core') ∧
      Hosts layout boot period core' a' ∧
      (s.after ⟨core, op, r, core'⟩).Holds layout before a' ∧
      (r = .interrupted → s.isBack = false) := by
  cases op with
  | instr scratch =>
      obtain ⟨r, core', a', hexec, hresult, h', -, hs'⟩ :=
        Stage.Holds.instr h prepared scratch hs
      refine ⟨r, core', a', hexec, h', ?_, fun heq => absurd heq hresult⟩
      rw [Stage.after, if_neg hresult]
      exact hs'
  | elapse duration spent scratch =>
      obtain ⟨core', hstep, h'⟩ := h.step prepared (.elapse duration spent scratch)
      cases hhalted : a.halted with
      | true =>
          rw [a.step_halted hhalted] at hstep h'
          exact ⟨_, core', a, hstep, h', hs, LiveResult.noConfusion⟩
      | false =>
          rw [a.step_elapse hhalted] at hstep h'
          split_ifs at hstep h' with hdue
          · refine ⟨_, core', _, hstep, h', hs.preempt hdue hprompt, fun _ => ?_⟩
            by_contra hback
            rw [hs.quiet (Bool.eq_true_of_not_eq_false hback)] at hdue
            cases hdue
          · exact ⟨_, core', _, hstep, h', hs.elapse (Bool.eq_false_iff.mpr hdue),
              LiveResult.noConfusion⟩

/-- User code starts in the first stage. -/
theorem initialSandbox_holds (layout : Layout) (core : Core) :
    (Stage.alone 0).Holds layout (core.kernel.console ++ [.line .enteringSandbox])
      (initialSandbox layout core) := by
  refine ⟨(List.append_nil _).symm, rfl, rfl, Bool.noConfusion, by decide, rfl, rfl, rfl, rfl,
    ⟨rfl, ?_, ?_, ?_, ?_, ?_, ?_⟩, ?_⟩ <;> simp

theorem Stage.turns_after {ev : DemoEvent} (h : ev.result = .interrupted → s.isBack = false) :
    (s.after ev).turns = s.turns + if ev.result = .interrupted then 1 else 0 := by
  unfold Stage.after
  split_ifs with hresult
  · exact turns_interrupted (h hresult)
  · split
    · exact s.turns_next
    · rfl

end Run

/-- The console and the stage at the end of a run. -/
structure DemoRun (layout : Layout) (before : List Output) (es : List DemoEvent) (final : Core) :
    Prop where
  console : final.kernel.console =
    before ++ transcript.take ((Stage.alone 0).afterBursts (bursts es)).printed
  halted : final.halted = decide ((Stage.alone 0).afterBursts (bursts es) = .done)
  length_le : (bursts es).length ≤ 3

/-- Every run with prompt interrupts is such a run. -/
theorem demo_run {core start : Core} (prepared : Prepared layout core.cpu) {period : ℕ}
    (hosts : Hosts layout core.cpu period start (initialSandbox layout core)) (ops : List DemoOp)
    (hprompt : ∀ op ∈ ops, op.Prompt period) :
    ∃ es final, (demoMachine layout start).exec start ops = some (es, final) ∧
      DemoRun layout (core.kernel.console ++ [.line .enteringSandbox]) es final := by
  obtain ⟨es, final, hexec, a, h, hs, hturns⟩ := Machine.exec_of_invariant_of
    (M := demoMachine layout start) (DemoOp.Prompt period)
    (fun es core' => ∃ a, Hosts layout core.cpu period core' a ∧
      (es.foldl Stage.after (.alone 0)).Holds layout
        (core.kernel.console ++ [.line .enteringSandbox]) a ∧
      (es.foldl Stage.after (.alone 0)).turns = interruptCount es)
    ⟨_, hosts, initialSandbox_holds layout core, rfl⟩ (by
      rintro es core' op hop ⟨a, h, hs, hturns⟩
      obtain ⟨r, core'', a', hstep, h', hs', hback⟩ := hs.step h prepared hop start
      refine ⟨r, core'', hstep, a', h', ?_, ?_⟩
      · rw [List.foldl_append]
        exact hs'
      · rw [List.foldl_append, interruptCount, List.countP_append, ← interruptCount, ← hturns,
          List.countP_singleton]
        simpa using Stage.turns_after hback) ops hprompt
  have hlength := (es.foldl Stage.after (.alone 0)).turns_le
  rw [hturns] at hlength
  rw [foldl_after] at hs
  exact ⟨es, final, hexec, h.console.trans hs.console, h.halted.trans hs.halted,
    by rw [length_bursts]; omega⟩

/-- All has been printed in the last stage only. -/
theorem Stage.length_le_printed_iff (s : Stage) :
    transcript.length ≤ s.printed ↔ s = .done := by
  cases s with
  | serves k =>
      have hle : (Stage.serves k).printed ≤ 11 := by
        rcases Nat.lt_or_ge k 9 with hk | hk
        · interval_cases k <;> decide
        · rw [Stage.printed, List.getD_eq_default _ _ hk]
      have hlt : ¬transcript.length ≤ (Stage.serves k).printed := by
        show ¬13 ≤ _
        omega
      simp only [hlt, reduceCtorEq]
  | _ => simp [Stage.printed, transcript]

/-! ## Completion in time -/

section Schedule

variable {boot : State} {period : ℕ} {core : Core} {a : Sandbox} {before : List Output}
  {s : Stage}

/-- A burst of instructions. -/
theorem Stage.Holds.burst (hs : s.Holds layout before a) (h : Hosts layout boot period core a)
    (prepared : Prepared layout boot) (init : Core) (scratches : List Scratch) :
    ∃ es core' a',
      (demoMachine layout init).exec core (scratches.map .instr) = some (es, core') ∧
      bursts es = [scratches.length] ∧
      Hosts layout boot period core' a' ∧ a'.alarm = a.alarm ∧
      (Stage.next^[scratches.length] s).Holds layout before a' := by
  induction scratches generalizing core a s with
  | nil => exact ⟨[], core, a, rfl, rfl, h, rfl, hs⟩
  | cons scratch scratches ih =>
      obtain ⟨r, core₁, a₁, hexec, hresult, h₁, halarm₁, hs₁⟩ :=
        Stage.Holds.instr h prepared scratch hs
      obtain ⟨es, core', a', hrest, hbursts, h', halarm, hs'⟩ := ih hs₁ h₁
      refine ⟨_, core', a', Machine.exec_cons hexec hrest, ?_, h', halarm.trans halarm₁, hs'⟩
      rw [bursts, if_neg hresult, hbursts]
      rfl

/-- A period passes, and the running task is interrupted. -/
theorem Stage.Holds.interrupt (hs : s.Holds layout before a)
    (h : Hosts layout boot period core a) (prepared : Prepared layout boot) (init : Core)
    {duration spent : ℕ} (scratch : Scratch) (hlive : a.halted = false)
    (hdue : (a.alarm.elapse duration).due = true) (hspent : spent < period) :
    ∃ core', (demoMachine layout init).step core (.elapse duration spent scratch) =
        some (.interrupted, core') ∧
      Hosts layout boot period core'
        ({ a with alarm := a.alarm.elapse duration }.preempt period spent) ∧
      s.interrupted.Holds layout before
        ({ a with alarm := a.alarm.elapse duration }.preempt period spent) := by
  obtain ⟨core', hstep, h'⟩ := Hosts.interrupt h prepared hlive hdue spent scratch
  exact ⟨core', hstep, h', hs.preempt hdue hspent⟩

end Schedule

/-- Instructions, and then time that passes until an interrupt has been dealt with. -/
structure Slice where
  instrs : List Scratch
  duration : ℕ
  spent : ℕ
  scratch : Scratch

def Slice.ops (s : Slice) : List DemoOp :=
  s.instrs.map .instr ++ [.elapse s.duration s.spent s.scratch]

/-- There are enough instructions before a period has passed. -/
structure Slice.Timely (s : Slice) (period enough : ℕ) : Prop where
  enough : enough ≤ s.instrs.length
  passed : period ≤ s.duration
  prompt : s.spent < period

/-- User code starts from `core`, and if a period passes after at least six instructions and
another one after at least five, fourteen more instructions lead to the end of the
transcript. -/
def DemoCompletes (layout : Layout) (core : Core) : Prop :=
  ∃ start, (∀ fuel, enterSandbox layout (fuel + 1) core = some start) ∧
    ∀ (first second : Slice) (third : List Scratch),
      first.Timely (periodOf core.kernel.interrupts 20) 6 →
      second.Timely (periodOf core.kernel.interrupts 20) 5 →
      14 ≤ third.length →
      -- the counter does not reach the middle of its range
      core.kernel.interrupts.board.timer.counter + first.duration + first.spent +
        second.duration < 2 ^ 63 →
      ∃ es final, (demoMachine layout start).exec start
          (first.ops ++ (second.ops ++ third.map .instr)) = some (es, final) ∧
        final.halted = true ∧
        final.kernel.console = core.kernel.console ++ [.line .enteringSandbox] ++ transcript

/-- When a period passes in each of two slices, both end with an interrupt. -/
theorem sliced_run {core start : Core} (prepared : Prepared layout core.cpu) {period : ℕ}
    (hosts : Hosts layout core.cpu period start (initialSandbox layout core))
    (harmed : (initialSandbox layout core).alarm.deadline =
      some (core.kernel.interrupts.board.timer.counter + period))
    {first second : Slice} {enough enough' : ℕ} (hfirst : first.Timely period enough)
    (hsecond : second.Timely period enough') (third : List Scratch)
    (hclock : core.kernel.interrupts.board.timer.counter + first.duration + first.spent +
      second.duration < 2 ^ 63) :
    ∃ es final, (demoMachine layout start).exec start
        (first.ops ++ (second.ops ++ third.map .instr)) = some (es, final) ∧
      bursts es = [first.instrs.length, second.instrs.length, third.length] := by
  obtain ⟨-, hpassed₁, hprompt₁⟩ := hfirst
  obtain ⟨-, hpassed₂, hprompt₂⟩ := hsecond
  have hnow : (initialSandbox layout core).alarm.now =
      core.kernel.interrupts.board.timer.counter := rfl
  have hperiod := (hosts.keeps rfl).alarm.period_pos
  -- the first burst, and the interrupt after it
  obtain ⟨es₁, core₁, a₁, hexec₁, hbursts₁, h₁, halarm₁, hs₁⟩ :=
    (initialSandbox_holds layout core).burst hosts prepared start first.instrs
  rw [Stage.next_iterate_alone] at hs₁
  rw [← halarm₁] at hnow harmed
  have hdue₁ : (a₁.alarm.elapse first.duration).due = true :=
    Alarm.elapse_reached harmed (by omega) (by omega) (by omega)
  obtain ⟨core₂, hexec₂, h₂, hs₂⟩ :=
    hs₁.interrupt h₁ prepared start first.scratch hs₁.halted hdue₁ hprompt₁
  rw [Sandbox.preempt_first hs₁.tasks.2.1] at h₂ hs₂
  -- the second burst, and the interrupt after it
  obtain ⟨es₃, core₃, a₃, hexec₃, hbursts₃, h₃, halarm₃, hs₃⟩ :=
    hs₂.burst h₂ prepared start second.instrs
  rw [Stage.interrupted, Stage.next_iterate_other] at hs₃
  have hnow₁ : (a₁.alarm.elapse first.duration).now =
      min (a₁.alarm.now + first.duration) (2 ^ 63 - 1) := rfl
  have hnow₃ := Alarm.acknowledge_now (a₁.alarm.elapse first.duration) period first.spent
  have hdue₃ : (a₃.alarm.elapse second.duration).due = true := by
    rw [halarm₃]
    exact Alarm.elapse_reached (Alarm.acknowledge_deadline hdue₁ period first.spent)
      (by omega) (by omega) (by omega)
  obtain ⟨core₄, hexec₄, h₄, hs₄⟩ :=
    hs₃.interrupt h₃ prepared start second.scratch hs₃.halted hdue₃ hprompt₂
  -- the third burst
  obtain ⟨es₅, final, a₅, hexec₅, hbursts₅, -⟩ := hs₄.burst h₄ prepared start third
  refine ⟨_, final, Machine.exec_append (Machine.exec_append hexec₁ (Machine.exec_singleton hexec₂))
    (Machine.exec_append (Machine.exec_append hexec₃ (Machine.exec_singleton hexec₄)) hexec₅), ?_⟩
  rw [List.append_assoc, List.singleton_append, bursts_append_interrupted hbursts₁ rfl,
    List.append_assoc, List.singleton_append, bursts_append_interrupted hbursts₃ rfl, hbursts₅]

theorem Slice.Timely.prompt_ops {s : Slice} {period enough : ℕ} (h : s.Timely period enough) :
    ∀ op ∈ s.ops, op.Prompt period := by
  rw [Slice.ops, List.forall_mem_append, List.forall_mem_singleton, List.forall_mem_map]
  exact ⟨fun _ _ => trivial, h.prompt⟩

/-- **The demo completes in time**: both interrupts come, each at a stage of the two programs
at which it helps. -/
theorem demo_completes {core : Core} (ready : Ready layout core) : DemoCompletes layout core := by
  obtain ⟨start, hstart, hosts⟩ := enterSandbox_hosts ready
  refine ⟨start, hstart, fun first second third hfirst hsecond hthird hclock => ?_⟩
  obtain ⟨es, final, hexec, hbursts⟩ :=
    sliced_run ready.prepared hosts rfl hfirst hsecond third hclock
  obtain ⟨es', final', hexec', hrun⟩ := demo_run ready.prepared hosts
    (first.ops ++ (second.ops ++ third.map .instr)) (by
      rw [List.forall_mem_append, List.forall_mem_append, List.forall_mem_map]
      exact ⟨hfirst.prompt_ops, hsecond.prompt_ops, fun _ _ => trivial⟩)
  obtain ⟨rfl, rfl⟩ := Prod.mk.inj (Option.some.inj (hexec.symm.trans hexec'))
  have hdone : (Stage.alone 0).afterBursts (bursts es) = .done := by
    rw [Stage.afterBursts_done_iff hrun.length_le, hbursts]
    exact ⟨hfirst.enough, hsecond.enough, by omega⟩
  refine ⟨es, final, hexec, ?_, ?_⟩
  · rw [hrun.halted, hdone]
    rfl
  · rw [hrun.console, hdone]
    rfl

/-! ## Two runs -/

/-- Some instructions in half a period, on a timer of 62.5 MHz. -/
def sampleSlice (n : ℕ) (scratch : Scratch) : Slice :=
  ⟨List.replicate n scratch, 3125000, 100, scratch⟩

theorem sampleSlice_timely {n enough : ℕ} (h : enough ≤ n) (scratch : Scratch) :
    (sampleSlice n scratch).Timely 3125000 enough := by
  refine ⟨?_, le_rfl, (by decide : 100 < 3125000)⟩
  rwa [sampleSlice, List.length_replicate]

/-- Both interrupts come; there are `n` instructions before the first. -/
def sampleRun (n : ℕ) (scratch : Scratch) : List DemoOp :=
  (sampleSlice n scratch).ops ++ ((sampleSlice 1000 scratch).ops ++
    (List.replicate 1000 scratch).map .instr)

theorem sampleRun_prompt (n : ℕ) (scratch : Scratch) :
    ∀ op ∈ sampleRun n scratch, op.Prompt (periodOf resetInterrupts 20) := by
  rw [show periodOf resetInterrupts 20 = 3125000 by decide, sampleRun, List.forall_mem_append,
    List.forall_mem_append, List.forall_mem_map]
  exact ⟨(sampleSlice_timely (Nat.zero_le n) scratch).prompt_ops,
    (sampleSlice_timely (Nat.zero_le 1000) scratch).prompt_ops, fun _ _ => trivial⟩

/-- With a thousand instructions in each burst, the demo completes. -/
theorem DemoCompletes.sampleRun {core : Core} (h : DemoCompletes layout core)
    (hperiod : periodOf core.kernel.interrupts 20 = 3125000)
    (hclock : core.kernel.interrupts.board.timer.counter.val < 2 ^ 62) :
    ∃ start, (∀ fuel, enterSandbox layout (fuel + 1) core = some start) ∧
      ∀ scratch, ∃ es final, (demoMachine layout start).exec start (sampleRun 1000 scratch) =
          some (es, final) ∧
        final.halted = true ∧
        final.kernel.console = core.kernel.console ++ [.line .enteringSandbox] ++ transcript := by
  obtain ⟨start, hstart, hdemo⟩ := h
  rw [hperiod] at hdemo
  refine ⟨start, hstart, fun scratch => ?_⟩
  refine hdemo (sampleSlice 1000 scratch) (sampleSlice 1000 scratch) (List.replicate 1000 scratch)
    (sampleSlice_timely (by decide) scratch) (sampleSlice_timely (by decide) scratch)
    (by rw [List.length_replicate]; decide) ?_
  show _ + 3125000 + 100 + 3125000 < 2 ^ 63
  omega

theorem sampleRun_bursts (n : ℕ) (scratch : Scratch) {start : Core}
    (hstart : enterSandbox sampleLayout 1 (sampleCore sampleMemory) = some start) :
    ∃ es final, (demoMachine sampleLayout start).exec start (sampleRun n scratch) =
        some (es, final) ∧ bursts es = [n, 1000, 1000] := by
  have ready := sampleCore_ready sampleMemory_tables
  obtain ⟨start', hstart', hosts⟩ := enterSandbox_hosts ready
  obtain rfl : start' = start := Option.some.inj ((hstart' 0).symm.trans hstart)
  have hperiod : periodOf (sampleCore sampleMemory).kernel.interrupts 20 = 3125000 := by decide
  have htimely : ∀ m, (sampleSlice m scratch).Timely
      (periodOf (sampleCore sampleMemory).kernel.interrupts 20) 0 :=
    fun m => hperiod.symm ▸ sampleSlice_timely (Nat.zero_le m) scratch
  obtain ⟨es, final, hexec, hbursts⟩ := sliced_run ready.prepared hosts rfl (htimely n)
    (htimely 1000) (List.replicate 1000 scratch)
    (by decide : 0 + 3125000 + 100 + 3125000 < 2 ^ 63)
  refine ⟨es, final, hexec, ?_⟩
  rw [hbursts, sampleSlice, sampleSlice, List.length_replicate, List.length_replicate]

/-! ## Results -/

/-- **The console shows a beginning of the transcript**, whatever the interleaving of
instructions, time and interrupts, and the kernel halts when it shows all of it.  The same is
true of the bytes that have come out of the UART. -/
theorem console_transcript {core : Core} (ready : Ready layout core) :
    ∃ start, (∀ fuel, enterSandbox layout (fuel + 1) core = some start) ∧
      ∀ ops, (∀ op ∈ ops, op.Prompt (periodOf core.kernel.interrupts 20)) →
        ∃ es final shown sent, (demoMachine layout start).exec start ops = some (es, final) ∧
          final.kernel.console =
            core.kernel.console ++ [.line .enteringSandbox] ++ shown ∧
          shown <+: transcript ∧ (final.halted = true ↔ shown = transcript) ∧
          uartBytes final.kernel.console =
            uartBytes (core.kernel.console ++ [.line .enteringSandbox]) ++ sent ∧
          sent <+: uartBytes transcript ∧
          (final.halted = true ↔ sent = uartBytes transcript) := by
  obtain ⟨start, hstart, hosts⟩ := enterSandbox_hosts ready
  refine ⟨start, hstart, fun ops hprompt => ?_⟩
  obtain ⟨es, final, hexec, hrun⟩ := demo_run ready.prepared hosts ops hprompt
  have hprefix := List.take_prefix ((Stage.alone 0).afterBursts (bursts es)).printed transcript
  have hhalted : final.halted = true ↔
      transcript.take ((Stage.alone 0).afterBursts (bursts es)).printed = transcript := by
    rw [hrun.halted, decide_eq_true_iff, ← Stage.length_le_printed_iff, List.take_eq_self_iff]
  exact ⟨es, final, _, _, hexec, hrun.console, hprefix, hhalted,
    by rw [hrun.console, uartBytes_append], uartBytes_prefix hprefix,
    hhalted.trans (uartBytes_eq_iff hprefix).symm⟩

/-- The run with both interrupts shows everything. -/
theorem console_transcript_sample :
    ∃ start,
      (∀ fuel, enterSandbox sampleLayout (fuel + 1) (sampleCore sampleMemory) = some start) ∧
      ∀ scratch, ∃ es final, (demoMachine sampleLayout start).exec start
          (sampleRun 1000 scratch) = some (es, final) ∧
        final.halted = true ∧ final.kernel.console = .line .enteringSandbox :: transcript ∧
        uartBytes final.kernel.console = writeStr (
          "[el0] entering sandbox with isolated code and stack pages\n" ++
          "[preempt] runnable scheduler selected task A -> B: PASS\n" ++
          "[preempt] runnable scheduler restored task B -> A: PASS\n" ++
          "[el0] SVC yield round-trip: PASS\n" ++
          "[preempt] callee-saved register integrity: PASS\n" ++
          "[ipc] app Call -> console Receive: PASS\n" ++
          "A <- [console-server] capability-authorized write: PASS\n" ++
          "[ipc] console Reply -> app resume: PASS\n" ++
          "[caps] root revoked console grant subtree: PASS (2)\n" ++
          "[caps] post-revocation console Call: DENIED\n" ++
          "[el0] direct PL011 access: DENIED by stage-1 MMU\n" ++
          "[el0] sandbox exception recovery: PASS\n" ++
          "[ready] milestone 4 EL0 isolation proof complete\n") := by
  have ready := sampleCore_ready sampleMemory_tables
  obtain ⟨start, hstart, hruns⟩ := console_transcript ready
  refine ⟨start, hstart, fun scratch => ?_⟩
  obtain ⟨es, final, shown, sent, hexec, hconsole, -, hhalted, -⟩ :=
    hruns (sampleRun 1000 scratch) (sampleRun_prompt 1000 scratch)
  obtain ⟨start', hstart', hdemo⟩ := (demo_completes ready).sampleRun (by decide) (by decide)
  obtain rfl : start' = start := Option.some.inj ((hstart' 0).symm.trans (hstart 0))
  obtain ⟨es', final', hexec', hdone, -⟩ := hdemo scratch
  obtain ⟨rfl, rfl⟩ := Prod.mk.inj (Option.some.inj (hexec.symm.trans hexec'))
  rw [hhalted.mp hdone] at hconsole
  refine ⟨es, final, hexec, hdone, hconsole, ?_⟩
  rw [hconsole]
  decide +kernel

/-- **Whether the demo completes** is decided by the lengths of the three bursts, provided that
each interrupt is dealt with within a period. -/
theorem demo_completes_iff {core : Core} (ready : Ready layout core) :
    ∃ start, (∀ fuel, enterSandbox layout (fuel + 1) core = some start) ∧
      ∀ ops, (∀ op ∈ ops, op.Prompt (periodOf core.kernel.interrupts 20)) →
        ∃ es final, (demoMachine layout start).exec start ops = some (es, final) ∧
          (final.halted = true ↔ Completes (bursts es)) := by
  obtain ⟨start, hstart, hosts⟩ := enterSandbox_hosts ready
  refine ⟨start, hstart, fun ops hprompt => ?_⟩
  obtain ⟨es, final, hexec, hrun⟩ := demo_run ready.prepared hosts ops hprompt
  refine ⟨es, final, hexec, ?_⟩
  rw [hrun.halted, decide_eq_true_iff, Stage.afterBursts_done_iff hrun.length_le]

/-- Six instructions before the first interrupt are enough, and five are not. -/
theorem demo_completes_iff_sample :
    ∃ start,
      (∀ fuel, enterSandbox sampleLayout (fuel + 1) (sampleCore sampleMemory) = some start) ∧
      ∀ scratch,
        (∃ es final, (demoMachine sampleLayout start).exec start (sampleRun 6 scratch) =
            some (es, final) ∧ bursts es = [6, 1000, 1000] ∧ final.halted = true) ∧
        ∃ es final, (demoMachine sampleLayout start).exec start (sampleRun 5 scratch) =
            some (es, final) ∧ bursts es = [5, 1000, 1000] ∧ final.halted = false := by
  obtain ⟨start, hstart, hruns⟩ := demo_completes_iff (sampleCore_ready sampleMemory_tables)
  have hhalted : ∀ n scratch, ∃ es final, (demoMachine sampleLayout start).exec start
      (sampleRun n scratch) = some (es, final) ∧ bursts es = [n, 1000, 1000] ∧
        (final.halted = true ↔ Completes [n, 1000, 1000]) := by
    intro n scratch
    obtain ⟨es, final, hexec, hiff⟩ := hruns _ (sampleRun_prompt n scratch)
    obtain ⟨es', final', hexec', hbursts⟩ := sampleRun_bursts n scratch (hstart 0)
    obtain ⟨rfl, rfl⟩ := Prod.mk.inj (Option.some.inj (hexec.symm.trans hexec'))
    exact ⟨es, final, hexec, hbursts, hbursts ▸ hiff⟩
  refine ⟨start, hstart, fun scratch => ⟨?_, ?_⟩⟩
  · obtain ⟨es, final, hexec, hbursts, hiff⟩ := hhalted 6 scratch
    exact ⟨es, final, hexec, hbursts, hiff.mpr ⟨by decide, by decide, by decide⟩⟩
  · obtain ⟨es, final, hexec, hbursts, hiff⟩ := hhalted 5 scratch
    refine ⟨es, final, hexec, hbursts, Bool.eq_false_iff.mpr fun h => ?_⟩
    exact absurd (hiff.mp h).1 (by decide)

end Aegis.Live
