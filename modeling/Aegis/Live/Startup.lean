import Mathlib
import Aegis.Live.Completion
import Aegis.Live.Kernel
import Aegis.Memory.Model
import Aegis.Paging.Model

/-!
# From the boot code to user code

A translation of `kernel_main` up to the start of user code: its self-tests, the lines it
prints, and the loop in which it waits for three interrupts of the timer.

The loop reads the number of ticks and, if there are not three yet, goes to sleep until the
next interrupt.  The third interrupt stops the timer.  If it comes after the number was read
and before the CPU sleeps, there is no next interrupt, and the kernel sleeps for good.
-/

namespace Aegis.Live

open Foundation A64 Preempt Boot Irq

/-! ## Self-tests -/

/-- `unwrap`; an error panics. -/
def unwrap {σ ε α : Type} : Option (Except ε α × σ) → Option (α × σ)
  | some (.ok value, s) => some (value, s)
  | some (.error _, _) | none => none

def memoryTest : Option Bool :=
  match (Memory.FrameAllocator.new 0x41000000 (8 * Memory.PAGE_SIZE) :
      Option (Except Memory.FrameError (Memory.FrameAllocator 1))) with
  | some (.ok frames) => do
      let ((), frames) ← unwrap (Memory.FrameAllocator.reserve 0x41000000 2 frames)
      let (frame, _) ← unwrap (Memory.FrameAllocator.allocate frames)
      let descriptor := Paging.pageDescriptor 0x41002000 Paging.PagePermissions.USER_DATA
      return frame.physicalAddress = 0x41002000 && descriptor.isOk
  | some (.error _) | none => none

/-- The capabilities of the self-tests. -/
def testCaps : Option LiveCaps := do
  let caps : LiveCaps := Capability.CapabilitySystem.new
  let ((), caps) ← unwrap (Capability.CapabilitySystem.createRoot 0 0 (.mmio 0x09000000 1)
    Capability.Rights.ALL caps)
  let ((), caps) ← unwrap (Capability.CapabilitySystem.mint 0 0 1 0 Capability.Rights.WRITE caps)
  let ((), caps) ← unwrap (Capability.CapabilitySystem.createRoot 0 1 (.endpoint 0)
    Capability.Rights.ALL caps)
  let ((), caps) ← unwrap (Capability.CapabilitySystem.mint 0 1 2 1 Capability.Rights.WRITE caps)
  return caps

def testMessage : Ipc.Message where
  label := 1
  length := 1
  registers := #v[0xae61, 0, 0, 0]
  capabilitySlot := none

def ipcTest : Option Bool := do
  let ipc : LiveIpc := Ipc.RendezvousIpc.new
  let (sent, ipc) ← Ipc.RendezvousIpc.send 2 0 testMessage ipc
  let (received, ipc) ← Ipc.RendezvousIpc.receive 1 0 ipc
  let (message, _) := Ipc.RendezvousIpc.takeMessage 1 ipc
  return sent = .ok .blocked && received = .ok (.delivered 2) && message = some testMessage

def syscallTest (caps : LiveCaps) : Bool :=
  authorizeEndpoint caps 2 1 Capability.Rights.WRITE = .ok 0 &&
    !(authorizeEndpoint caps 2 0 Capability.Rights.WRITE).isOk

/-- `&&` does not go on when a switch was not to the task expected. -/
def schedulesTo (tasks : List ℕ) (scheduler : Sched.Scheduler 4) : Option Bool :=
  match tasks with
  | [] => some true
  | task :: tasks =>
      match scheduler.schedule with
      | none => none
      | some (switch, scheduler) =>
          if switch.map Sched.Switch.next = some task then schedulesTo tasks scheduler
          else some false

def schedulerTest : Option Bool := do
  let (first, scheduler) ←
    unwrap (Sched.Scheduler.spawn Sched.UserContext.empty (Sched.Scheduler.new : Sched.Scheduler 4))
  let (second, scheduler) ← unwrap (Sched.Scheduler.spawn Sched.UserContext.empty scheduler)
  schedulesTo [first, second, first] scheduler

/-- `kernel_main` up to `interrupt::init(10)`. -/
def startup (fuel : ℕ) (core : Core) : Option Statics := do
  let k := (((core.kernel.println .hello).println .platform).println .vectorsInstalled).println
    (.identityMap (core.cpu.sys .sctlrEl1 &&& 1 ≠ 0))
  let k := k.println (.memoryTest (← memoryTest))
  let caps ← testCaps
  let k := k.println (.consoleUart (caps.resolve 1 0 Capability.Rights.WRITE).isOk)
  let k := k.println (.sandboxUart (caps.resolve 2 0 Capability.Rights.WRITE).isOk)
  let k := k.println (.ipcTest (← ipcTest))
  let k := k.println (.syscallTest (syscallTest caps))
  let k := k.println (.schedulerTest (← schedulerTest))
  let k := k.println .timerEnabled
  let interrupts ← k.interrupts.init fuel 10
  return { k with interrupts }

/-- What is printed before the timer is enabled. -/
def startupLines : List Output := [
  .line .hello,
  .line .platform,
  .line .vectorsInstalled,
  .line (.identityMap true),
  .line (.memoryTest true),
  .line (.consoleUart true),
  .line (.sandboxUart false),
  .line (.ipcTest true),
  .line (.syscallTest true),
  .line (.schedulerTest true),
  .line .timerEnabled]

theorem memoryTest_eq : memoryTest = some true := by decide

theorem testCaps_eq : testCaps = some granted := by decide +kernel

theorem resolve_console : (granted.resolve 1 0 Capability.Rights.WRITE).isOk = true := by decide

theorem resolve_sandbox : (granted.resolve 2 0 Capability.Rights.WRITE).isOk = false := by decide

theorem syscallTest_granted : syscallTest granted = true := by decide

theorem ipcTest_eq : ipcTest = some true := by decide

theorem schedulerTest_eq : schedulerTest = some true := by decide

/-- The start, from a state of the devices in which no interrupt is active. -/
theorem startup_eq {core : Core} (hinactive : Inactive core.kernel.interrupts)
    (hmmu : core.cpu.sys .sctlrEl1 &&& 1 ≠ 0) :
    ∃ interrupts, (∀ fuel, startup (fuel + 1) core = some { core.kernel with
        interrupts, console := core.kernel.console ++ startupLines }) ∧
      interrupts.daif = core.kernel.interrupts.daif &&& ~~~2 ∧
      Implements interrupts (periodOf core.kernel.interrupts 10) {
        now := core.kernel.interrupts.board.timer.counter
        deadline := some (core.kernel.interrupts.board.timer.counter +
          periodOf core.kernel.interrupts 10)
        due := false
        ticks := 0 } := by
  obtain ⟨interrupts, hinit, hdaif, halarm⟩ := init_implements hinactive
    (by decide : (10 : BitVec 64) ≠ 0)
  refine ⟨interrupts, fun fuel => ?_, hdaif, halarm⟩
  have hon : decide (core.cpu.sys .sctlrEl1 &&& 1 ≠ 0) = true := decide_eq_true hmmu
  simp only [startup, memoryTest_eq, testCaps_eq, ipcTest_eq, schedulerTest_eq, resolve_console,
    resolve_sandbox, syscallTest_granted, hon, Statics.println, Option.bind_eq_bind,
    Option.bind_some, hinit, List.append_assoc]
  rfl

/-- Where `kernel_main` is. -/
inductive WaitPoint
  /-- before the line that says that it waits -/
  | announce
  /-- before `interrupt::ticks() < 3` -/
  | test
  /-- before `wfi`, with fewer than three ticks read -/
  | sleep
  /-- in `wfi` -/
  | asleep
  /-- after the loop -/
  | done
  deriving DecidableEq

structure Waiting where
  kernel : Statics
  point : WaitPoint

inductive WaitOp
  | run
  | elapse (duration spent : ℕ)

inductive WaitResult
  | ran
  | elapsed
  | interrupted
  /-- the loop has ended -/
  | over
  deriving DecidableEq

/-- An interrupt of the kernel, in terms of its data (`vectorIrqCurrentSpx_interrupted`). -/
def Statics.interrupt (spent : ℕ) (k : Statics) : Statics :=
  (irqDispatch spent (k.setDaif 0xf)).setDaif k.interrupts.daif

namespace Waiting

variable (w : Waiting)

/-- The next step; a `wfi` goes on when there has been an interrupt. -/
def run : Waiting :=
  match w.point with
  | .announce => ⟨w.kernel.println .waitingForTimer, .test⟩
  | .test => { w with point := if w.kernel.interrupts.ticks < 3 then .sleep else .done }
  | .sleep | .asleep => { w with point := .asleep }
  | .done => w

/-- An interrupt, from which an interrupted `wfi` does not go to sleep again. -/
def interrupt (spent : ℕ) : Waiting where
  kernel := w.kernel.interrupt spent
  point := if w.point = .asleep then .test else w.point

def step (op : WaitOp) : WaitResult × Waiting :=
  if w.point = .done then (.over, w)
  else
    match op with
    | .run => (.ran, w.run)
    | .elapse duration spent =>
        let interrupts := w.kernel.interrupts.elapse duration
        let w := { w with kernel := { w.kernel with interrupts } }
        if interrupts.signalled.isSome && !interrupts.daif.getLsbD 1 then
          (.interrupted, w.interrupt spent)
        else (.elapsed, w)

end Waiting

def waitMachine (init : Waiting) : Machine Waiting WaitOp WaitResult where
  init := init
  step w op := some (w.step op)

abbrev WaitEvent := Event Waiting WaitOp WaitResult

/-- How the interrupts of a run came. -/
structure Tally where
  count : ℕ
  /-- where the third one came -/
  third : Option WaitPoint
  /-- the steps since then -/
  since : ℕ
  deriving DecidableEq

def Tally.add (t : Tally) (ev : WaitEvent) : Tally :=
  match ev.result with
  | .interrupted =>
      { t with
        count := t.count + 1
        third := if t.count = 2 then some ev.before.point else t.third }
  | .ran => if t.third.isSome then { t with since := t.since + 1 } else t
  | .elapsed | .over => t

def tally (es : List WaitEvent) : Tally := es.foldl Tally.add ⟨0, none, 0⟩

/-- The steps to the end of the loop, if the third interrupt comes there. -/
def WaitPoint.needs : WaitPoint → Option ℕ
  | .announce => some 2
  | .test | .asleep => some 1
  | .sleep | .done => none

def WaitOp.Prompt (period : ℕ) : WaitOp → Prop
  | .run => True
  | .elapse _ spent => spent < period

instance WaitOp.decidablePrompt (period : ℕ) (op : WaitOp) : Decidable (op.Prompt period) :=
  match op with
  | .run => isTrue trivial
  | .elapse _ spent => inferInstanceAs (Decidable (spent < period))

/-! ## The invariant -/

/-- Where the loop is, after the third interrupt. -/
def WaitPoint.after : WaitPoint → ℕ → WaitPoint
  | .announce, 0 => .announce
  | .announce, 1 | .test, 0 | .asleep, 0 => .test
  | .sleep, 0 => .sleep
  | .sleep, _ + 1 => .asleep
  | .announce, _ + 2 | .test, _ + 1 | .asleep, _ + 1 | .done, _ => .done

/-- What the loop has printed. -/
def Tally.lines (t : Tally) (point : WaitPoint) : List Output :=
  match t.third with
  | none => if point = .announce then [] else [.line .waitingForTimer]
  | some .announce =>
      if t.since = 0 then [.line .timerDelivered]
      else [.line .timerDelivered, .line .waitingForTimer]
  | some _ => [.line .waitingForTimer, .line .timerDelivered]

/-- The loop, when the interrupts have come like this. -/
structure Waits (period : ℕ) (before : List Output) (t : Tally) (w : Waiting) : Prop where
  alarm : ∃ a, Implements w.kernel.interrupts period a ∧ a.due = false ∧ a.ticks = t.count ∧
    (t.third ≠ none → a.deadline = none)
  masks : w.kernel.interrupts.daif.getLsbD 1 = false
  count : t.count = 3 ↔ t.third ≠ none
  count_le : t.count ≤ 3
  early : t.third = none → t.since = 0 ∧ w.point ≠ .done
  late : ∀ p, t.third = some p → p ≠ .done ∧ w.point = p.after t.since
  console : w.kernel.console = before ++ t.lines w.point

section Waits

variable {period : ℕ} {before : List Output} {t : Tally} {w : Waiting}

theorem Waits.done_iff (h : Waits period before t w) :
    w.point = .done ↔ ∃ p n, t.third = some p ∧ p.needs = some n ∧ n ≤ t.since := by
  cases hthird : t.third with
  | none =>
      refine iff_of_false (h.early hthird).2 ?_
      rintro ⟨p, n, hp, -⟩
      cases hp
  | some p =>
      obtain ⟨hne, hpoint⟩ := h.late p hthird
      rw [hpoint]
      simp only [Option.some.injEq, exists_and_left, exists_eq_left']
      cases p with
      | announce => rcases hs : t.since with _ | _ | n <;> simp [WaitPoint.after, WaitPoint.needs]
      | test => rcases hs : t.since with _ | n <;> simp [WaitPoint.after, WaitPoint.needs]
      | sleep => rcases hs : t.since with _ | n <;> simp [WaitPoint.after, WaitPoint.needs]
      | asleep => rcases hs : t.since with _ | n <;> simp [WaitPoint.after, WaitPoint.needs]
      | done => exact absurd rfl hne

/-- When the third interrupt has come between the reading and the `wfi`, no other comes. -/
theorem Waits.lost (h : Waits period before t w) (hthird : t.third = some .sleep) :
    Silent w.kernel.interrupts ∧ (w.point = .sleep ∨ w.point = .asleep) := by
  obtain ⟨a, halarm, hquiet, -, hdeadline⟩ := h.alarm
  have hstopped := hdeadline (hthird ▸ Option.some_ne_none _)
  refine ⟨halarm.silent_iff.mpr ⟨hstopped, hquiet⟩, ?_⟩
  rw [(h.late _ hthird).2]
  cases t.since with
  | zero => exact .inl rfl
  | succ n => exact .inr rfl

theorem Waits.ticks_lt_iff (h : Waits period before t w) :
    w.kernel.interrupts.ticks < 3 ↔ t.third = none := by
  obtain ⟨a, halarm, -, hticks, -⟩ := h.alarm
  have hcount := h.count
  have hle := h.count_le
  rw [Interrupts.ticks, halarm.ticks, hticks, ← not_iff_not, ← ne_eq (t.third), ← hcount]
  interval_cases t.count <;> decide

/-- A step before the third interrupt. -/
theorem Waits.run_early (h : Waits period before t w) (hthird : t.third = none) :
    Waits period before t w.run := by
  have hticks := h.ticks_lt_iff.mpr hthird
  obtain ⟨halarm, hmasks, hcount, hle, hearly, hlate, hconsole⟩ := h
  have hsince := (hearly hthird).1
  have hlate' : ∀ point p, t.third = some p → p ≠ .done ∧ point = p.after t.since := by
    intro point p hp
    rw [hthird] at hp
    cases hp
  rw [Tally.lines, hthird] at hconsole
  obtain ⟨k, point⟩ := w
  cases point with
  | announce =>
      refine ⟨halarm, hmasks, hcount, hle, fun _ => ⟨hsince, WaitPoint.noConfusion⟩,
        hlate' _, ?_⟩
      rw [Tally.lines, hthird]
      show k.console ++ [_] = _
      rw [show k.console = before ++ [] from hconsole, List.append_nil]
      rfl
  | test =>
      have hrun : Waiting.run ⟨k, .test⟩ = ⟨k, .sleep⟩ := by
        simp only [Waiting.run]
        rw [if_pos hticks]
      rw [hrun]
      refine ⟨halarm, hmasks, hcount, hle, fun _ => ⟨hsince, WaitPoint.noConfusion⟩,
        hlate' _, ?_⟩
      rw [Tally.lines, hthird]
      exact hconsole
  | sleep =>
      refine ⟨halarm, hmasks, hcount, hle, fun _ => ⟨hsince, WaitPoint.noConfusion⟩,
        hlate' _, ?_⟩
      rw [Tally.lines, hthird]
      exact hconsole
  | asleep =>
      refine ⟨halarm, hmasks, hcount, hle, fun _ => ⟨hsince, WaitPoint.noConfusion⟩,
        hlate' _, ?_⟩
      rw [Tally.lines, hthird]
      exact hconsole
  | done => exact absurd rfl (hearly hthird).2

/-- A step after it. -/
theorem Waits.run_late (h : Waits period before t w) {p : WaitPoint} (hthird : t.third = some p)
    (hpoint : w.point ≠ .done) :
    Waits period before { t with since := t.since + 1 } w.run := by
  have hticks : ¬w.kernel.interrupts.ticks < 3 := by
    rw [h.ticks_lt_iff, hthird]
    exact Option.some_ne_none p
  obtain ⟨halarm, hmasks, hcount, hle, hearly, hlate, hconsole⟩ := h
  obtain ⟨hne, hafter⟩ := hlate p hthird
  -- it is enough to say where the loop is then, and what has been printed
  have next : ∀ console, (w.run = ⟨{ w.kernel with console }, p.after (t.since + 1)⟩) →
      console = before ++ Tally.lines { t with since := t.since + 1 } (p.after (t.since + 1)) →
      Waits period before { t with since := t.since + 1 } w.run := by
    intro console hrun hlines
    rw [hrun]
    refine ⟨halarm, hmasks, hcount, hle, fun hnone => ?_, fun p' hp' => ?_, hlines⟩
    · rw [show t.third = none from hnone] at hthird
      cases hthird
    · obtain rfl := Option.some.inj (hthird.symm.trans hp')
      exact ⟨hne, rfl⟩
  obtain ⟨k, point⟩ := w
  obtain ⟨count, third, since⟩ := t
  simp only at hafter hthird
  subst hafter hthird
  have htest : p.after since = .test → Waiting.run ⟨k, p.after since⟩ = ⟨k, .done⟩ := by
    intro heq
    rw [heq]
    simp only [Waiting.run]
    rw [if_neg hticks]
  cases p with
  | announce =>
      match since with
      | 0 =>
          refine next (k.console ++ [.line .waitingForTimer]) rfl ?_
          rw [show k.console = before ++ [.line .timerDelivered] from hconsole, List.append_assoc]
          rfl
      | 1 => exact next k.console (htest rfl) hconsole
      | n + 2 => exact absurd rfl hpoint
  | test =>
      match since with
      | 0 => exact next k.console (htest rfl) hconsole
      | n + 1 => exact absurd rfl hpoint
  | sleep =>
      match since with
      | 0 => exact next k.console rfl hconsole
      | n + 1 => exact next k.console rfl hconsole
  | asleep =>
      match since with
      | 0 => exact next k.console (htest rfl) hconsole
      | n + 1 => exact absurd rfl hpoint
  | done => exact absurd rfl hne

/-- An interrupt of the timer: the third one stops it. -/
theorem Statics.interrupt_eq {k : Statics} {a : Alarm} (halarm : Implements k.interrupts period a)
    (hdue : a.due = true) (hticks : a.ticks ≤ 2) (spent : ℕ) :
    ∃ interrupts, k.interrupt spent = { k with
        interrupts
        console := k.console ++ if a.ticks = 2 then [.line .timerDelivered] else [] } ∧
      interrupts.daif = k.interrupts.daif ∧
      Implements interrupts period (if a.ticks = 2 then
        ((a.acknowledge period).2.elapse spent).stop
        else (a.acknowledge period).2.elapse spent) := by
  obtain ⟨htimer, hnext⟩ := (halarm.setDaif 0xf).acknowledge
  have htimer' : ({ k.interrupts with daif := 0xf } : Interrupts).acknowledge.1 =
      .timer (BitVec.ofNat 64 (a.ticks + 1)) := by
    rw [htimer, Alarm.acknowledge, if_pos hdue]
  have hthree : BitVec.ofNat 64 (a.ticks + 1) = 3 ↔ a.ticks = 2 := by
    interval_cases a.ticks <;> decide
  let interrupts := ({ k.interrupts with daif := 0xf } : Interrupts).acknowledge.2.elapse spent
  have hdispatch : irqDispatch spent (k.setDaif 0xf) =
      if a.ticks = 2 then ({ k with interrupts } : Statics).stopTimer.println .timerDelivered
      else { k with interrupts } := by
    simp only [irqDispatch, Statics.setDaif, htimer', hthree, interrupts]
  rw [Statics.interrupt, hdispatch]
  split_ifs
  · exact ⟨{ interrupts.stopTimer with daif := k.interrupts.daif }, rfl, rfl,
      (hnext.elapse spent).stopTimer.setDaif _⟩
  · refine ⟨{ interrupts with daif := k.interrupts.daif }, ?_, rfl,
      (hnext.elapse spent).setDaif _⟩
    rw [List.append_nil]
    rfl

/-- An interrupt during the loop. -/
theorem Waits.interrupt (h : Waits period before t w) {duration spent : ℕ} {interrupts : Interrupts}
    (hinterrupts : interrupts = w.kernel.interrupts.elapse duration)
    (hsignal : interrupts.signalled.isSome = true) (hspent : spent < period) (ev : WaitEvent)
    (hresult : ev.result = .interrupted) (hbefore : ev.before.point = w.point) :
    Waits period before (t.add ev)
      ({ w with kernel := { w.kernel with interrupts } }.interrupt spent) := by
  obtain ⟨⟨a, halarm, hquiet, hticks, hdeadline⟩, hmasks, hcount, hle, hearly, hlate, hconsole⟩ := h
  have halarm' : Implements interrupts period (a.elapse duration) :=
    hinterrupts ▸ halarm.elapse duration
  have hdue : (a.elapse duration).due = true := by
    rw [halarm'.signalled_eq] at hsignal
    by_contra hnot
    rw [if_neg hnot] at hsignal
    cases hsignal
  have hthird : t.third = none := by
    by_contra hne
    rw [Alarm.elapse_stopped hquiet (hdeadline hne)] at hdue
    cases hdue
  have hne : t.count ≠ 3 := fun h3 => hcount.mp h3 hthird
  have hticks' : (a.elapse duration).ticks = t.count := hticks
  obtain ⟨hsince, hpoint⟩ := hearly hthird
  obtain ⟨interrupts', heq, hdaif, hnext⟩ := Statics.interrupt_eq
    (k := { w.kernel with interrupts }) halarm' hdue (by omega) spent
  have hquiet' := Alarm.acknowledge_elapse hdue hspent
  have hmasks' : interrupts'.daif.getLsbD 1 = false := by
    rw [hdaif, hinterrupts]
    exact hmasks
  rw [hticks'] at heq hnext
  rw [Tally.lines, hthird] at hconsole
  rw [Tally.add, hresult, hbefore, Waiting.interrupt, heq]
  simp only
  have hcounted := (Alarm.acknowledge_ticks hdue period spent).trans (congrArg (· + 1) hticks')
  by_cases htwo : t.count = 2
  · -- the third interrupt
    rw [if_pos htwo] at hnext
    rw [if_pos htwo, if_pos htwo]
    refine ⟨⟨_, hnext, hquiet', hcounted, fun _ => rfl⟩, hmasks', ?_, ?_, ?_, ?_, ?_⟩
    · simp [htwo]
    · simp [htwo]
    · exact fun hnone => absurd hnone (Option.some_ne_none _)
    · rintro p ⟨⟩
      refine ⟨hpoint, ?_⟩
      rw [hsince]
      cases hp : w.point <;> simp_all [WaitPoint.after]
    · show w.kernel.console ++ _ = _
      rw [hconsole]
      cases hp : w.point <;> simp_all [Tally.lines]
  · -- an earlier one
    rw [if_neg htwo] at hnext
    rw [if_neg htwo, if_neg htwo]
    refine ⟨⟨_, hnext, hquiet', hcounted, fun hthird' => absurd hthird hthird'⟩, hmasks', ?_, ?_,
      ?_, ?_, ?_⟩
    · refine iff_of_false ?_ fun hthird' => hthird' hthird
      show t.count + 1 ≠ 3
      omega
    · show t.count + 1 ≤ 3
      omega
    · refine fun _ => ⟨hsince, ?_⟩
      simp only
      split_ifs
      · exact WaitPoint.noConfusion
      · exact hpoint
    · intro p hp
      rw [show t.third = some p from hp] at hthird
      cases hthird
    · show w.kernel.console ++ [] = _
      rw [hconsole, List.append_nil, Tally.lines]
      simp only [hthird]
      cases hp : w.point <;> simp

/-- **One step, or time passes.** -/
theorem Waits.step (h : Waits period before t w) {op : WaitOp} (hprompt : op.Prompt period) :
    Waits period before (t.add ⟨w, op, (w.step op).1, (w.step op).2⟩) (w.step op).2 := by
  rw [Waiting.step.eq_def]
  split_ifs with hdone
  · exact h
  · cases op with
    | run =>
        cases hthird : t.third with
        | none =>
            have hadd : t.add ⟨w, .run, .ran, w.run⟩ = t := by
              simp [Tally.add, hthird]
            simp only
            rw [hadd]
            exact h.run_early hthird
        | some p =>
            have hadd : t.add ⟨w, .run, .ran, w.run⟩ = { t with since := t.since + 1 } := by
              simp [Tally.add, hthird]
            simp only
            rw [hadd]
            exact h.run_late hthird hdone
    | elapse duration spent =>
        simp only
        split_ifs with hsignal
        · exact h.interrupt rfl (Bool.and_eq_true_iff.mp hsignal).1 hprompt _ rfl rfl
        · obtain ⟨a, halarm, hquiet, hticks, hdeadline⟩ := h.alarm
          have hsignalled := (halarm.elapse duration).signalled_eq
          have hdue : (a.elapse duration).due = false := by
            by_contra hdue
            rw [if_pos (Bool.eq_true_of_not_eq_false hdue)] at hsignalled
            refine hsignal (Bool.and_eq_true_iff.mpr ⟨by rw [hsignalled]; rfl, ?_⟩)
            show (!w.kernel.interrupts.daif.getLsbD 1) = true
            rw [h.masks]
            rfl
          exact ⟨⟨_, halarm.elapse duration, hdue, hticks, hdeadline⟩, h.masks, h.count, h.count_le,
            h.early, h.late, h.console⟩

end Waits

/-! ## Every run -/

theorem tally_snoc (es : List WaitEvent) (ev : WaitEvent) :
    tally (es ++ [ev]) = (tally es).add ev := by
  rw [tally, List.foldl_append]
  rfl

/-- From the call of `kernel_main` through the loop. -/
theorem wait_runs {core : Core} (hinactive : Inactive core.kernel.interrupts)
    (hmmu : core.cpu.sys .sctlrEl1 &&& 1 ≠ 0) :
    ∃ k, (∀ fuel, startup (fuel + 1) core = some k) ∧
      ∀ ops, (∀ op ∈ ops, op.Prompt (periodOf core.kernel.interrupts 10)) →
        ∃ es final, (waitMachine ⟨k, .announce⟩).exec ⟨k, .announce⟩ ops = some (es, final) ∧
          Waits (periodOf core.kernel.interrupts 10) (core.kernel.console ++ startupLines)
            (tally es) final := by
  obtain ⟨interrupts, hstartup, hdaif, halarm⟩ := startup_eq hinactive hmmu
  refine ⟨_, hstartup, fun ops hprompt => ?_⟩
  refine Machine.exec_of_invariant_of (WaitOp.Prompt (periodOf core.kernel.interrupts 10))
    (fun es w => Waits (periodOf core.kernel.interrupts 10) (core.kernel.console ++ startupLines)
      (tally es) w) ?_ ?_ ops hprompt
  · refine ⟨⟨_, halarm, rfl, rfl, fun h => absurd rfl h⟩, ?_, by decide, by decide,
      fun _ => ⟨rfl, WaitPoint.noConfusion⟩, fun p hp => absurd hp.symm (Option.some_ne_none p),
      (List.append_nil _).symm⟩
    show interrupts.daif.getLsbD 1 = false
    rw [hdaif, BitVec.getLsbD_and]
    exact Bool.and_false _
  · intro es w op hop h
    refine ⟨_, _, rfl, ?_⟩
    rw [tally_snoc]
    exact h.step hop

/-! ## Two runs -/

/-- The sample, with the MMU on. -/
def bootedCore (memory : Word → Word) : Core :=
  { sampleCore memory with
    cpu := { (sampleCore memory).cpu with
      sys := fun r => if r = .ttbr0El1 then 0x4008e000 else if r = .sctlrEl1 then 0x1005 else 0 } }

theorem bootedCore_mmu (memory : Word → Word) :
    (bootedCore memory).cpu.sys .sctlrEl1 &&& 1 ≠ 0 := by
  show (0x1005#64) &&& 1 ≠ 0
  decide

/-- A schedule that lets the loop end. -/
def sampleWait : List WaitOp :=
  [.run, .elapse 6250000 100, .run, .run, .elapse 6250000 100, .run, .run, .elapse 6250000 100,
    .run]

/-- A schedule in which the third interrupt comes after the number of ticks has been read, and
before the CPU sleeps. -/
def lostWait : List WaitOp :=
  [.run, .elapse 6250000 100, .run, .run, .elapse 6250000 100, .run, .elapse 6250000 100, .run,
    .elapse 6250000 100, .run]

/-- How the interrupts of a run from the sample come. -/
def tallyOf (ops : List WaitOp) : Option Tally :=
  (startup 1 (bootedCore fun _ => 0)).bind fun k =>
    ((waitMachine ⟨k, .announce⟩).exec ⟨k, .announce⟩ ops).map fun run => tally run.1

theorem tallyOf_sampleWait : tallyOf sampleWait = some ⟨3, some .asleep, 1⟩ := by decide +kernel

theorem tallyOf_lostWait : tallyOf lostWait = some ⟨3, some .sleep, 2⟩ := by decide +kernel

/-! ## Results -/

/-- **The loop ends unless the third interrupt is lost.**  It ends exactly when the third
interrupt came while the kernel slept, or before it read the number of ticks, and enough steps
have been made since.  If it came between the reading and the `wfi`, the timer is stopped with
no interrupt signalled, and the kernel is at the `wfi`, or sleeps in it, however long the run. -/
theorem wait_ends_iff {core : Core} (hinactive : Inactive core.kernel.interrupts)
    (hmmu : core.cpu.sys .sctlrEl1 &&& 1 ≠ 0) :
    ∃ k, (∀ fuel, startup (fuel + 1) core = some k) ∧
      ∀ ops, (∀ op ∈ ops, op.Prompt (periodOf core.kernel.interrupts 10)) →
        ∃ es final, (waitMachine ⟨k, .announce⟩).exec ⟨k, .announce⟩ ops = some (es, final) ∧
          (final.point = .done ↔ ∃ p n, (tally es).third = some p ∧ p.needs = some n ∧
            n ≤ (tally es).since) ∧
          ((tally es).third = some .sleep →
            Silent final.kernel.interrupts ∧ (final.point = .sleep ∨ final.point = .asleep)) := by
  obtain ⟨k, hstartup, hruns⟩ := wait_runs hinactive hmmu
  refine ⟨k, hstartup, fun ops hprompt => ?_⟩
  obtain ⟨es, final, hexec, hwaits⟩ := hruns ops hprompt
  exact ⟨es, final, hexec, hwaits.done_iff, hwaits.lost⟩

/-- The loop ends in one of the two runs, and sleeps for good in the other. -/
theorem wait_ends_iff_sample :
    ∃ k, (∀ fuel, startup (fuel + 1) (bootedCore fun _ => 0) = some k) ∧
      (∃ es final, (waitMachine ⟨k, .announce⟩).exec ⟨k, .announce⟩ sampleWait =
          some (es, final) ∧ final.point = .done) ∧
      ∃ es final, (waitMachine ⟨k, .announce⟩).exec ⟨k, .announce⟩ lostWait = some (es, final) ∧
        (tally es).count = 3 ∧ Silent final.kernel.interrupts ∧
        (final.point = .sleep ∨ final.point = .asleep) := by
  have hinactive : Inactive (bootedCore fun _ => 0).kernel.interrupts := fun _ => rfl
  obtain ⟨k, hstartup, hruns⟩ := wait_ends_iff hinactive (bootedCore_mmu _)
  have htally : ∀ {ops es final t}, tallyOf ops = some t →
      (waitMachine ⟨k, .announce⟩).exec ⟨k, .announce⟩ ops = some (es, final) →
        tally es = t := by
    intro ops es final t ht hexec
    rw [tallyOf, hstartup 0, Option.bind_some, hexec] at ht
    exact Option.some.inj ht
  refine ⟨k, hstartup, ?_, ?_⟩
  · obtain ⟨es, final, hexec, hdone, -⟩ := hruns sampleWait (by decide)
    refine ⟨es, final, hexec, hdone.mpr ⟨.asleep, 1, ?_⟩⟩
    rw [htally tallyOf_sampleWait hexec]
    exact ⟨rfl, rfl, le_rfl⟩
  · obtain ⟨es, final, hexec, -, hlost⟩ := hruns lostWait (by decide)
    rw [htally tallyOf_lostWait hexec] at hlost
    exact ⟨es, final, hexec, by rw [htally tallyOf_lostWait hexec], hlost rfl⟩

end Aegis.Live
