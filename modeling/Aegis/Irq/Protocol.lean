import Mathlib
import Aegis.Foundation.History
import Aegis.Irq.Alarm

/-!
# The interrupt protocol

After bring-up, time passes, handlers acknowledge and the timer is stopped, in any order.
Along every such run the devices are simulated by an alarm clock (`alarmMachine`), and so the
only interrupt ever signalled is the timer's.  It is signalled from the moment an armed
deadline is reached until it is acknowledged; each one that is acknowledged is counted,
completed and followed by a whole period of silence, and an acknowledgement without one returns
the number of the spurious interrupt and changes nothing.

Stopping the timer takes the deadline away.  It does not take back an interrupt that is
already signalled, and acknowledging that one arms the timer again.
-/

namespace Aegis.Irq

open Device Foundation

/-! ## The alarm clock as a machine -/

/-- An alarm clock that has just been set. -/
def Alarm.set (now period : ℕ) : Alarm where
  now := now
  deadline := some (now + period)
  due := false
  ticks := 0

/-- The alarm clock, with the operations of the interrupt code. -/
def alarmMachine (period : ℕ) (init : Alarm) : Machine Alarm InterruptOp InterruptResult where
  init := init
  step a op :=
    match op with
    | .elapse duration => some (.elapsed, a.elapse duration)
    | .acknowledge => some (.acknowledged (a.acknowledge period).1, (a.acknowledge period).2)
    | .stopTimer => some (.stopped, a.stop)

/-- **The devices are simulated by an alarm clock.** -/
theorem alarm_simulation {s : Interrupts} {period : ℕ} {a : Alarm} (h : Implements s period a) :
    Machine.Simulation (interruptMachine s) (alarmMachine period a)
      fun t b => Implements t period b where
  init := h
  step op hb := by
    cases op with
    | elapse duration => exact ⟨_, _, _, rfl, rfl, hb.elapse duration⟩
    | acknowledge =>
        obtain ⟨hresult, hnext⟩ := hb.acknowledge
        exact ⟨_, _, _, rfl, by rw [hresult]; rfl, hnext⟩
    | stopTimer => exact ⟨_, _, _, rfl, rfl, hb.stopTimer⟩

/-! ## What a run shows -/

/-- A tick of the timer was acknowledged. -/
def InterruptEvent.isTick (ev : InterruptEvent) : Bool :=
  match ev.result with
  | .acknowledged (.timer _) => true
  | _ => false

/-- The timer is stopped, and no interrupt is signalled. -/
def Silent (s : Interrupts) : Prop :=
  s.board.timer.control = 0 ∧ s.signalled = none

/-- The timer is armed, one period ahead. -/
def ArmedFor (s : Interrupts) (period : ℕ) : Prop :=
  s.board.timer.control = 1 ∧ s.board.timer.compare.toNat = s.board.timer.counter.val + period

/-- The timer is armed, and the counter passes its deadline. -/
def ReachesDeadline (s s' : Interrupts) : Prop :=
  s.board.timer.control = 1 ∧ s.board.timer.counter.val < s.board.timer.compare.toNat ∧
    s.board.timer.compare.toNat ≤ s'.board.timer.counter.val

/-- What the protocol says of an event and the history before it. -/
structure Disciplined (period : ℕ) (past : List InterruptEvent) (ev : InterruptEvent) : Prop where
  /-- only the timer's interrupt is signalled -/
  timer_only : ∀ i, ev.before.signalled = some i → i = VIRTUAL_TIMER_PPI
  /-- an interrupt appears when the deadline of an armed timer is reached, and then only -/
  appears : ∀ duration, ev.op = .elapse duration →
    (ev.after.signalled ≠ none ↔
      ev.before.signalled ≠ none ∨ ReachesDeadline ev.before ev.after)
  counted : ev.op = .acknowledge → ev.before.signalled ≠ none →
    ev.result = .acknowledged (.timer (BitVec.ofNat 64 (past.countP InterruptEvent.isTick + 1)))
  spurious : ev.op = .acknowledge → ev.before.signalled = none →
    ev.result = .acknowledged (.unknown 1023) ∧ ev.after = ev.before
  completed : Inactive ev.after
  silenced : ev.op = .acknowledge → ev.after.signalled = none
  /-- a tick arms the timer, also when it has been stopped -/
  armed : ev.isTick = true → ArmedFor ev.after period
  /-- a stop disarms the timer and masks interrupts, but takes back none that is signalled -/
  stopped : ev.op = .stopTimer → ev.after.board.timer.control = 0 ∧
    ev.after.daif = ev.before.daif ||| 2 ∧ ev.after.signalled = ev.before.signalled
  spaced : ev.isTick = true → ∀ e ∈ past, e.isTick = true →
    e.after.board.timer.counter + period ≤ ev.before.board.timer.counter
  stays_silent : Silent ev.before → Silent ev.after

/-- The alarm clock against the history: it has counted the ticks, and the next one is a
period away from each of them. -/
structure Paced (period : ℕ) (es : List InterruptEvent) (a : Alarm) : Prop where
  ticks : a.ticks = es.countP InterruptEvent.isTick
  deadline : ∀ e ∈ es, e.isTick = true → ∀ t, a.deadline = some t →
    e.after.board.timer.counter + period ≤ t
  due : ∀ e ∈ es, e.isTick = true → a.due = true →
    e.after.board.timer.counter + period ≤ a.now

section Steps

variable {s s' : Interrupts} {period : ℕ} {a : Alarm} {es : List InterruptEvent}

theorem Implements.inactive (h : Implements s period a) : Inactive s := h.serves.inactive

theorem Implements.signalled_eq_none (h : Implements s period a) :
    s.signalled = none ↔ a.due = false := by
  rw [h.signalled_eq]
  cases a.due <;> simp

theorem Implements.silent_iff (h : Implements s period a) :
    Silent s ↔ a.deadline = none ∧ a.due = false := by
  rw [Silent, h.signalled_eq_none]
  refine and_congr_left fun _ => ⟨fun hcontrol => ?_, h.stopped⟩
  cases hdeadline : a.deadline with
  | none => rfl
  | some t =>
      rw [(h.armed t hdeadline).1] at hcontrol
      cases hcontrol

/-- Time makes an interrupt appear when the deadline of an armed timer is passed. -/
theorem Implements.signalled_elapse_iff (h : Implements s period a) (duration : ℕ) :
    (s.elapse duration).signalled ≠ none ↔
      s.signalled ≠ none ∨ ReachesDeadline s (s.elapse duration) := by
  have h' := h.elapse duration
  have hdue : (a.elapse duration).due = (a.due || a.deadline.any fun t =>
      a.now < t ∧ t ≤ (a.elapse duration).now) := rfl
  rw [Ne, h'.signalled_eq_none, Bool.not_eq_false, hdue, Bool.or_eq_true_iff, Ne,
    h.signalled_eq_none, Bool.not_eq_false, ReachesDeadline, h.now, h'.now]
  refine or_congr_right ?_
  cases hdeadline : a.deadline with
  | none =>
      refine iff_of_false Bool.false_ne_true fun hreached => ?_
      rw [h.stopped hdeadline] at hreached
      exact absurd hreached.1 (by decide)
  | some t =>
      obtain ⟨hcontrol, hcompare⟩ := h.armed t hdeadline
      rw [Option.any_some, decide_eq_true_iff, hcompare, hcontrol]
      exact (and_iff_right rfl).symm

/-- An event that is no tick leaves the count alone. -/
theorem Paced.snoc_quiet (h : Paced period es a) {ev : InterruptEvent} (hev : ev.isTick = false)
    {b : Alarm} (hticks : b.ticks = a.ticks)
    (hdeadline : ∀ t, b.deadline = some t → a.deadline = some t)
    (hdue : ∀ m, (∀ t, a.deadline = some t → m ≤ t) → (a.due = true → m ≤ a.now) →
      b.due = true → m ≤ b.now) :
    Paced period (es ++ [ev]) b where
  ticks := by
    rw [List.countP_append, List.countP_singleton, hev, hticks, h.ticks]
    rfl
  deadline e he htick t ht := by
    rcases List.mem_append.mp he with he | he
    · exact h.deadline e he htick t (hdeadline t ht)
    · rw [List.mem_singleton.mp he, hev] at htick
      cases htick
  due e he htick hb := by
    rcases List.mem_append.mp he with he | he
    · exact hdue _ (h.deadline e he htick) (h.due e he htick) hb
    · rw [List.mem_singleton.mp he, hev] at htick
      cases htick

theorem Paced.elapse (h : Paced period es a) {ev : InterruptEvent} (hev : ev.isTick = false)
    (duration : ℕ) (hnow : a.now < 2 ^ 63) : Paced period (es ++ [ev]) (a.elapse duration) := by
  refine h.snoc_quiet hev rfl (fun _ ht => ht) fun m hdeadline hdue hb => ?_
  have hlater : a.now ≤ (a.elapse duration).now := by
    show a.now ≤ min (a.now + duration) (2 ^ 63 - 1)
    omega
  rcases Bool.or_eq_true_iff.mp hb with hb | hb
  · exact (hdue hb).trans hlater
  · cases ht : a.deadline with
    | none =>
        rw [ht] at hb
        cases hb
    | some t =>
        rw [ht] at hb
        exact (hdeadline t ht).trans (of_decide_eq_true hb).2

theorem Paced.stop (h : Paced period es a) {ev : InterruptEvent} (hev : ev.isTick = false) :
    Paced period (es ++ [ev]) a.stop := by
  refine h.snoc_quiet hev rfl (fun t ht => ?_) fun m _ hdue => hdue
  cases ht

/-- A tick is counted, and sets the deadline one period ahead. -/
theorem Paced.tick (h : Paced period es a) (hdue : a.due = true) {ev : InterruptEvent}
    (hev : ev.isTick = true) (hnow : ev.after.board.timer.counter = a.now) :
    Paced period (es ++ [ev])
      { a with due := false, ticks := a.ticks + 1, deadline := some (a.now + period) } where
  ticks := by
    rw [List.countP_append, List.countP_singleton, if_pos hev, h.ticks]
  deadline e he htick t ht := by
    cases ht
    rcases List.mem_append.mp he with he | he
    · exact (h.due e he htick hdue).trans (Nat.le_add_right _ _)
    · rw [List.mem_singleton.mp he, hnow]
  due _ _ _ hb := by cases hb

theorem Implements.timer_only (h : Implements s period a) {i : Id} (hi : s.signalled = some i) :
    i = VIRTUAL_TIMER_PPI := by
  rw [h.signalled_eq] at hi
  split at hi
  · exact (Option.some.inj hi).symm
  · cases hi

/-- Time passes. -/
theorem Implements.elapse_disciplined (h : Implements s period a) (duration : ℕ) :
    Disciplined period es ⟨s, .elapse duration, .elapsed, s.elapse duration⟩ where
  timer_only _ := h.timer_only
  appears := by
    rintro _ ⟨⟩
    exact h.signalled_elapse_iff duration
  counted := nofun
  spurious := nofun
  completed := (h.elapse duration).inactive
  silenced := nofun
  armed := nofun
  stopped := nofun
  spaced := nofun
  stays_silent hsilent := by
    obtain ⟨hdeadline, hdue⟩ := h.silent_iff.mp hsilent
    exact (h.elapse duration).silent_iff.mpr
      ⟨hdeadline, Alarm.elapse_stopped hdue hdeadline duration⟩

/-- The timer is stopped. -/
theorem Implements.stop_disciplined (h : Implements s period a) :
    Disciplined period es ⟨s, .stopTimer, .stopped, s.stopTimer⟩ where
  timer_only _ := h.timer_only
  appears _ := nofun
  counted := nofun
  spurious := nofun
  completed := h.stopTimer.inactive
  silenced := nofun
  armed := nofun
  stopped _ := ⟨rfl, rfl, h.stopTimer.signalled_eq.trans h.signalled_eq.symm⟩
  spaced := nofun
  stays_silent hsilent := h.stopTimer.silent_iff.mpr ⟨rfl, (h.silent_iff.mp hsilent).2⟩

/-- An acknowledgement, with nothing signalled. -/
theorem Implements.spurious_disciplined (h : Implements s period a) (hdue : a.due = false) :
    Disciplined period es ⟨s, .acknowledge, .acknowledged (.unknown 1023), s⟩ where
  timer_only _ := h.timer_only
  appears _ := nofun
  counted _ hsignalled := absurd (h.signalled_eq_none.mpr hdue) hsignalled
  spurious _ _ := ⟨rfl, rfl⟩
  completed := h.inactive
  silenced _ := h.signalled_eq_none.mpr hdue
  armed := nofun
  stopped := nofun
  spaced := nofun
  stays_silent := id

/-- An acknowledgement of a tick. -/
theorem Implements.tick_disciplined (h : Implements s period a) (hpaced : Paced period es a)
    (hdue : a.due = true) :
    Disciplined period es ⟨s, .acknowledge, .acknowledged (.timer (BitVec.ofNat 64 (a.ticks + 1))),
      s.acknowledge.2⟩ := by
  obtain ⟨-, h'⟩ := h.acknowledge_due hdue
  have hsignalled : s.signalled ≠ none := by
    rw [Ne, h.signalled_eq_none, hdue]
    exact Bool.noConfusion
  obtain ⟨hcontrol, hcompare⟩ := h'.armed _ rfl
  exact {
    timer_only := fun _ => h.timer_only
    appears := fun _ => nofun
    counted := fun _ _ => by rw [hpaced.ticks]
    spurious := fun _ hnone => absurd hnone hsignalled
    completed := h'.inactive
    silenced := fun _ => h'.signalled_eq_none.mpr rfl
    armed := fun _ => ⟨hcontrol, by rw [hcompare, h'.now]⟩
    stopped := nofun
    spaced := fun _ e he htick => h.now.symm ▸ hpaced.due e he htick hdue
    stays_silent := fun hsilent => absurd hsilent.2 hsignalled }

/-- **One step** of the protocol. -/
theorem step_disciplined (init : Interrupts) (h : Implements s period a)
    (hpaced : Paced period es a) (op : InterruptOp) :
    ∃ r s' b, (interruptMachine init).step s op = some (r, s') ∧ Implements s' period b ∧
      Paced period (es ++ [⟨s, op, r, s'⟩]) b ∧ Disciplined period es ⟨s, op, r, s'⟩ := by
  cases op with
  | elapse duration =>
      have hnow : a.now < 2 ^ 63 := h.now ▸ s.board.timer.counter.isLt
      exact ⟨_, _, _, rfl, h.elapse duration, hpaced.elapse rfl duration hnow,
        h.elapse_disciplined duration⟩
  | stopTimer => exact ⟨_, _, _, rfl, h.stopTimer, hpaced.stop rfl, h.stop_disciplined⟩
  | acknowledge =>
      have hstep : (interruptMachine init).step s .acknowledge =
          some (.acknowledged s.acknowledge.1, s.acknowledge.2) := rfl
      cases hdue : a.due with
      | false =>
          rw [h.acknowledge_idle hdue] at hstep
          exact ⟨_, s, a, hstep, h, hpaced.snoc_quiet rfl rfl (fun _ ht => ht) fun m _ hm => hm,
            h.spurious_disciplined hdue⟩
      | true =>
          obtain ⟨hresult, h'⟩ := h.acknowledge_due hdue
          rw [hresult] at hstep
          exact ⟨_, s.acknowledge.2, _, hstep, h', hpaced.tick hdue rfl h'.now,
            h.tick_disciplined hpaced hdue⟩

end Steps

/-- **The interrupt protocol.**  From any state of the devices in which no interrupt is
active, `init` returns, with interrupts unmasked; and then, whatever the order in which time
passes, handlers acknowledge and the timer is stopped, the devices answer as an alarm clock
does that has been set one period ahead, and signal the timer's interrupt while its alarm is
due.  So every tick is signalled when its deadline is reached, counted and completed, ticks are
at least a period apart, other acknowledgements are spurious and change nothing, and a timer
that is stopped with no tick signalled stays silent. -/
theorem timer_protocol (s : Interrupts) (hactive : Inactive s) (periodicHz : BitVec 64)
    (hhz : periodicHz ≠ 0) :
    ∃ s₀, (∀ fuel, s.init (fuel + 1) periodicHz = some s₀) ∧ s₀.daif = s.daif &&& ~~~2 ∧
      Machine.Simulation (interruptMachine s₀)
        (alarmMachine (periodOf s periodicHz)
          (Alarm.set s.board.timer.counter (periodOf s periodicHz)))
        (fun t a => Implements t (periodOf s periodicHz) a) ∧
      (∀ t a, Implements t (periodOf s periodicHz) a →
        t.signalled = if a.due then some VIRTUAL_TIMER_PPI else none) ∧
      ∀ ops, ∃ es final, (interruptMachine s₀).exec s₀ ops = some (es, final) ∧
        AtEach es (Disciplined (periodOf s periodicHz)) := by
  obtain ⟨s₀, hinit, hdaif, himplements⟩ := init_implements hactive hhz
  refine ⟨s₀, hinit, hdaif, alarm_simulation himplements, fun t a h => h.signalled_eq,
    fun ops => ?_⟩
  obtain ⟨es, final, hexec, -, heach⟩ := (interruptMachine s₀).exec_of_invariant
    (fun es t => (∃ a, Implements t (periodOf s periodicHz) a ∧
      Paced (periodOf s periodicHz) es a) ∧ AtEach es (Disciplined (periodOf s periodicHz)))
    ⟨⟨_, himplements, rfl, List.forall_mem_nil _, List.forall_mem_nil _⟩, .nil⟩
    (by
      rintro es t op ⟨⟨a, h, hpaced⟩, heach⟩
      obtain ⟨r, t', b, hstep, h', hpaced', hlast⟩ := step_disciplined s₀ h hpaced op
      exact ⟨r, t', hstep, ⟨b, h', hpaced'⟩, heach.snoc hlast⟩) ops
  exact ⟨es, final, hexec, heach⟩

/-- Devices as a reset leaves them, with a counter of 62.5 MHz. -/
def resetInterrupts : Interrupts where
  board := {
    gic := {
      distributor := 0
      enabled := fun _ => false
      latched := fun _ => false
      active := fun _ => false
      priority := fun _ => 0
      config := fun _ => 0
      input := fun _ => false
      interface := 0
      priorityMask := 0
      binaryPoint := 0 }
    timer := { counter := 0, compare := 0, control := 0, frequency := 62500000 } }
  timerPeriod := 0
  timerTicks := 0
  daif := 0xf

/-- A tick that is still signalled when the timer is stopped, and that arms it again when it
is acknowledged. -/
def lateStop : List InterruptOp :=
  [.elapse 3125000, .stopTimer, .acknowledge, .elapse 3124999, .acknowledge, .elapse 1,
    .acknowledge]

theorem timer_protocol_reset :
    ∃ s₀, (∀ fuel, resetInterrupts.init (fuel + 1) 20 = some s₀) ∧ s₀.daif = 0xd ∧
      ∃ es final, (interruptMachine s₀).exec s₀ lateStop = some (es, final) ∧
        es.map Event.result = [.elapsed, .stopped, .acknowledged (.timer 1), .elapsed,
          .acknowledged (.unknown 1023), .elapsed, .acknowledged (.timer 2)] ∧
        AtEach es (Disciplined 3125000) := by
  obtain ⟨s₀, hinit, hdaif, hsim, -, hruns⟩ :=
    timer_protocol resetInterrupts (fun _ => rfl) 20 (by decide)
  obtain ⟨es, final, hexec, heach⟩ := hruns lateStop
  obtain ⟨es', final', fs, b, hexec', halarm, hresults, -⟩ := hsim.exec hsim.init lateStop
  obtain rfl : es' = es := congrArg Prod.fst (Option.some.inj (hexec'.symm.trans hexec))
  obtain rfl := congrArg Prod.fst (Option.some.inj halarm)
  exact ⟨s₀, hinit, hdaif, es', final, hexec, hresults, heach⟩

end Aegis.Irq
