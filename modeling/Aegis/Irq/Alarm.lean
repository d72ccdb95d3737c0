import Mathlib
import Aegis.Irq.Model

/-!
# The timer is an alarm clock

What the interrupt code makes of the two devices is an alarm clock: it has a time, a
deadline while it is armed, and it is due from the moment the deadline is reached until the
alarm is acknowledged, which counts it and sets the next deadline.  Stopping the clock takes
the deadline away, but not an alarm that is already due.

`Implements` says which alarm clock the devices are.  `init` makes them one from any state
in which no interrupt is active, and the functions of the module do to the devices what the
operations of the clock do to it.
-/

namespace Aegis.Irq

open Device Foundation

/-! ## Alarm clocks -/

structure Alarm where
  now : ℕ
  deadline : Option ℕ
  due : Bool
  ticks : ℕ
  deriving DecidableEq

namespace Alarm

/-- The alarm goes off when the deadline is reached. -/
def elapse (duration : ℕ) (a : Alarm) : Alarm :=
  let now := min (a.now + duration) (2 ^ 63 - 1)
  { a with
    now
    due := a.due || a.deadline.any fun t => a.now < t ∧ t ≤ now }

def acknowledge (period : ℕ) (a : Alarm) : Interrupt × Alarm :=
  if a.due then
    (.timer (BitVec.ofNat 64 (a.ticks + 1)),
      { a with due := false, ticks := a.ticks + 1, deadline := some (a.now + period) })
  else (.unknown 1023, a)

def stop (a : Alarm) : Alarm := { a with deadline := none }

/-- A stopped alarm stays silent. -/
theorem elapse_stopped {a : Alarm} (hdue : a.due = false)
    (hstopped : a.deadline = none) (duration : ℕ) : (a.elapse duration).due = false := by
  rw [Alarm.elapse, hdue, hstopped]
  rfl

/-- Stopping an alarm does not silence it. -/
theorem stop_elapse (a : Alarm) (duration : ℕ) : (a.stop.elapse duration).due = a.due :=
  Bool.or_false a.due

/-- An armed alarm goes off when its deadline has passed, unless the clock has stopped. -/
theorem elapse_reached {a : Alarm} {deadline : ℕ} (harmed : a.deadline = some deadline)
    (hnow : a.now < deadline) {duration : ℕ} (hreached : deadline ≤ a.now + duration)
    (hclock : a.now + duration < 2 ^ 63) : (a.elapse duration).due = true := by
  have hpassed : a.now < deadline ∧ deadline ≤ min (a.now + duration) (2 ^ 63 - 1) := by omega
  show (a.due || a.deadline.any _) = true
  rw [harmed, Option.any_some, decide_eq_true hpassed, Bool.or_true]

/-- An alarm that is acknowledged does not go off within a period. -/
theorem acknowledge_elapse {a : Alarm} (hdue : a.due = true) {period spent : ℕ}
    (hspent : spent < period) :
    ((a.acknowledge period).2.elapse spent).due = false := by
  rw [Alarm.acknowledge, if_pos hdue, Alarm.elapse]
  show (false || decide (a.now < a.now + period ∧
    a.now + period ≤ min (a.now + spent) (2 ^ 63 - 1))) = false
  rw [Bool.false_or, decide_eq_false]
  omega

/-- While the clock runs, it goes off again after a period. -/
theorem acknowledge_elapse_iff {a : Alarm} (hdue : a.due = true) {period spent : ℕ}
    (hperiod : 0 < period) (hclock : ((a.acknowledge period).2.elapse spent).now < 2 ^ 63 - 1) :
    ((a.acknowledge period).2.elapse spent).due = true ↔ period ≤ spent := by
  rw [Alarm.acknowledge, if_pos hdue, Alarm.elapse] at hclock ⊢
  show (false || decide (a.now < a.now + period ∧
    a.now + period ≤ min (a.now + spent) (2 ^ 63 - 1))) = true ↔ _
  rw [Bool.false_or, decide_eq_true_iff]
  change min (a.now + spent) (2 ^ 63 - 1) < 2 ^ 63 - 1 at hclock
  omega

/-- An alarm that is acknowledged is set for one period later. -/
theorem acknowledge_deadline {a : Alarm} (hdue : a.due = true) (period spent : ℕ) :
    ((a.acknowledge period).2.elapse spent).deadline = some (a.now + period) := by
  rw [Alarm.acknowledge, if_pos hdue]
  rfl

theorem acknowledge_ticks {a : Alarm} (hdue : a.due = true) (period spent : ℕ) :
    ((a.acknowledge period).2.elapse spent).ticks = a.ticks + 1 := by
  rw [Alarm.acknowledge, if_pos hdue]
  rfl

theorem acknowledge_now (a : Alarm) (period spent : ℕ) :
    ((a.acknowledge period).2.elapse spent).now = min (a.now + spent) (2 ^ 63 - 1) := by
  unfold Alarm.acknowledge
  split_ifs <;> rfl

end Alarm

/-- The devices are this alarm clock. -/
structure Implements (s : Interrupts) (period : ℕ) (a : Alarm) : Prop where
  serves : s.board.gic.Serves VIRTUAL_TIMER_PPI
  input : s.board.gic.input VIRTUAL_TIMER_PPI = s.board.timer.output
  due : s.board.gic.latched VIRTUAL_TIMER_PPI = a.due
  now : s.board.timer.counter.val = a.now
  stopped : a.deadline = none → s.board.timer.control = 0
  armed : ∀ t, a.deadline = some t →
    s.board.timer.control = 1 ∧ s.board.timer.compare.toNat = t
  ticks : s.timerTicks = BitVec.ofNat 64 a.ticks
  timerPeriod : s.timerPeriod.toNat = period
  period_pos : 0 < period
  period_lt : period < 2 ^ 32

/-! ## The registers -/

namespace Interrupts

variable (s : Interrupts)

theorem read32_iar : s.read32 (GICC_BASE + 0x00c) =
    (s.board.gic.acknowledge.1, { s with board := ⟨s.board.gic.acknowledge.2, s.board.timer⟩ }) :=
  rfl

theorem write32_interface (offset : ℕ) (value : BitVec 32) :
    s.write32 (GICC_BASE + offset) value =
      { s with board := ⟨s.board.gic.writeInterface offset value, s.board.timer⟩ } := by
  rw [write32, if_pos (Nat.le_add_right _ _), Nat.add_sub_cancel_left]

theorem write32_eoir (value : BitVec 32) : s.write32 (GICC_BASE + 0x010) value =
    { s with board := ⟨s.board.gic.complete value, s.board.timer⟩ } :=
  rfl

theorem write32_icpendr (value : BitVec 32) : s.write32 (GICD_BASE + 0x280) value =
    { s with board := { s.board with gic := { s.board.gic with
        latched := fun i => s.board.gic.latched i && !Gic.named value i } } } :=
  rfl

end Interrupts

theorem named_timer (i : Id) :
    Gic.named (1#32 <<< VIRTUAL_TIMER_PPI.val) i = decide (i = VIRTUAL_TIMER_PPI) := by
  revert i
  decide

theorem named_u32Max (i : Id) : Gic.named u32Max i = true := by
  revert i
  decide

/-! ## The timer's output -/

section Output

variable {t : VirtualTimer}

theorem output_stopped (h : t.control = 0) : t.output = false := by
  rw [VirtualTimer.output, h]
  rfl

theorem output_armed (h : t.control = 1) :
    t.output = decide (t.compare.toNat ≤ t.counter) := by
  rw [VirtualTimer.output, h]
  exact Bool.true_and _

/-- A deadline that is set one period ahead lies in the future. -/
theorem toNat_deadline {period : BitVec 64} (h : period.toNat < 2 ^ 32) (c : Fin (2 ^ 63)) :
    (BitVec.ofNat 64 c + period).toNat = c + period.toNat := by
  have hc := c.isLt
  rw [BitVec.toNat_add, BitVec.toNat_ofNat]
  omega

end Output

/-! ## Setting the alarm -/

namespace Interrupts

variable (s : Interrupts)

theorem setControl_zero : s.setControl 0 =
    { s with board := ⟨
        { s.board.gic with input := Function.update s.board.gic.input VIRTUAL_TIMER_PPI false },
        { s.board.timer with control := 0 }⟩ } := by
  rw [setControl, Board.setTimer, output_stopped rfl, Gic.setInput_low]

theorem setControl_one (h : s.board.timer.counter < s.board.timer.compare.toNat) :
    s.setControl 1 =
      { s with board := ⟨
          { s.board.gic with input := Function.update s.board.gic.input VIRTUAL_TIMER_PPI false },
          { s.board.timer with control := 1 }⟩ } := by
  rw [setControl, Board.setTimer, output_armed rfl, decide_eq_false (Nat.not_le.mpr h),
    Gic.setInput_low]

/-- A compare value one period ahead keeps the output low, whatever the control says. -/
theorem programNext_eq {period : BitVec 64} (hpos : 0 < period.toNat)
    (hlt : period.toNat < 2 ^ 32) :
    s.programNext period =
      { s with board := ⟨
          { s.board.gic with input := Function.update s.board.gic.input VIRTUAL_TIMER_PPI false },
          { s.board.timer with compare := s.counter + period }⟩ } := by
  have hfuture : ¬(s.counter + period).toNat ≤ s.board.timer.counter := by
    rw [counter, toNat_deadline hlt]
    omega
  rw [programNext, setCompare, Board.setTimer, VirtualTimer.output, decide_eq_false hfuture,
    Bool.and_false, Gic.setInput_low]

/-- The acknowledgement of the timer's interrupt, register by register. -/
theorem acknowledge_eq (hiar : s.board.gic.acknowledge =
      (BitVec.ofNat 32 VIRTUAL_TIMER_PPI.val, { s.board.gic with
        active := Function.update s.board.gic.active VIRTUAL_TIMER_PPI true
        latched := Function.update s.board.gic.latched VIRTUAL_TIMER_PPI false }))
    (hpos : 0 < s.timerPeriod.toNat) (hlt : s.timerPeriod.toNat < 2 ^ 32) :
    s.acknowledge = (.timer (s.timerTicks + 1), { s with
      board := ⟨
        { s.board.gic with
          active := Function.update (Function.update s.board.gic.active VIRTUAL_TIMER_PPI true)
            VIRTUAL_TIMER_PPI false
          latched := fun i => Function.update s.board.gic.latched VIRTUAL_TIMER_PPI false i &&
            !decide (i = VIRTUAL_TIMER_PPI)
          input := Function.update s.board.gic.input VIRTUAL_TIMER_PPI false },
        { s.board.timer with control := 1, compare := s.counter + s.timerPeriod }⟩
      timerTicks := s.timerTicks + 1 }) := by
  have hfuture : s.board.timer.counter < (s.counter + s.timerPeriod).toNat := by
    rw [counter, toNat_deadline hlt]
    exact Nat.lt_add_of_pos_right hpos
  simp only [acknowledge, read32_iar, hiar]
  rw [if_pos (by decide)]
  simp only [setControl_zero, write32_icpendr, named_timer, programNext_eq _ hpos hlt]
  rw [setControl_one _ hfuture, write32_eoir, Gic.complete_eq]
  simp only [Function.update_idem]
  rfl

end Interrupts

/-! ## The operations -/

namespace Implements

variable {s : Interrupts} {period : ℕ} {a : Alarm}

theorem signalled_eq (h : Implements s period a) :
    s.signalled = if a.due then some VIRTUAL_TIMER_PPI else none := by
  rw [Interrupts.signalled, h.serves.signalled_eq, h.due]

/-- The timer's output says whether the deadline has been reached. -/
theorem output_eq (h : Implements s period a) :
    s.board.timer.output = a.deadline.any fun t => t ≤ a.now := by
  cases hdeadline : a.deadline with
  | none => exact output_stopped (h.stopped hdeadline)
  | some t =>
      obtain ⟨hcontrol, hcompare⟩ := h.armed t hdeadline
      rw [output_armed hcontrol, hcompare, h.now]
      rfl

theorem elapse (h : Implements s period a) (duration : ℕ) :
    Implements (s.elapse duration) period (a.elapse duration) := by
  refine ⟨h.serves.setInput _ _, Gic.setInput_input .., ?_, ?_, h.stopped, h.armed, h.ticks,
    h.timerPeriod, h.period_pos, h.period_lt⟩
  · -- the output rises if the deadline is passed now and was not before
    rw [Interrupts.elapse, Board.setTimer, Gic.setInput_latched, h.serves.edge, h.input, h.due,
      h.output_eq]
    show _ = (a.due || _)
    congr 1
    cases hdeadline : a.deadline with
    | none =>
        rw [output_stopped (t := s.board.timer.advance duration) (h.stopped hdeadline)]
        rfl
    | some t =>
        obtain ⟨hcontrol, hcompare⟩ := h.armed t hdeadline
        rw [output_armed (t := s.board.timer.advance duration) hcontrol]
        show (true && decide (s.board.timer.compare.toNat ≤
          min (s.board.timer.counter.val + duration) (2 ^ 63 - 1)) && !decide (t ≤ a.now)) =
            decide (a.now < t ∧ t ≤ min (a.now + duration) (2 ^ 63 - 1))
        rw [hcompare, h.now, Bool.true_and, Bool.and_comm, ← decide_not, ← Bool.decide_and]
        simp only [Nat.not_le]
  · show min (s.board.timer.counter.val + duration) (2 ^ 63 - 1) = _
    rw [h.now]
    rfl

theorem stopTimer (h : Implements s period a) : Implements s.stopTimer period a.stop := by
  refine ⟨h.serves.setInput _ _, Gic.setInput_input .., ?_, h.now, fun _ => rfl, ?_, h.ticks,
    h.timerPeriod, h.period_pos, h.period_lt⟩
  · rw [Interrupts.stopTimer, Interrupts.setControl, Board.setTimer, output_stopped rfl,
      Gic.setInput_low]
    exact h.due
  · intro t ht
    cases ht

/-- The masks are the CPU's, not the devices'. -/
theorem setDaif (h : Implements s period a) (daif : BitVec 4) :
    Implements { s with daif } period a :=
  ⟨h.serves, h.input, h.due, h.now, h.stopped, h.armed, h.ticks, h.timerPeriod, h.period_pos,
    h.period_lt⟩

/-- With nothing due, an acknowledgement finds nothing and changes nothing. -/
theorem acknowledge_idle (h : Implements s period a) (hdue : a.due = false) :
    s.acknowledge = (.unknown 1023, s) := by
  have hiar := h.serves.acknowledge_idle (h.due.trans hdue)
  simp only [Interrupts.acknowledge, Interrupts.read32_iar, hiar]
  rw [if_neg (by decide)]
  rfl

/-- The alarm that is due is counted, and the next one is set. -/
theorem acknowledge_due (h : Implements s period a) (hdue : a.due = true) :
    s.acknowledge.1 = .timer (BitVec.ofNat 64 (a.ticks + 1)) ∧
      Implements s.acknowledge.2 period
        { a with due := false, ticks := a.ticks + 1, deadline := some (a.now + period) } := by
  have hticks : s.timerTicks + 1 = BitVec.ofNat 64 (a.ticks + 1) := by
    rw [h.ticks, BitVec.ofNat_add]
    rfl
  have hpos : 0 < s.timerPeriod.toNat := h.timerPeriod.symm ▸ h.period_pos
  have hlt : s.timerPeriod.toNat < 2 ^ 32 := h.timerPeriod.symm ▸ h.period_lt
  have hdeadline : (s.counter + s.timerPeriod).toNat = a.now + period := by
    rw [Interrupts.counter, toNat_deadline hlt, h.now, h.timerPeriod]
  have hfuture : s.board.timer.counter < (s.counter + s.timerPeriod).toNat := by
    rw [hdeadline, h.now]
    exact Nat.lt_add_of_pos_right h.period_pos
  rw [s.acknowledge_eq (h.serves.acknowledge_eq (h.due.trans hdue)) hpos hlt]
  refine ⟨congrArg Interrupt.timer hticks, ⟨h.serves.distributor, h.serves.interface,
    h.serves.enabled, h.serves.edge, h.serves.priority, h.serves.mask, fun i => ?_⟩, ?_, rfl,
    h.now, ?_, ?_, hticks, h.timerPeriod, h.period_pos, h.period_lt⟩
  · -- the interrupt has been completed again
    rcases eq_or_ne i VIRTUAL_TIMER_PPI with rfl | hne
    · rfl
    · exact (Function.update_of_ne hne ..).trans
        ((Function.update_of_ne hne ..).trans (h.serves.inactive i))
  · exact ((output_armed rfl).trans (decide_eq_false (Nat.not_le.mpr hfuture))).symm
  · intro hnone
    cases hnone
  · rintro t ⟨⟩
    exact ⟨rfl, hdeadline⟩

theorem acknowledge (h : Implements s period a) :
    s.acknowledge.1 = (a.acknowledge period).1 ∧
      Implements s.acknowledge.2 period (a.acknowledge period).2 := by
  rw [Alarm.acknowledge]
  cases hdue : a.due with
  | false =>
      rw [h.acknowledge_idle hdue]
      exact ⟨rfl, h⟩
  | true => exact h.acknowledge_due hdue

end Implements

/-! ## Bring-up -/

/-- What `init` asks of the devices: that no interrupt is active. -/
def Inactive (s : Interrupts) : Prop := ∀ i, s.board.gic.active i = false

/-- The period that `init` sets. -/
def periodOf (s : Interrupts) (periodicHz : BitVec 64) : ℕ :=
  max 1 (s.board.timer.frequency.toNat / periodicHz.toNat)

section Init

variable (s : Interrupts)

theorem write32_distributor {offset : ℕ} (h : offset < 0x10000) (value : BitVec 32) :
    s.write32 (GICD_BASE + offset) value =
      { s with board := ⟨s.board.gic.writeDistributor offset value, s.board.timer⟩ } := by
  have hinterface : ¬GICC_BASE ≤ GICD_BASE + offset := by
    rw [GICC_BASE, GICD_BASE]
    omega
  rw [Interrupts.write32, if_neg hinterface, Nat.add_sub_cancel_left]

theorem read32_distributor {offset : ℕ} (h : offset < 0x10000) :
    s.read32 (GICD_BASE + offset) = (s.board.gic.readDistributor offset, s) := by
  have hinterface : ¬GICC_BASE ≤ GICD_BASE + offset := by
    rw [GICC_BASE, GICD_BASE]
    omega
  rw [Interrupts.read32, if_neg hinterface, Nat.add_sub_cancel_left]

/-- The loop over the priority registers. -/
theorem foldl_priority {n : ℕ} (hn : n ≤ 256) :
    (List.range n).foldl
        (fun s register => s.write32 (GICD_BASE + 0x400 + register * 4) u32Max) s =
      { s with board := ⟨{ s.board.gic with
          priority := fun r => if r < n then u32Max else s.board.gic.priority r },
          s.board.timer⟩ } := by
  induction n with
  | zero => rfl
  | succ n ih =>
      rw [List.range_succ, List.foldl_append, ih (by omega), List.foldl_cons, List.foldl_nil,
        Nat.add_assoc, write32_distributor _ (by omega), Gic.writeDistributor,
        if_neg (by omega), if_neg (by omega), if_neg (by omega), if_neg (by omega),
        if_pos (by omega)]
      have hregister : (0x400 + n * 4 - 0x400) / 4 = n := by omega
      congr 3
      funext r
      rw [hregister, Function.update_apply]
      show (if r = n then u32Max else if r < n then u32Max else s.board.gic.priority r) = _
      rcases Nat.lt_trichotomy r n with hlt | rfl | hgt
      · rw [if_neg hlt.ne, if_pos hlt, if_pos (by omega)]
      · rw [if_pos rfl, if_pos (by omega)]
      · rw [if_neg hgt.ne', if_neg (by omega), if_neg (by omega)]

/-- The distributor, set up for the timer alone. -/
def timerOnly (g : Gic) : Gic :=
  { g with
    distributor := 1
    enabled := fun i => g.enabled i && !Gic.named u32Max i ||
      Gic.named (1#32 <<< VIRTUAL_TIMER_PPI.val) i
    latched := fun i => g.latched i && !Gic.named u32Max i
    priority := Function.update (fun r => if r < 16 then u32Max else g.priority r) 6
      (u32Max &&& ~~~(0xff#32 <<< 24))
    config := Function.update g.config 1
      (g.config 1 &&& ~~~(0b11#32 <<< 22) ||| 0b10#32 <<< 22) }

theorem initDistributor_eq :
    s.initDistributor = { s with board := ⟨timerOnly s.board.gic, s.board.timer⟩ } := by
  have hzero : ∀ (s : Interrupts) (value : BitVec 32), s.write32 GICD_BASE value =
      { s with board := ⟨{ s.board.gic with distributor := value }, s.board.timer⟩ } :=
    fun s value => write32_distributor s (by decide : 0 < 0x10000) value
  have hpriority : GICD_BASE + 0x400 + VIRTUAL_TIMER_PPI.val / 4 * 4 = GICD_BASE + 0x418 := rfl
  have hconfig : GICD_BASE + 0xc00 + VIRTUAL_TIMER_PPI.val / 16 * 4 = GICD_BASE + 0xc04 := rfl
  simp only [Interrupts.initDistributor, hzero, foldl_priority _ (by decide : 16 ≤ 256),
    hpriority, hconfig, write32_distributor _ (by decide : 0x180 < 0x10000),
    write32_distributor _ (by decide : 0x280 < 0x10000),
    write32_distributor _ (by decide : 0x418 < 0x10000),
    write32_distributor _ (by decide : 0xc04 < 0x10000),
    write32_distributor _ (by decide : 0x100 < 0x10000),
    read32_distributor _ (by decide : 0x418 < 0x10000),
    read32_distributor _ (by decide : 0xc04 < 0x10000)]
  rfl

/-- With the CPU interface disabled there is nothing to complete. -/
theorem drain_disabled (h : s.board.gic.interface = 0) (fuel : ℕ) :
    Interrupts.drain (fuel + 1) s = some s := by
  have hiar : s.board.gic.acknowledge = (1023, s.board.gic) := by
    rw [Gic.acknowledge, Gic.signalled, h]
    simp
  simp only [Interrupts.drain, Interrupts.read32_iar, hiar]
  rw [if_pos (by decide)]

theorem timerOnly_serves {g : Gic} (h : ∀ i, g.active i = false) :
    Gic.Serves { timerOnly g with priorityMask := 0xff, binaryPoint := 0, interface := 1 }
      VIRTUAL_TIMER_PPI where
  distributor := by
    show (1#32).getLsbD 0 = true
    decide
  interface := by
    show (1#32).getLsbD 0 = true
    decide
  enabled i := by
    show (g.enabled i && !Gic.named u32Max i || Gic.named _ i) = _
    rw [named_u32Max, named_timer, Bool.not_true, Bool.and_false, Bool.false_or]
  edge := by
    show (g.config 1 &&& _ ||| 0b10#32 <<< 22).getLsbD 23 = true
    rw [BitVec.getLsbD_or]
    exact Bool.or_true _
  priority := by
    show (Function.update (fun r => if r < 16 then u32Max else g.priority r) 6
      (u32Max &&& ~~~(0xff#32 <<< 24)) 6 >>> 24 &&& 0xff).toNat = 0
    rw [Function.update_self]
    decide
  mask := by
    show 0 < (0xff : BitVec 32).toNat
    decide
  inactive := h

/-- The period in counts: at least one, and no more than a 32-bit frequency. -/
theorem toNat_period (frequency : BitVec 32) (periodicHz : BitVec 64) :
    (if 1 ≤ frequency.setWidth 64 / periodicHz then frequency.setWidth 64 / periodicHz
      else 1 : BitVec 64).toNat = max 1 (frequency.toNat / periodicHz.toNat) ∧
      max 1 (frequency.toNat / periodicHz.toNat) < 2 ^ 32 := by
  have hwidth : (frequency.setWidth 64).toNat = frequency.toNat := by
    rw [BitVec.toNat_setWidth]
    exact Nat.mod_eq_of_lt (frequency.isLt.trans (by decide))
  have hquotient : (frequency.setWidth 64 / periodicHz).toNat =
      frequency.toNat / periodicHz.toNat := by
    rw [BitVec.toNat_udiv, hwidth]
  constructor
  · by_cases hle : 1 ≤ frequency.setWidth 64 / periodicHz
    · have hnat : 1 ≤ frequency.toNat / periodicHz.toNat := by
        rwa [BitVec.le_def, hquotient] at hle
      rw [if_pos hle, hquotient, max_eq_right hnat]
    · have hnat : ¬1 ≤ frequency.toNat / periodicHz.toNat := by
        rwa [BitVec.le_def, hquotient] at hle
      rw [if_neg hle, max_eq_left (by omega)]
      rfl
  · exact max_lt (by decide) ((Nat.div_le_self _ _).trans_lt frequency.isLt)

/-- **Bring-up**: from any state of the devices in which no interrupt is active, `init`
returns, and leaves an alarm clock that is set one period ahead. -/
theorem init_implements {s : Interrupts} (hactive : Inactive s) {periodicHz : BitVec 64}
    (hhz : periodicHz ≠ 0) :
    ∃ s', (∀ fuel, s.init (fuel + 1) periodicHz = some s') ∧ s'.daif = s.daif &&& ~~~2 ∧
      Implements s' (periodOf s periodicHz) {
        now := s.board.timer.counter
        deadline := some (s.board.timer.counter + periodOf s periodicHz)
        due := false
        ticks := 0 } := by
  obtain ⟨hperiod, hlt⟩ := toNat_period s.board.timer.frequency periodicHz
  -- the controller before the timer is started
  let ready : Interrupts := { s with
    timerTicks := 0
    timerPeriod := if 1 ≤ s.board.timer.frequency.setWidth 64 / periodicHz then
      s.board.timer.frequency.setWidth 64 / periodicHz else 1
    board := ⟨{ timerOnly s.board.gic with
      priorityMask := 0xff, binaryPoint := 0, interface := 1 }, s.board.timer⟩ }
  have hone : 0 < periodOf s periodicHz := lt_max_of_lt_left one_pos
  have hpos : 0 < ready.timerPeriod.toNat := hperiod ▸ hone
  have hlt' : ready.timerPeriod.toNat < 2 ^ 32 := hperiod ▸ hlt
  have hserves : ready.board.gic.Serves VIRTUAL_TIMER_PPI := timerOnly_serves hactive
  have hdeadline : (ready.counter + ready.timerPeriod).toNat =
      s.board.timer.counter + periodOf s periodicHz := by
    rw [Interrupts.counter, toNat_deadline hlt', hperiod]
    rfl
  have hfuture : ready.board.timer.counter < (ready.counter + ready.timerPeriod).toNat := by
    rw [hdeadline]
    exact Nat.lt_add_of_pos_right hone
  refine ⟨{ (ready.programNext ready.timerPeriod).setControl 1 with daif := s.daif &&& ~~~2 },
    fun fuel => ?_, rfl, ?_⟩
  · have hctlr : ∀ (s : Interrupts) (value : BitVec 32), s.write32 GICC_BASE value =
        { s with board := ⟨{ s.board.gic with interface := value }, s.board.timer⟩ } :=
      fun s value => s.write32_interface 0 value
    have hpmr : ∀ (s : Interrupts) (value : BitVec 32), s.write32 (GICC_BASE + 0x004) value =
        { s with board := ⟨{ s.board.gic with priorityMask := value }, s.board.timer⟩ } :=
      fun s value => s.write32_interface _ value
    have hbpr : ∀ (s : Interrupts) (value : BitVec 32), s.write32 (GICC_BASE + 0x008) value =
        { s with board := ⟨{ s.board.gic with binaryPoint := value }, s.board.timer⟩ } :=
      fun s value => s.write32_interface _ value
    simp only [Interrupts.init, initDistributor_eq, hctlr, hpmr, hbpr]
    rw [drain_disabled _ rfl]
    simp only [if_neg hhz]
    rfl
  · rw [Interrupts.programNext_eq _ hpos hlt', Interrupts.setControl_one _ hfuture]
    refine ⟨⟨hserves.distributor, hserves.interface, hserves.enabled, hserves.edge,
      hserves.priority, hserves.mask, hserves.inactive⟩, ?_, ?_, rfl, ?_, ?_, rfl, hperiod, hone,
      hlt⟩
    · exact ((output_armed rfl).trans (decide_eq_false (Nat.not_le.mpr hfuture))).symm
    · show (s.board.gic.latched _ && !Gic.named u32Max _) = false
      rw [named_u32Max, Bool.not_true, Bool.and_false]
    · intro hnone
      cases hnone
    · rintro t ⟨⟩
      exact ⟨rfl, hdeadline⟩

end Init

end Aegis.Irq
