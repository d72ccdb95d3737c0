import Mathlib
import Aegis.Device.Gic
import Aegis.Foundation.Machine

/-!
# Interrupts

A translation of `interrupt.rs`: bring-up of the interrupt controller and the virtual timer,
and the acknowledgement of an interrupt.  `read32` and `write32` are volatile accesses to the
controller's registers, and `msr`, `mrs` go to the timer's registers and to the interrupt
masks of the CPU.  The functions run in an instant: the counter stands still meanwhile.

`init` ends with a loop that has no bound of its own; it is given fuel, and has no result
when that runs out, or when the division by the frequency asked for panics.
-/

namespace Aegis.Irq

open Device Foundation

/-- The distributor. -/
def GICD_BASE : ℕ := 0x08000000

/-- The CPU interface. -/
def GICC_BASE : ℕ := 0x08010000

def VIRTUAL_TIMER_PPI : Id := 27

def u32Max : BitVec 32 := BitVec.allOnes 32

inductive Interrupt
  | timer (ticks : BitVec 64)
  | unknown (id : BitVec 32)
  deriving DecidableEq, Repr

/-- The devices, the module's two counters, and the interrupt masks of the CPU. -/
structure Interrupts where
  board : Board
  /-- `TIMER_PERIOD` -/
  timerPeriod : BitVec 64
  /-- `TIMER_TICKS` -/
  timerTicks : BitVec 64
  /-- PSTATE.DAIF -/
  daif : BitVec 4

namespace Interrupts

/-! ## Registers -/

/-- A register of the distributor, or of the CPU interface, where reading the acknowledge
register has an effect. -/
def read32 (address : ℕ) (s : Interrupts) : BitVec 32 × Interrupts :=
  if GICC_BASE ≤ address then
    let (value, gic) := s.board.gic.readInterface (address - GICC_BASE)
    (value, { s with board := { s.board with gic } })
  else (s.board.gic.readDistributor (address - GICD_BASE), s)

def write32 (address : ℕ) (value : BitVec 32) (s : Interrupts) : Interrupts :=
  if GICC_BASE ≤ address then
    { s with board := { s.board with
        gic := s.board.gic.writeInterface (address - GICC_BASE) value } }
  else
    { s with board := { s.board with
        gic := s.board.gic.writeDistributor (address - GICD_BASE) value } }

/-- `msr CNTV_CTL_EL0, value` -/
def setControl (value : BitVec 64) (s : Interrupts) : Interrupts :=
  let timer := { s.board.timer with control := value }
  { s with board := s.board.setTimer VIRTUAL_TIMER_PPI timer }

/-- `msr CNTV_CVAL_EL0, value` -/
def setCompare (value : BitVec 64) (s : Interrupts) : Interrupts :=
  let timer := { s.board.timer with compare := value }
  { s with board := s.board.setTimer VIRTUAL_TIMER_PPI timer }

/-- `mrs value, CNTVCT_EL0` -/
def counter (s : Interrupts) : BitVec 64 := BitVec.ofNat 64 s.board.timer.counter

/-! ## The module -/

/-- The next deadline is a period from now, and not from the last deadline. -/
def programNext (period : BitVec 64) (s : Interrupts) : Interrupts :=
  s.setCompare (s.counter + period)

/-- The distributor's part of `init`. -/
def initDistributor (s : Interrupts) : Interrupts :=
  let s := s.write32 GICD_BASE 0
  let s := s.write32 (GICD_BASE + 0x180) u32Max
  let s := s.write32 (GICD_BASE + 0x280) u32Max
  let s := (List.range 16).foldl
    (fun s register => s.write32 (GICD_BASE + 0x400 + register * 4) u32Max) s
  let priorityAddress := GICD_BASE + 0x400 + VIRTUAL_TIMER_PPI.val / 4 * 4
  let priorityShift := VIRTUAL_TIMER_PPI.val % 4 * 8
  let (priority, s) := s.read32 priorityAddress
  let s := s.write32 priorityAddress (priority &&& ~~~(0xff#32 <<< priorityShift))
  let configAddress := GICD_BASE + 0xc00 + VIRTUAL_TIMER_PPI.val / 16 * 4
  let configShift := VIRTUAL_TIMER_PPI.val % 16 * 2
  let (config, s) := s.read32 configAddress
  let s := s.write32 configAddress
    (config &&& ~~~(0b11#32 <<< configShift) ||| 0b10#32 <<< configShift)
  let s := s.write32 (GICD_BASE + 0x100) (1#32 <<< VIRTUAL_TIMER_PPI.val)
  s.write32 GICD_BASE 1

/-- The loop that completes what is pending at the CPU interface. -/
def drain : ℕ → Interrupts → Option Interrupts
  | 0, _ => none
  | fuel + 1, s =>
      let (pending, s) := s.read32 (GICC_BASE + 0x00c)
      if pending &&& 0x3ff = 0x3ff then some s
      else drain fuel (s.write32 (GICC_BASE + 0x010) pending)

/-- The timer's part of `init`. -/
def initTimer (period : BitVec 64) (s : Interrupts) : Interrupts :=
  let s := { s with timerPeriod := period }
  let s := s.programNext period
  let s := s.setControl 1
  -- msr daifclr, #2
  { s with daif := s.daif &&& ~~~2 }

/-- The tick count starts again, the controller is quiet but for the timer, nothing is active, and
the timer is armed for the first time. -/
def init (fuel : ℕ) (periodicHz : BitVec 64) (s : Interrupts) : Option Interrupts :=
  let s := { s with timerTicks := 0 }
  let s := s.initDistributor
  let s := s.write32 GICC_BASE 0
  let s := s.write32 (GICC_BASE + 0x004) 0xff
  let s := s.write32 (GICC_BASE + 0x008) 0
  match drain fuel s with
  | none => none
  | some s =>
      let s := s.write32 GICC_BASE 1
      let frequency := s.board.timer.frequency.setWidth 64
      if periodicHz = 0 then none
      else
        let period := frequency / periodicHz
        some (s.initTimer (if 1 ≤ period then period else 1))

/-- Claim the interrupt that the controller offers and complete it.  If it is the timer's it is
counted and the timer armed again; an interrupt of another number is only completed. -/
def acknowledge (s : Interrupts) : Interrupt × Interrupts :=
  let (raw, s) := s.read32 (GICC_BASE + 0x00c)
  let id := raw &&& 0x3ff
  let (interrupt, s) :=
    if id = BitVec.ofNat 32 VIRTUAL_TIMER_PPI then
      let ticks := s.timerTicks + 1
      let s := { s with timerTicks := ticks }
      let s := s.setControl 0
      let s := s.write32 (GICD_BASE + 0x280) (1#32 <<< VIRTUAL_TIMER_PPI.val)
      let s := s.programNext s.timerPeriod
      let s := s.setControl 1
      (Interrupt.timer ticks, s)
    else (.unknown id, s)
  (interrupt, s.write32 (GICC_BASE + 0x010) raw)

/-- Disarm the timer and mask interrupts. -/
def stopTimer (s : Interrupts) : Interrupts :=
  let s := s.setControl 0
  -- msr daifset, #2
  { s with daif := s.daif ||| 2 }

def ticks (s : Interrupts) : BitVec 64 := s.timerTicks

/-! ## The environment -/

/-- Time passes. -/
def elapse (duration : ℕ) (s : Interrupts) : Interrupts :=
  { s with board := s.board.setTimer VIRTUAL_TIMER_PPI (s.board.timer.advance duration) }

/-- The interrupt that the CPU is asked to take. -/
def signalled (s : Interrupts) : Option Id := s.board.gic.signalled

end Interrupts

/-! ## Interrupts as a machine -/

inductive InterruptOp
  | elapse (duration : ℕ)
  | acknowledge
  | stopTimer

inductive InterruptResult
  | elapsed
  | acknowledged (interrupt : Interrupt)
  | stopped
  deriving DecidableEq

/-- What happens after bring-up, in any order: time passes, a handler acknowledges, the
timer is stopped. -/
def interruptMachine (init : Interrupts) : Machine Interrupts InterruptOp InterruptResult where
  init := init
  step s op :=
    match op with
    | .elapse duration => some (.elapsed, s.elapse duration)
    | .acknowledge => some (.acknowledged s.acknowledge.1, s.acknowledge.2)
    | .stopTimer => some (.stopped, s.stopTimer)

abbrev InterruptEvent := Event Interrupts InterruptOp InterruptResult

end Aegis.Irq
