import Mathlib

/-!
# An interrupt controller and a timer

The programmer's model of a GICv2 with one CPU, for the 32 interrupts that are private to
it, and of the virtual timer of the generic timer architecture.

An interrupt is *pending* when an edge of its input has been latched, or, if it is
configured as level-sensitive, as long as its input is high.  The CPU interface *signals*
the pending interrupt of highest priority; reading `GICC_IAR` acknowledges it, which makes
it *active*, and writing its number to `GICC_EOIR` completes it.

The timer's output is high while it is enabled and its counter has reached the compare
value.  The counter does not come near its 64 bits in the life of a machine.
-/

namespace Device

/-- The number of a private interrupt. -/
abbrev Id := Fin 32

@[ext] structure Gic where
  /-- `GICD_CTLR` -/
  distributor : BitVec 32
  enabled : Id → Bool
  /-- edges that have been latched -/
  latched : Id → Bool
  active : Id → Bool
  /-- `GICD_IPRIORITYR`, four interrupts to a register -/
  priority : ℕ → BitVec 32
  /-- `GICD_ICFGR`, sixteen interrupts to a register -/
  config : ℕ → BitVec 32
  /-- the levels of the inputs -/
  input : Id → Bool
  /-- `GICC_CTLR` -/
  interface : BitVec 32
  /-- `GICC_PMR` -/
  priorityMask : BitVec 32
  /-- `GICC_BPR` -/
  binaryPoint : BitVec 32

namespace Gic

/-! ## Signalling -/

/-- Lower numbers are higher priorities. -/
def priorityOf (g : Gic) (i : Id) : ℕ :=
  (g.priority (i / 4) >>> (8 * (i.val % 4)) &&& 0xff).toNat

def isEdge (g : Gic) (i : Id) : Bool :=
  (g.config (i / 16)).getLsbD (2 * (i.val % 16) + 1)

def isPending (g : Gic) (i : Id) : Bool :=
  g.latched i || (!g.isEdge i && g.input i)

/-- The part of a priority that decides about preemption. -/
def groupPriority (g : Gic) (priority : ℕ) : ℕ :=
  priority >>> (g.binaryPoint.toNat % 8 + 1)

/-- The interrupt could be signalled: it is pending, enabled, not active already, not
masked, and precedes every active one. -/
def isEligible (g : Gic) (i : Id) : Bool :=
  g.enabled i && g.isPending i && !g.active i && decide (g.priorityOf i < g.priorityMask.toNat) &&
    (List.finRange 32).all fun j => !g.active j ||
      decide (g.groupPriority (g.priorityOf i) < g.groupPriority (g.priorityOf j))

/-- The interrupt that is signalled to the CPU. -/
def signalled (g : Gic) : Option Id :=
  if g.distributor.getLsbD 0 && g.interface.getLsbD 0 then
    ((List.finRange 32).filter g.isEligible).argmin g.priorityOf
  else none

/-- An input goes high or low. -/
def setInput (g : Gic) (i : Id) (level : Bool) : Gic :=
  { g with
    input := Function.update g.input i level
    latched := Function.update g.latched i
      (g.latched i || (g.isEdge i && level && !g.input i)) }

section SetInput

variable (g : Gic) (i : Id) (level : Bool)

@[simp] theorem setInput_input : (g.setInput i level).input i = level :=
  Function.update_self ..

@[simp] theorem setInput_latched : (g.setInput i level).latched i =
    (g.latched i || (g.isEdge i && level && !g.input i)) :=
  Function.update_self ..

/-- An input that goes low, or stays low, latches nothing. -/
theorem setInput_low : g.setInput i false =
    { g with input := Function.update g.input i false } := by
  rw [setInput, Bool.and_false, Bool.false_and, Bool.or_false, Function.update_eq_self]

end SetInput

/-! ## Registers -/

/-- The interrupts that a word names. -/
def named (value : BitVec 32) (i : Id) : Bool := value.getLsbD i

def readDistributor (g : Gic) (offset : ℕ) : BitVec 32 :=
  if offset = 0x000 then g.distributor
  else if offset = 0x100 then BitVec.ofFnLE g.enabled
  else if offset = 0x180 then BitVec.ofFnLE g.enabled
  else if offset = 0x280 then BitVec.ofFnLE g.isPending
  else if 0x400 ≤ offset ∧ offset < 0x800 then g.priority ((offset - 0x400) / 4)
  else if 0xc00 ≤ offset ∧ offset < 0xd00 then g.config ((offset - 0xc00) / 4)
  else 0

def writeDistributor (g : Gic) (offset : ℕ) (value : BitVec 32) : Gic :=
  if offset = 0x000 then { g with distributor := value }
  -- GICD_ISENABLER, GICD_ICENABLER and GICD_ICPENDR act on the bits that are set
  else if offset = 0x100 then { g with enabled := fun i => g.enabled i || named value i }
  else if offset = 0x180 then { g with enabled := fun i => g.enabled i && !named value i }
  else if offset = 0x280 then { g with latched := fun i => g.latched i && !named value i }
  else if 0x400 ≤ offset ∧ offset < 0x800 then
    { g with priority := Function.update g.priority ((offset - 0x400) / 4) value }
  else if 0xc00 ≤ offset ∧ offset < 0xd00 then
    { g with config := Function.update g.config ((offset - 0xc00) / 4) value }
  else g

/-- A read of `GICC_IAR`: the number of the interrupt acknowledged, 1023 if there is none. -/
def acknowledge (g : Gic) : BitVec 32 × Gic :=
  match g.signalled with
  | none => (1023, g)
  | some i => (BitVec.ofNat 32 i.val, { g with
      active := Function.update g.active i true
      latched := Function.update g.latched i false })

/-- A write of `GICC_EOIR`. -/
def complete (g : Gic) (value : BitVec 32) : Gic :=
  if h : (value &&& 0x3ff).toNat < 32 then
    { g with active := Function.update g.active ⟨(value &&& 0x3ff).toNat, h⟩ false }
  else g

def readInterface (g : Gic) (offset : ℕ) : BitVec 32 × Gic :=
  if offset = 0x000 then (g.interface, g)
  else if offset = 0x004 then (g.priorityMask, g)
  else if offset = 0x008 then (g.binaryPoint, g)
  else if offset = 0x00c then g.acknowledge
  else (0, g)

def writeInterface (g : Gic) (offset : ℕ) (value : BitVec 32) : Gic :=
  if offset = 0x000 then { g with interface := value }
  else if offset = 0x004 then { g with priorityMask := value }
  else if offset = 0x008 then { g with binaryPoint := value }
  else if offset = 0x010 then g.complete value
  else g

theorem complete_eq (g : Gic) (n : Id) : g.complete (BitVec.ofNat 32 n.val) =
    { g with active := Function.update g.active n false } := by
  have hn : ∀ n : Id, (BitVec.ofNat 32 n.val &&& 0x3ff).toNat = n.val := by decide
  have hlt : (BitVec.ofNat 32 n.val &&& 0x3ff).toNat < 32 := by
    rw [hn]
    exact n.isLt
  rw [complete, dif_pos hlt]
  congr 2
  exact Fin.ext (hn n)

/-! ## One interrupt only -/

/-- A controller that is set up for a single interrupt: it alone is enabled, by edges and
with the highest priority, and none is active. -/
structure Serves (g : Gic) (n : Id) : Prop where
  distributor : g.distributor.getLsbD 0 = true
  interface : g.interface.getLsbD 0 = true
  enabled : ∀ i, g.enabled i = decide (i = n)
  edge : g.isEdge n = true
  priority : g.priorityOf n = 0
  mask : 0 < g.priorityMask.toNat
  inactive : ∀ i, g.active i = false

section Serves

variable {g : Gic} {n : Id}

theorem Serves.isEligible_eq (h : g.Serves n) (i : Id) :
    g.isEligible i = (decide (i = n) && g.latched n) := by
  rw [isEligible, h.enabled]
  rcases eq_or_ne i n with rfl | hne
  · simp [isPending, h.edge, h.inactive, h.priority, h.mask]
  · simp [hne]

/-- Such a controller signals the interrupt once an edge has been latched. -/
theorem Serves.signalled_eq (h : g.Serves n) :
    g.signalled = if g.latched n then some n else none := by
  have hmem : ∀ i ∈ (List.finRange 32).filter g.isEligible, i = n := by
    intro i hi
    have heligible := (List.mem_filter.mp hi).2
    rw [h.isEligible_eq, Bool.and_eq_true, decide_eq_true_eq] at heligible
    exact heligible.1
  rw [signalled, h.distributor, h.interface, Bool.and_self, if_pos rfl]
  cases hlatched : g.latched n with
  | false =>
      have hnil : (List.finRange 32).filter g.isEligible = [] := by
        refine List.filter_eq_nil_iff.mpr fun i _ => ?_
        rw [h.isEligible_eq, hlatched, Bool.and_false]
        exact Bool.false_ne_true
      rw [hnil]
      rfl
  | true =>
      rw [if_pos rfl]
      have hn : n ∈ (List.finRange 32).filter g.isEligible := by
        refine List.mem_filter.mpr ⟨List.mem_finRange n, ?_⟩
        rw [h.isEligible_eq, hlatched, decide_eq_true rfl, Bool.and_self]
      cases hfirst : ((List.finRange 32).filter g.isEligible).argmin g.priorityOf with
      | none => exact absurd (List.argmin_eq_none.mp hfirst) (List.ne_nil_of_mem hn)
      | some i => rw [hmem i (List.argmin_mem hfirst)]

theorem Serves.acknowledge_idle (h : g.Serves n) (hlatched : g.latched n = false) :
    g.acknowledge = (1023, g) := by
  rw [acknowledge, h.signalled_eq, hlatched]
  rfl

theorem Serves.acknowledge_eq (h : g.Serves n) (hlatched : g.latched n = true) :
    g.acknowledge = (BitVec.ofNat 32 n.val, { g with
      active := Function.update g.active n true
      latched := Function.update g.latched n false }) := by
  rw [acknowledge, h.signalled_eq, hlatched, if_pos rfl]

/-- The input does not matter for how the controller is set up. -/
theorem Serves.setInput (h : g.Serves n) (i : Id) (level : Bool) : (g.setInput i level).Serves n :=
  ⟨h.distributor, h.interface, h.enabled, h.edge, h.priority, h.mask, h.inactive⟩

end Serves

end Gic

/-! ## The timer -/

structure VirtualTimer where
  /-- `CNTVCT_EL0` -/
  counter : Fin (2 ^ 63)
  /-- `CNTV_CVAL_EL0` -/
  compare : BitVec 64
  /-- `CNTV_CTL_EL0` -/
  control : BitVec 64
  /-- `CNTFRQ_EL0` -/
  frequency : BitVec 32

namespace VirtualTimer

/-- Enabled, not masked, and due. -/
def output (t : VirtualTimer) : Bool :=
  t.control.getLsbD 0 && !t.control.getLsbD 1 && decide (t.compare.toNat ≤ t.counter)

/-- Time passes. -/
def advance (t : VirtualTimer) (duration : ℕ) : VirtualTimer :=
  { t with counter := ⟨min (t.counter + duration) (2 ^ 63 - 1), by omega⟩ }

end VirtualTimer

/-- The controller and the timer, whose output is one of the controller's inputs. -/
structure Board where
  gic : Gic
  timer : VirtualTimer

/-- The timer changes, and its output with it. -/
def Board.setTimer (b : Board) (ppi : Id) (timer : VirtualTimer) : Board where
  gic := b.gic.setInput ppi timer.output
  timer := timer

end Device
