import Mathlib
import Aegis.Live.Turns

/-!
# Interrupts of the kernel itself

While `kernel_main` runs with interrupts enabled, an interrupt goes to
`vector_irq_current_spx`, which saves `x0` to `x30`, calls `irq_dispatch`, restores them and
returns.  The interrupted code finds its registers, its stack pointer and its flags as they
were.  What it does not find are `ELR_EL1` and `SPSR_EL1`: taking the exception overwrites
them, and the vector does not save them.
-/

namespace Aegis.Live

open Foundation A64 Sched Preempt Boot Irq

variable {layout : Layout}

/-! ## The vector -/

/-- What is done between the acknowledgement and the end takes some time. -/
def irqDispatch (spent : ℕ) (k : Statics) : Statics :=
  let (interrupt, interrupts) := k.interrupts.acknowledge
  let k := { k with interrupts := interrupts.elapse spent }
  match interrupt with
  | .timer ticks => if ticks = 3 then k.stopTimer.println .timerDelivered else k
  | .unknown id => k.stopTimer.println (.unexpectedInterrupt id)

namespace Core

def vectorIrqCurrentSpx (layout : Layout) (spent : ℕ) (scratch : Scratch) (core : Core) :
    Option Core :=
  match execBlock (.subSp 256 :: saveRegisters) core.cpu with
  | none => none
  | some entered =>
      let left := returned entered entered.sp (confine layout entered scratch)
      match execBlock vectorExit left with
      | none => none
      | some resumed =>
          some ({ core with cpu := resumed, kernel := irqDispatch spent core.kernel } : Core).eret

/-- Time passes while the kernel runs, and an interrupt may be taken. -/
def kernelElapse (layout : Layout) (duration spent : ℕ) (scratch : Scratch) (core : Core) :
    Option (LiveResult × Core) :=
  let interrupts := core.kernel.interrupts.elapse duration
  let core := { core with kernel := { core.kernel with interrupts } }
  if interrupts.signalled.isSome && !core.irqMasked then
    (core.enter.vectorIrqCurrentSpx layout spent scratch).map fun core => (.interrupted, core)
  else some (.elapsed, core)

end Core

/-! ## What the interrupted code finds -/

/-- The registers after an interrupt: all but two are as before. -/
structure Interrupted (layout : Layout) (core core' : Core) : Prop where
  x : core'.cpu.x = core.cpu.x
  sp : core'.cpu.sp = core.cpu.sp
  flags : core'.cpu.flags = core.cpu.flags
  pc : core'.pc = core.pc
  mode : core'.mode = core.mode
  daif : core'.kernel.interrupts.daif = core.kernel.interrupts.daif
  halted : core'.halted = core.halted
  elr : core'.cpu.sys .elrEl1 = core.pc
  spsr : core'.cpu.sys .spsrEl1 =
    A64.spsr core.cpu.flags core.kernel.interrupts.daif core.mode
  sys : ∀ r, r ≠ .elrEl1 → r ≠ .spsrEl1 → core'.cpu.sys r = core.cpu.sys r
  guarded : SameGuarded layout core.cpu.memory core'.cpu.memory

/-- The stores of the vector are those of the vector for user code. -/
theorem Placement.saveRegisters_eq (cpu : State) (h : Placement layout cpu.sp) :
    ∃ entered, execBlock (.subSp 256 :: saveRegisters) cpu = some entered ∧
      entered.sp = cpu.sp - 256 ∧ entered.sys = cpu.sys ∧
      frameContext entered (cpu.sp - 256) = userContext cpu ∧
      SameGuarded layout cpu.memory entered.memory := by
  obtain ⟨after, hafter, -, hsp, hsys, hcontext, hguard⟩ := h.vectorEntry_eq
  have hsaved : execBlock saveRegisters { cpu with sp := cpu.sp - 256 } =
      some (State.save { cpu with sp := cpu.sp - 256 } frameLayout) :=
    execBlock_stores storesOf_saveRegisters (aligned_frameLayout (h.aligned.sub (by decide)))
  rw [vectorEntry, execBlock_cons (t := { cpu with sp := cpu.sp - 256 }) rfl,
    execBlock_append hsaved] at hafter
  obtain rfl := Option.some.inj hafter
  exact ⟨_, (execBlock_cons rfl).trans hsaved, hsp, hsys, hcontext, hguard⟩

/-- The interrupt masks are part of the processor state. -/
def Statics.setDaif (k : Statics) (daif : BitVec 4) : Statics :=
  { k with interrupts := { k.interrupts with daif } }

/-- **An interrupt is transparent**, up to the two registers that it goes through. -/
theorem vectorIrqCurrentSpx_interrupted (core : Core) (h : Placement layout core.cpu.sp)
    (spent : ℕ) (scratch : Scratch) :
    ∃ core', core.enter.vectorIrqCurrentSpx layout spent scratch = some core' ∧
      Interrupted layout core core' ∧
      core'.kernel = (irqDispatch spent core.enter.kernel).setDaif core.kernel.interrupts.daif := by
  obtain ⟨entered, hentry, hsp, hsys, hcontext, hguard⟩ :=
    Placement.saveRegisters_eq core.enter.cpu h
  obtain ⟨resumed, hexit, hsp', hsys', hcontext', hguard'⟩ :=
    Placement.vectorExit_eq h hsp scratch
  have hcontext := hcontext'.trans hcontext
  rw [userContext, userContext, UserContext.mk.injEq] at hcontext
  obtain ⟨hx, -, helr, hspsr, -⟩ := hcontext
  have hspsr' : resumed.sys .spsrEl1 =
      spsr core.cpu.flags core.kernel.interrupts.daif core.mode := hspsr
  refine ⟨({ core.enter with
      cpu := resumed, kernel := irqDispatch spent core.enter.kernel } : Core).eret, ?_, ?_, ?_⟩
  · rw [Core.vectorIrqCurrentSpx, hentry]
    simp only [hsp]
    rw [show core.enter.cpu.sp = core.cpu.sp from rfl, hexit]
  · constructor
    · exact registers_ext hx
    · exact hsp'
    · show spsrFlags (resumed.sys .spsrEl1) = _
      rw [hspsr', spsrFlags_spsr]
    · exact helr
    · show spsrMode (resumed.sys .spsrEl1) = _
      rw [hspsr', spsrMode_spsr]
    · show spsrDaif (resumed.sys .spsrEl1) = _
      rw [hspsr', spsrDaif_spsr]
    · rfl
    · exact helr
    · exact hspsr'
    · intro r helr' hspsr''
      show resumed.sys r = _
      rw [hsys', hsys]
      show Function.update (Function.update core.cpu.sys .elrEl1 _) .spsrEl1 _ r = _
      rw [Function.update_of_ne hspsr'', Function.update_of_ne helr']
    · exact fun a ha => (hguard' a ha).trans (hguard a ha)
  · show Statics.setDaif _ (spsrDaif (resumed.sys .spsrEl1)) = _
    rw [hspsr', spsrDaif_spsr]

/-- Time passes: nothing but the devices changes, or there is an interrupt. -/
theorem kernelElapse_cases {core : Core} (h : Placement layout core.cpu.sp)
    (duration spent : ℕ) (scratch : Scratch) :
    (∃ k, core.kernelElapse layout duration spent scratch =
      some (.elapsed, { core with kernel := k })) ∨
    ∃ core', core.kernelElapse layout duration spent scratch = some (.interrupted, core') ∧
      Interrupted layout core core' := by
  unfold Core.kernelElapse
  simp only
  split_ifs
  · right
    obtain ⟨core', hvector, hinterrupted, -⟩ := vectorIrqCurrentSpx_interrupted
      { core with kernel := { core.kernel with
        interrupts := core.kernel.interrupts.elapse duration } } h spent scratch
    refine ⟨core', by rw [hvector]; rfl, ?_⟩
    exact ⟨hinterrupted.x, hinterrupted.sp, hinterrupted.flags,
      hinterrupted.pc, hinterrupted.mode, hinterrupted.daif, hinterrupted.halted,
      hinterrupted.elr, hinterrupted.spsr, hinterrupted.sys, hinterrupted.guarded⟩
  · exact .inl ⟨_, rfl⟩

end Aegis.Live
