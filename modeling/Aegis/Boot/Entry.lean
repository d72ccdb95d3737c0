import Mathlib
import Aegis.A64.Reset
import Aegis.Boot.Tables

/-!
# The first instructions

`_start` masks interrupts, sets the stack pointer and sees to it that the rest runs at EL1:
it drops from EL2, goes on if it is at EL1 already, and waits for good at any other level.
The listing is the source's, up to `.Lenter_rust`, where that of `Aegis.Boot.Model` begins.
-/

namespace Aegis.Boot

open Foundation A64

inductive EntryLabel
  | start
  | park
  | dropFromEl2
  | enterRust
  deriving DecidableEq

/-- `boot.S` from `_start` to `.Lenter_rust`. -/
def startCode (bootStackTop : Word) : ResetCode EntryLabel := [
  .label .start,
  .instr (.daifset 0xf),
  .instr (.plain (.ldrLiteral 0 bootStackTop)),
  .instr (.movToSp 0),
  .instr (.currentEl 0),
  .instr (.plain (.lsr 0 0 2)),
  .instr (.plain (.cmp 0 (.imm 2))),
  .instr (.beq .dropFromEl2),
  .instr (.plain (.cmp 0 (.imm 1))),
  .instr (.beq .enterRust),
  .label .park,
  .instr .wfe,
  .instr (.b .park),
  .label .dropFromEl2,
  .instr (.plain (.mov 0 (1#64 <<< 31))),
  .instr (.msr .hcrEl2 (.x 0)),
  .instr (.plain (.mov 0 3)),
  .instr (.msr .cnthctlEl2 (.x 0)),
  .instr (.msr .cntvoffEl2 .xzr),
  .instr (.plain (.mov 0 0x3c5)),
  .instr (.msr .spsrEl2 (.x 0)),
  .instr (.adr 0 .enterRust),
  .instr (.msr .elrEl2 (.x 0)),
  .instr (.plain (.ldrLiteral 0 bootStackTop)),
  .instr (.msr .spEl1 (.x 0)),
  .instr .eret,
  .label .enterRust]

/-- Where the linker puts `.Lenter_rust`, when `_start` is at `base`. -/
def enterRust (bootStackTop base : Word) : Word :=
  (startCode bootStackTop).target base .enterRust

/-- What `_start` leaves at `.Lenter_rust`. -/
structure Entered (bootStackTop : Word) (reset r : Reset) : Prop where
  mode : r.mode = if levelOf reset.mode = 2 then EL1h else reset.mode
  daif : r.daif = 0xf
  sp : r.cpu.sp = bootStackTop
  memory : r.cpu.memory = reset.cpu.memory
  sys : r.cpu.sys = reset.cpu.sys
  /-- EL1 may use the timer, and the virtual counter is the physical one. -/
  timer : levelOf reset.mode = 2 → r.el2 .cnthctlEl2 = 3 ∧ r.el2 .cntvoffEl2 = 0

section Start

variable {bootStackTop : Word} (base : Word) {reset : Reset}

/-- What is known at the first branch. -/
structure Dispatched (bootStackTop : Word) (reset r : Reset) : Prop where
  mode : r.mode = reset.mode
  daif : r.daif = 0xf
  sp : r.cpu.sp = bootStackTop
  memory : r.cpu.memory = reset.cpu.memory
  sys : r.cpu.sys = reset.cpu.sys
  x0 : r.cpu.x 0 = (levelOf reset.mode).setWidth 64
  zero : r.cpu.flags.zero = (levelOf reset.mode == 2)

theorem currentEl_level (level : BitVec 2) :
    level.setWidth 64 <<< 2 >>> 2 = level.setWidth 64 ∧
      (level.setWidth 64 == 2#64) = (level == 2#2) ∧
      (level.setWidth 64 == 1#64) = (level == 1#2) := by
  revert level
  decide

theorem daif_masked (daif : BitVec 4) : daif ||| 0xf = 0xf := by
  revert daif
  decide

theorem start_dispatches (bootStackTop : Word) (hlevel : levelOf reset.mode ≠ 0) :
    ∃ r, (startCode bootStackTop).Reaches base (Listing.addressOf base 0, reset)
        (Listing.addressOf base 6, r) ∧
      Dispatched bootStackTop reset r := by
  obtain ⟨hshift, htwo, -⟩ := currentEl_level (levelOf reset.mode)
  obtain ⟨r, hexec, hr⟩ : ∃ r, ResetCode.execLine ((startCode bootStackTop).target base) [
      .daifset 0xf,
      .plain (.ldrLiteral 0 bootStackTop),
      .movToSp 0,
      .currentEl 0,
      .plain (.lsr 0 0 2),
      .plain (.cmp 0 (.imm 2))] reset = some r ∧ Dispatched bootStackTop reset r := by
    simp only [ResetCode.execLine, ResetInstr.exec, if_neg hlevel, Instr.exec, Reset.setReg,
      State.operand, Option.map_some]
    refine ⟨_, rfl, rfl, daif_masked _, ?_, rfl, rfl, ?_, ?_⟩
    · simp
    · simpa using hshift
    · simpa [Flags.compare, hshift] using htwo
  exact ⟨r, ResetCode.Reaches.line rfl (by decide) rfl hexec, hr⟩

variable {r : Reset} (h : Dispatched bootStackTop reset r)
include h

/-- From another level than EL2, the second comparison. -/
theorem Dispatched.compares (hlevel : levelOf reset.mode ≠ 2) :
    ∃ t, (startCode bootStackTop).Reaches base (Listing.addressOf base 6, r)
        (Listing.addressOf base 8, t) ∧
      Entered bootStackTop reset t ∧ t.cpu.flags.zero = (levelOf reset.mode == 1) := by
  have hzero : r.cpu.flags.zero = false := by
    rw [h.zero]
    exact beq_false_of_ne hlevel
  obtain ⟨-, -, hone⟩ := currentEl_level (levelOf reset.mode)
  obtain ⟨t, hexec, ht⟩ : ∃ t, ResetCode.execLine ((startCode bootStackTop).target base) [
      .beq .dropFromEl2,
      .plain (.cmp 0 (.imm 1))] r = some t ∧ Entered bootStackTop reset t ∧
        t.cpu.flags.zero = (levelOf reset.mode == 1) := by
    simp only [ResetCode.execLine, ResetInstr.exec, hzero, Instr.exec, State.operand,
      Option.map_some, Bool.false_eq_true, if_false]
    refine ⟨_, rfl, ⟨?_, h.daif, h.sp, h.memory, h.sys, fun h2 => absurd h2 hlevel⟩, ?_⟩
    · rw [if_neg hlevel, h.mode]
    · rw [h.x0]
      exact hone
  exact ⟨t, ResetCode.Reaches.line rfl (by decide) rfl hexec, ht⟩

/-- From EL2, the rest of the way. -/
theorem Dispatched.drops (hlevel : levelOf reset.mode = 2) :
    ∃ r', (startCode bootStackTop).Reaches base (Listing.addressOf base 6, r)
        (enterRust bootStackTop base, r') ∧
      Entered bootStackTop reset r' := by
  have hzero : r.cpu.flags.zero = true := by
    rw [h.zero, hlevel]
    rfl
  have hmode : levelOf r.mode = 2 := by rw [h.mode, hlevel]
  have hbranch : (startCode bootStackTop).Reaches base (Listing.addressOf base 6, r)
      (Listing.addressOf base 11, r) := by
    refine ResetCode.Reaches.jump (.beq .dropFromEl2) (by decide) rfl ?_
    rw [ResetInstr.exec, if_pos hzero]
    rfl
  obtain ⟨t, hexec, hcpu, htmode, hhcr, hcnthctl, hcntvoff, hspsr, helr, hsp⟩ : ∃ t,
      ResetCode.execLine ((startCode bootStackTop).target base) [
        .plain (.mov 0 (1#64 <<< 31)),
        .msr .hcrEl2 (.x 0),
        .plain (.mov 0 3),
        .msr .cnthctlEl2 (.x 0),
        .msr .cntvoffEl2 .xzr,
        .plain (.mov 0 0x3c5),
        .msr .spsrEl2 (.x 0),
        .adr 0 .enterRust,
        .msr .elrEl2 (.x 0),
        .plain (.ldrLiteral 0 bootStackTop),
        .msr .spEl1 (.x 0)] r = some t ∧
      t.cpu = r.cpu.set 0 bootStackTop ∧ t.mode = r.mode ∧
      t.el2 .hcrEl2 = 1#64 <<< 31 ∧ t.el2 .cnthctlEl2 = 3 ∧ t.el2 .cntvoffEl2 = 0 ∧
      t.el2 .spsrEl2 = 0x3c5 ∧ t.el2 .elrEl2 = enterRust bootStackTop base ∧
      t.el2 .spEl1 = bootStackTop := by
    have hel2 : (2 : BitVec 2) ≤ levelOf r.mode := by
      rw [hmode]
      decide
    simp only [ResetCode.execLine, ResetInstr.exec, if_pos hel2, Instr.exec, Reset.setReg,
      State.source, Option.map_some]
    refine ⟨_, rfl, ?_, rfl, ?_⟩
    · simp [State.set]
    · simp [enterRust]
  have hline : (startCode bootStackTop).Reaches base (Listing.addressOf base 11, r)
      (Listing.addressOf base 22, t) := ResetCode.Reaches.line rfl (by decide) rfl hexec
  -- RW is set, TGE is not, and the saved state is that of EL1 with everything masked
  obtain ⟨r', hreturn, hr'⟩ : ∃ r', t.exceptionReturn = some r' ∧
      Entered bootStackTop reset r' := by
    have havailable : t.el1Available = true := by
      rw [Reset.el1Available, hhcr]
      decide
    have hsaved : (t.el2 .spsrEl2).extractLsb' 0 5 = 0#1 ++ EL1h := by
      rw [hspsr]
      decide
    rw [Reset.exceptionReturn, if_pos ⟨by rw [htmode, hmode], havailable, hsaved⟩]
    refine ⟨_, rfl, ?_, ?_, hsp, ?_, ?_, fun _ => ⟨hcnthctl, hcntvoff⟩⟩
    · show spsrMode (t.el2 .spsrEl2) = _
      rw [if_pos hlevel, hspsr]
      decide
    · show spsrDaif (t.el2 .spsrEl2) = _
      rw [hspsr]
      decide
    · show t.cpu.memory = _
      rw [hcpu, State.set_memory, h.memory]
    · show t.cpu.sys = _
      rw [hcpu, State.set_sys, h.sys]
  refine ⟨r', (hbranch.trans hline).trans ?_, hr'⟩
  refine ResetCode.Reaches.jump .eret (by decide) rfl ?_
  rw [ResetInstr.exec, hreturn, helr]
  rfl

/-- From EL1, the rest of the way. -/
theorem Dispatched.stays (hlevel : levelOf reset.mode = 1) :
    ∃ r', (startCode bootStackTop).Reaches base (Listing.addressOf base 6, r)
        (enterRust bootStackTop base, r') ∧
      Entered bootStackTop reset r' := by
  obtain ⟨t, hreach, ht, hzero⟩ := h.compares base (by rw [hlevel]; decide)
  refine ⟨t, hreach.trans (ResetCode.Reaches.jump (.beq .enterRust) (by decide) rfl ?_), ht⟩
  rw [ResetInstr.exec, if_pos (by rw [hzero, hlevel]; rfl)]
  rfl

/-- From EL3, the loop that waits. -/
theorem Dispatched.parks (hlevel : levelOf reset.mode = 3) :
    ∃ t, (startCode bootStackTop).Reaches base (Listing.addressOf base 6, r)
      (Listing.addressOf base 9, t) := by
  obtain ⟨t, hreach, -, hzero⟩ := h.compares base (by rw [hlevel]; decide)
  have hexec : ResetCode.execLine ((startCode bootStackTop).target base) [.beq .enterRust] t =
      some t := by
    rw [ResetCode.execLine, ResetInstr.exec, if_neg (by rw [hzero, hlevel]; decide)]
    rfl
  exact ⟨t, hreach.trans (ResetCode.Reaches.line rfl (by decide) rfl hexec)⟩

end Start

section Levels

variable {bootStackTop base : Word} {reset : Reset}

/-- From EL1 and from EL2, `.Lenter_rust` is reached. -/
theorem start_enters (bootStackTop base : Word)
    (hlevel : levelOf reset.mode = 1 ∨ levelOf reset.mode = 2) :
    ∃ r, (startCode bootStackTop).Reaches base (base, reset) (enterRust bootStackTop base, r) ∧
      Entered bootStackTop reset r := by
  have hne : levelOf reset.mode ≠ 0 := by
    obtain h | h := hlevel <;> rw [h] <;> decide
  obtain ⟨r, hfirst, hr⟩ := start_dispatches base bootStackTop hne
  rw [Listing.addressOf_zero] at hfirst
  obtain h | h := hlevel
  · obtain ⟨r', hreach, hr'⟩ := hr.stays base h
    exact ⟨r', hfirst.trans hreach, hr'⟩
  · obtain ⟨r', hreach, hr'⟩ := hr.drops base h
    exact ⟨r', hfirst.trans hreach, hr'⟩

theorem enterRust_stops (r : Reset) :
    (startCode bootStackTop).step base (enterRust bootStackTop base, r) = none :=
  ResetCode.step_eq_none (i := 23) (by decide) rfl

/-- The loop that waits is not left. -/
theorem parked_forever {t : Reset} {c : Word × Reset}
    (h : (startCode bootStackTop).Reaches base (Listing.addressOf base 9, t) c) :
    c.1 = Listing.addressOf base 9 ∨ c.1 = Listing.addressOf base 10 := by
  induction h with
  | refl => exact .inl rfl
  | @tail d d' _ hstep ih =>
      obtain ⟨pc, s⟩ := d
      rw [Follows] at hstep
      obtain rfl | rfl := ih
      · rw [ResetCode.step_eq (by decide) (rfl : _ = some ResetInstr.wfe)] at hstep
        cases hstep
        exact .inr rfl
      · rw [ResetCode.step_eq (by decide) (rfl : _ = some (ResetInstr.b EntryLabel.park))] at hstep
        cases hstep
        exact .inl rfl

theorem level_of_enters {r : Reset}
    (h : (startCode bootStackTop).Reaches base (base, reset) (enterRust bootStackTop base, r)) :
    levelOf reset.mode = 1 ∨ levelOf reset.mode = 2 := by
  have hcases : ∀ level : BitVec 2, level = 0 ∨ level = 1 ∨ level = 2 ∨ level = 3 := by decide
  have hend : enterRust bootStackTop base = Listing.addressOf base 23 := rfl
  obtain h0 | h1 | h2 | h3 := hcases (levelOf reset.mode)
  · -- the first instruction is not for EL0
    have hstop : (startCode bootStackTop).step base (Listing.addressOf base 0, reset) = none := by
      rw [ResetCode.step_eq (by decide) (rfl : _ = some (ResetInstr.daifset 0xf)),
        ResetInstr.exec, if_pos h0]
      rfl
    have hzero := Listing.addressOf_zero base
    rw [hzero] at hstop
    have heq := congrArg Prod.fst (end_unique .refl h hstop (enterRust_stops r))
    exact absurd (Listing.addressOf_inj (by decide) (by decide)
      ((hzero.trans heq).trans hend)) (by decide)
  · exact .inl h1
  · exact .inr h2
  · obtain ⟨s, hfirst, hs⟩ := start_dispatches base bootStackTop (by rw [h3]; decide)
    obtain ⟨t, hpark⟩ := hs.parks base h3
    rw [Listing.addressOf_zero] at hfirst
    obtain hpc | hpc := parked_forever (leads_to_end (hfirst.trans hpark) h (enterRust_stops r))
    · exact absurd (Listing.addressOf_inj (by decide) (by decide) (hend.symm.trans hpc)) (by decide)
    · exact absurd (Listing.addressOf_inj (by decide) (by decide) (hend.symm.trans hpc)) (by decide)

end Levels

/-! ## The call of `kernel_main` -/

/-- From `reset`, with `_start` at `base`, `.Lenter_rust` is reached in `r` and `kernel_main`
called in `t`. -/
def Calls (layout : Layout) (bootStackTop base : Word) (reset r : Reset) (t : State) : Prop :=
  (startCode bootStackTop).Reaches base (base, reset) (enterRust bootStackTop base, r) ∧
    Boots layout r.cpu t

/-- How `kernel_main` finds the machine. -/
structure Called (layout : Layout) (bootStackTop : Word) (reset r : Reset) (t : State) :
    Prop where
  mode : r.mode = if levelOf reset.mode = 2 then EL1h else reset.mode
  daif : r.daif = 0xf
  sp : t.sp = bootStackTop
  memory : t.memory = bootMemory layout reset.cpu.memory
  ttbr0 : t.sys .ttbr0El1 = layout.bootL1Table
  mair : t.sys .mairEl1 = 0xff00
  tcr : t.sys .tcrEl1 = 0x200803519
  sctlr : t.sys .sctlrEl1 = reset.cpu.sys .sctlrEl1 ||| 1 ||| 4 ||| 0x1000
  timer : levelOf reset.mode = 2 → r.el2 .cnthctlEl2 = 3 ∧ r.el2 .cntvoffEl2 = 0

section Calls

variable (layout : Layout) (bootStackTop base : Word) {reset : Reset}

theorem bootCode_sp : (bootCode layout).all (!·.movesSp) = true := rfl

theorem exists_calls (hlevel : levelOf reset.mode = 1 ∨ levelOf reset.mode = 2) :
    ∃ r t, Calls layout bootStackTop base reset r t ∧ Called layout bootStackTop reset r t := by
  obtain ⟨r, hreach, hr⟩ := start_enters bootStackTop base hlevel
  obtain ⟨t, hboots, hmemory, httbr, hmair, htcr, hsctlr⟩ := boots layout r.cpu
  refine ⟨r, t, ⟨hreach, hboots⟩, hr.mode, hr.daif, ?_, ?_, httbr, hmair, htcr, ?_, hr.timer⟩
  · exact (Code.Reaches.sp_eq (bootCode_sp layout) hboots).trans hr.sp
  · rw [hmemory, hr.memory]
  · rw [hsctlr, hr.sys]

variable {layout bootStackTop base} in
theorem Calls.unique {r r' : Reset} {t t' : State} (h : Calls layout bootStackTop base reset r t)
    (h' : Calls layout bootStackTop base reset r' t') : r = r' ∧ t = t' := by
  have hr : r = r' :=
    congrArg Prod.snd (end_unique h.1 h'.1 (enterRust_stops r) (enterRust_stops r'))
  subst hr
  have hstop : ∀ t, (bootCode layout).step ((bootCode layout).length, t) = none := fun t => by
    rw [Code.step, List.getElem?_eq_none le_rfl]
  have hboots : ∀ {t}, Boots layout r.cpu t → Relation.ReflTransGen
      (Follows (bootCode layout).step) _ ((bootCode layout).length, t) := id
  exact ⟨rfl, congrArg Prod.snd (end_unique (hboots h.2) (hboots h'.2) (hstop t) (hstop t'))⟩

variable {layout bootStackTop base}

theorem Calls.called {r : Reset} {t : State} (h : Calls layout bootStackTop base reset r t) :
    Called layout bootStackTop reset r t := by
  obtain ⟨r', t', h', hcalled⟩ := exists_calls layout bootStackTop base (level_of_enters h.1)
  obtain ⟨rfl, rfl⟩ := h.unique h'
  exact hcalled

end Calls

/-- **`kernel_main` is called from EL1 and from EL2**, and from nowhere else; and always at
EL1, with interrupts masked, on the boot stack, with the boot tables in memory and translation
turned on. -/
theorem kernel_main_called_iff (layout : Layout) (bootStackTop base : Word) (reset : Reset) :
    ((∃ r t, Calls layout bootStackTop base reset r t) ↔
      levelOf reset.mode = 1 ∨ levelOf reset.mode = 2) ∧
      ∀ r t, Calls layout bootStackTop base reset r t → Called layout bootStackTop reset r t := by
  refine ⟨⟨fun ⟨r, t, h⟩ => level_of_enters h.1, fun hlevel => ?_⟩, fun r t h => h.called⟩
  obtain ⟨r, t, h, -⟩ := exists_calls layout bootStackTop base hlevel
  exact ⟨r, t, h⟩

end Aegis.Boot
