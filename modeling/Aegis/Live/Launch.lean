import Mathlib
import Aegis.Live.Kernel

/-!
# The way into user code

`launch_user_demo` writes `SP_EL0`, `ELR_EL1` and `SPSR_EL1` and returns to EL0, all of it with
interrupts enabled.  An interrupt in between overwrites `ELR_EL1` and `SPSR_EL1` again
(`Interrupted`).  Before `ELR_EL1` is written this does no harm.  After that, `eret` goes back
to the instruction that was interrupted: at EL0, if `SPSR_EL1` is still to be written, so that
user code begins in the middle of the kernel; else at EL1, where `eret` is reached again, and
again, and user code never begins.
-/

namespace Aegis.Live

open Foundation A64 Preempt Boot Irq

variable {layout : Layout}

/-! ## The machine -/

inductive LaunchOp
  | instr
  | elapse (duration spent : ℕ) (scratch : Scratch)

inductive LaunchResult
  | ran
  | elapsed
  | interrupted
  /-- user code has begun -/
  | over
  deriving DecidableEq

/-- The number of the instruction at an address. -/
def launchIndex (base pc : Word) : ℕ := (pc - base).toNat / 4

/-- `launch_user_demo`, which is at `base`. -/
def Core.launchStep (layout : Layout) (base : Word) (core : Core) (op : LaunchOp) :
    Option (LaunchResult × Core) :=
  if core.mode = EL0t then some (.over, core)
  else
    match op with
    | .instr =>
        match (launchUserDemo layout)[launchIndex base core.pc]? with
        | some instr => (instr.exec core.cpu).map fun cpu =>
            (.ran, { core with cpu, pc := core.pc + 4 })
        | none => some (.ran, core.eret)
    | .elapse duration spent scratch =>
        (core.kernelElapse layout duration spent scratch).map fun (r, core) =>
          (if r = .interrupted then .interrupted else .elapsed, core)

def launchMachine (layout : Layout) (base : Word) (init : Core) :
    Machine Core LaunchOp LaunchResult where
  init := init
  step := Core.launchStep layout base

abbrev LaunchEvent := Event Core LaunchOp LaunchResult

/-- How many instructions have run. -/
def launchCount (es : List LaunchEvent) : ℕ := es.countP fun ev => ev.result = .ran

/-- The instruction before which the last interrupt came, of those after `msr elr_el1`. -/
def spoiledAt (base : Word) (es : List LaunchEvent) : Option ℕ :=
  es.foldl (fun spoiled ev =>
    let i := launchIndex base ev.before.pc
    if ev.result = .interrupted ∧ 4 ≤ i then some i else spoiled) none

/-- The first task, as it should begin. -/
def initialA (layout : Layout) (boot : State) : UserTask :=
  ⟨Function.update boot.x 0 0, userStackATop layout, userSymbol layout .userEntry, .clear⟩

/-- What becomes of the launch, when the CPU had these registers at its beginning. -/
def LaunchOutcome (layout : Layout) (base : Word) (boot : State) (es : List LaunchEvent)
    (final : Core) : Prop :=
  match spoiledAt base es with
  | none =>
      if launchCount es < 8 then final.mode = EL1h
      else final.mode = EL0t ∧ taskOf final = initialA layout boot
  | some i =>
      if launchCount es < 8 ∨ 6 ≤ i then final.mode = EL1h
      else final.mode = EL0t ∧
        taskOf final = { initialA layout boot with pc := base + BitVec.ofNat 64 (4 * i) }

/-! ## The invariant -/

/-- What the registers are at instruction `i`, when the last interrupt spoiled the launch
there; user code should begin at `entry`, with its stack at `top`. -/
structure LaunchAt (top entry base : Word) (boot : State) (i : ℕ) (spoiled : Option ℕ)
    (core : Core) : Prop where
  le : i ≤ 7
  mode : core.mode = EL1h
  pc : core.pc = base + BitVec.ofNat 64 (4 * i)
  sp : core.cpu.sp = boot.sp
  x : ∀ r, r ≠ 0 → core.cpu.x r = boot.x r
  x0_top : 1 ≤ i → i ≤ 2 → core.cpu.x 0 = top
  x0_entry : 3 ≤ i → i ≤ 4 → core.cpu.x 0 = entry
  x0_zero : 5 ≤ i → core.cpu.x 0 = 0
  spEl0 : 2 ≤ i → core.cpu.sys .spEl0 = top
  elr : 4 ≤ i → core.cpu.sys .elrEl1 =
    spoiled.elim entry fun j => base + BitVec.ofNat 64 (4 * j)
  user : 6 ≤ i → (∀ j, spoiled = some j → j < 6) → core.cpu.sys .spsrEl1 = 0
  kernel : ∀ j, spoiled = some j → 6 ≤ j → spsrMode (core.cpu.sys .spsrEl1) = EL1h
  spoiled_le : ∀ j, spoiled = some j → 4 ≤ j ∧ j ≤ i

section Steps

variable {top entry base : Word} {boot : State} {i : ℕ} {spoiled : Option ℕ} {core : Core}

theorem launchIndex_base (hi : i ≤ 7) : launchIndex base (base + BitVec.ofNat 64 (4 * i)) = i := by
  rw [launchIndex, add_sub_cancel_left, BitVec.toNat_ofNat]
  omega

theorem launch_address_succ : base + BitVec.ofNat 64 (4 * i) + 4 =
    base + BitVec.ofNat 64 (4 * (i + 1)) :=
  Listing.addressOf_succ base i

theorem LaunchAt.mode_ne (h : LaunchAt top entry base boot i spoiled core) :
    core.mode ≠ EL0t := by
  rw [h.mode]
  decide

/-- An instruction before `eret`. -/
theorem LaunchAt.instr (h : LaunchAt (userStackATop layout) (userSymbol layout .userEntry) base
      boot i spoiled core) (hi : i < 7) :
    ∃ core', core.launchStep layout base .instr = some (.ran, core') ∧
      LaunchAt (userStackATop layout) (userSymbol layout .userEntry) base boot (i + 1) spoiled
        core' := by
  have hspoiled : ∀ j, spoiled = some j → 4 ≤ j ∧ j ≤ i + 1 :=
    fun j hj => ⟨(h.spoiled_le j hj).1, (h.spoiled_le j hj).2.trans (Nat.le_succ i)⟩
  rw [Core.launchStep, if_neg h.mode_ne, h.pc, launchIndex_base h.le, launch_address_succ,
    launchUserDemo]
  generalize userStackATop layout = top at *
  generalize userSymbol layout .userEntry = entry at *
  obtain ⟨-, hmode, -, hsp, hx, htop, hentry, hzero, hspEl0, helr, huser, hkernel, hle⟩ := h
  have hx' : ∀ value r, r ≠ 0 → Function.update core.cpu.x 0 value r = boot.x r :=
    fun value r hr => (Function.update_of_ne hr value core.cpu.x).trans (hx r hr)
  interval_cases i
  · exact ⟨_, rfl, by decide, hmode, rfl, hsp, hx' top, fun _ _ => rfl, by simp, by simp, by simp,
      by simp, by simp, hkernel, hspoiled⟩
  · exact ⟨_, rfl, by decide, hmode, rfl, hsp, hx, fun _ _ => htop le_rfl (by decide), by simp,
      by simp, fun _ => htop le_rfl (by decide), by simp, by simp, hkernel, hspoiled⟩
  · exact ⟨_, rfl, by decide, hmode, rfl, hsp, hx' entry, by simp, fun _ _ => rfl, by simp,
      fun _ => hspEl0 le_rfl, by simp, by simp, hkernel, hspoiled⟩
  · -- nothing is spoiled before `ELR_EL1` is written
    have hnone : spoiled = none := Option.eq_none_iff_forall_ne_some.mpr fun j hj => by
      have := hle j hj
      omega
    subst hnone
    exact ⟨_, rfl, by decide, hmode, rfl, hsp, hx, by simp, fun _ _ => hentry le_rfl (by decide),
      by simp, fun _ => hspEl0 (by decide), fun _ => hentry le_rfl (by decide), by simp, by simp,
      by simp⟩
  · exact ⟨_, rfl, by decide, hmode, rfl, hsp, hx' 0, by simp, by simp, fun _ => rfl,
      fun _ => hspEl0 (by decide), fun _ => helr le_rfl, by simp, hkernel, hspoiled⟩
  · -- what was spoiled before `SPSR_EL1` is written leads to EL0
    have hlate : ∀ j, spoiled = some j → ¬6 ≤ j := fun j hj => by
      have := hle j hj
      omega
    exact ⟨_, rfl, by decide, hmode, rfl, hsp, hx, by simp, by simp, fun _ => hzero le_rfl,
      fun _ => hspEl0 (by decide), fun _ => helr (by decide), fun _ _ => hzero le_rfl,
      fun j hj hj' => absurd hj' (hlate j hj), hspoiled⟩
  · exact ⟨_, rfl, by decide, hmode, rfl, hsp, hx, by simp, by simp, fun _ => hzero (by decide),
      fun _ => hspEl0 (by decide), fun _ => helr (by decide), fun _ => huser le_rfl, hkernel,
      hspoiled⟩

/-- `eret` begins user code, or goes back to where the last interrupt was. -/
theorem LaunchAt.eret (h : LaunchAt (userStackATop layout) (userSymbol layout .userEntry) base
      boot 7 spoiled core) :
    core.launchStep layout base .instr = some (.ran, core.eret) ∧
      ((∀ j, spoiled = some j → j < 6) → core.eret.mode = EL0t ∧
        taskOf core.eret = { initialA layout boot with
          pc := spoiled.elim (userSymbol layout .userEntry)
            fun j => base + BitVec.ofNat 64 (4 * j) }) ∧
      ∀ j, spoiled = some j → 6 ≤ j →
        LaunchAt (userStackATop layout) (userSymbol layout .userEntry) base boot j spoiled
          core.eret := by
  refine ⟨?_, fun hearly => ?_, fun j hj hlate => ?_⟩
  · rw [Core.launchStep, if_neg h.mode_ne, h.pc, launchIndex_base h.le]
    rfl
  · have hspsr := h.user (by decide) hearly
    have hx : core.cpu.x = Function.update boot.x 0 0 := by
      funext r
      rcases eq_or_ne r 0 with rfl | hr
      · rw [Function.update_self, h.x0_zero (by decide)]
      · rw [Function.update_of_ne hr, h.x r hr]
    constructor
    · show spsrMode (core.cpu.sys .spsrEl1) = _
      rw [hspsr]
      decide
    · show (⟨core.cpu.x, core.cpu.sys .spEl0, core.cpu.sys .elrEl1,
        spsrFlags (core.cpu.sys .spsrEl1)⟩ : UserTask) = _
      rw [hx, h.spEl0 (by decide), h.elr (by decide), hspsr, spsrFlags_zero]
      rfl
  · have hle := (h.spoiled_le j hj).2
    have hpc : core.cpu.sys .elrEl1 = base + BitVec.ofNat 64 (4 * j) := by
      rw [h.elr (by decide), hj]
      rfl
    exact ⟨hle, h.kernel j hj hlate, hpc, h.sp, h.x, by omega, by omega,
      fun _ => h.x0_zero (by decide), fun _ => h.spEl0 (by decide), fun _ => h.elr (by decide),
      fun _ => h.user (by decide), h.kernel, fun j' hj' => by
        obtain rfl := Option.some.inj (hj.symm.trans hj')
        exact ⟨(h.spoiled_le _ hj).1, le_rfl⟩⟩

/-- An interrupt spoils the launch, if `ELR_EL1` has been written. -/
theorem LaunchAt.interrupt (h : LaunchAt top entry base boot i spoiled core) {core' : Core}
    (hinterrupted : Interrupted layout core core') :
    LaunchAt top entry base boot i (if 4 ≤ i then some i else spoiled) core' := by
  have hx := hinterrupted.x
  have hspEl0 := hinterrupted.sys .spEl0 (by decide) (by decide)
  refine ⟨h.le, hinterrupted.mode.trans h.mode, hinterrupted.pc.trans h.pc,
    hinterrupted.sp.trans h.sp, ?_, ?_, ?_, ?_, ?_, ?_, ?_, ?_, ?_⟩
  · rw [hx]
    exact h.x
  · rw [hx]
    exact h.x0_top
  · rw [hx]
    exact h.x0_entry
  · rw [hx]
    exact h.x0_zero
  · rw [hspEl0]
    exact h.spEl0
  · intro hi
    rw [if_pos hi, hinterrupted.elr, h.pc]
    rfl
  · intro hi hearly
    rw [if_pos (by omega)] at hearly
    exact absurd (hearly i rfl) (by omega)
  · intro j hj hlate
    rw [hinterrupted.spsr, spsrMode_spsr, h.mode]
  · intro j hj
    split_ifs at hj with hi
    · obtain rfl := Option.some.inj hj
      exact ⟨hi, le_rfl⟩
    · exact h.spoiled_le j hj

end Steps

/-! ## Every run -/

/-- The launch after these events. -/
def LaunchState (layout : Layout) (base : Word) (boot : State) (es : List LaunchEvent)
    (core : Core) : Prop :=
  (∃ i, LaunchAt (userStackATop layout) (userSymbol layout .userEntry) base boot i
      (spoiledAt base es) core ∧
    ((∀ j, spoiledAt base es = some j → j < 6) → launchCount es = i)) ∨
  (core.mode = EL0t ∧ 8 ≤ launchCount es ∧ (∀ j, spoiledAt base es = some j → j < 6) ∧
    taskOf core = { initialA layout boot with
      pc := (spoiledAt base es).elim (userSymbol layout .userEntry)
        fun j => base + BitVec.ofNat 64 (4 * j) })

section Snoc

variable (base : Word) (es : List LaunchEvent) {ev : LaunchEvent}

theorem spoiledAt_interrupted (h : ev.result = .interrupted) :
    spoiledAt base (es ++ [ev]) =
      if 4 ≤ launchIndex base ev.before.pc then some (launchIndex base ev.before.pc)
      else spoiledAt base es := by
  rw [spoiledAt, List.foldl_append]
  simp only [List.foldl_cons, List.foldl_nil, h, true_and]
  rfl

theorem spoiledAt_other (h : ev.result ≠ .interrupted) :
    spoiledAt base (es ++ [ev]) = spoiledAt base es := by
  rw [spoiledAt, List.foldl_append]
  simp only [List.foldl_cons, List.foldl_nil, h, false_and, if_false]
  rfl

theorem launchCount_ran (h : ev.result = .ran) : launchCount (es ++ [ev]) = launchCount es + 1 := by
  rw [launchCount, List.countP_append, List.countP_singleton, if_pos (decide_eq_true h)]
  rfl

theorem launchCount_other (h : ev.result ≠ .ran) : launchCount (es ++ [ev]) = launchCount es := by
  rw [launchCount, List.countP_append, List.countP_singleton,
    if_neg (by rw [decide_eq_false h]; decide)]
  rfl

end Snoc

section Run

variable {base : Word} {boot : State} {es : List LaunchEvent} {core : Core} {i : ℕ}

/-- Time passes at some instruction. -/
theorem LaunchAt.elapse (h : LaunchAt (userStackATop layout) (userSymbol layout .userEntry) base
      boot i (spoiledAt base es) core) (placement : Placement layout boot.sp)
    (hcount : (∀ j, spoiledAt base es = some j → j < 6) → launchCount es = i)
    (duration spent : ℕ) (scratch : Scratch) :
    ∃ r core', core.launchStep layout base (.elapse duration spent scratch) = some (r, core') ∧
      LaunchState layout base boot
        (es ++ [⟨core, .elapse duration spent scratch, r, core'⟩]) core' := by
  rw [Core.launchStep, if_neg h.mode_ne]
  rcases kernelElapse_cases (h.sp.symm ▸ placement) duration spent scratch with
    ⟨k, hquiet⟩ | ⟨core', htaken, hinterrupted⟩
  · refine ⟨.elapsed, { core with kernel := k }, by simp [hquiet], .inl ⟨i, ?_, ?_⟩⟩
    · rw [spoiledAt_other base es LaunchResult.noConfusion]
      exact ⟨h.le, h.mode, h.pc, h.sp, h.x, h.x0_top, h.x0_entry, h.x0_zero, h.spEl0, h.elr,
        h.user, h.kernel, h.spoiled_le⟩
    · rwa [spoiledAt_other base es LaunchResult.noConfusion,
        launchCount_other es LaunchResult.noConfusion]
  · refine ⟨.interrupted, core', by simp [htaken], .inl ⟨i, ?_, ?_⟩⟩
    · rw [spoiledAt_interrupted base es rfl]
      simp only [h.pc, launchIndex_base h.le]
      exact h.interrupt hinterrupted
    · rw [spoiledAt_interrupted base es rfl, launchCount_other es LaunchResult.noConfusion]
      simp only [h.pc, launchIndex_base h.le]
      intro hearly
      refine hcount fun j hj => ?_
      split_ifs at hearly with hi
      · exact (h.spoiled_le j hj).2.trans_lt (hearly i rfl)
      · exact hearly j hj

/-- One instruction of the launch. -/
theorem LaunchAt.run (h : LaunchAt (userStackATop layout) (userSymbol layout .userEntry) base
      boot i (spoiledAt base es) core)
    (hcount : (∀ j, spoiledAt base es = some j → j < 6) → launchCount es = i) :
    ∃ core', core.launchStep layout base .instr = some (.ran, core') ∧
      LaunchState layout base boot (es ++ [⟨core, .instr, .ran, core'⟩]) core' := by
  have hsame : ∀ core', spoiledAt base (es ++ [⟨core, .instr, .ran, core'⟩]) =
      spoiledAt base es := fun core' => spoiledAt_other base es LaunchResult.noConfusion
  have hone : ∀ core', launchCount (es ++ [⟨core, .instr, .ran, core'⟩]) = launchCount es + 1 :=
    fun core' => launchCount_ran es rfl
  rcases h.le.lt_or_eq with hi | rfl
  · obtain ⟨core', hstep, h'⟩ := h.instr hi
    refine ⟨core', hstep, .inl ⟨i + 1, ?_, ?_⟩⟩
    · rwa [hsame]
    · rw [hsame, hone]
      exact fun hearly => congrArg (· + 1) (hcount hearly)
  · obtain ⟨hstep, huser, hkernel⟩ := h.eret
    refine ⟨core.eret, hstep, ?_⟩
    rw [LaunchState, hsame, hone]
    by_cases hearly : ∀ j, spoiledAt base es = some j → j < 6
    · exact .inr ⟨(huser hearly).1, by rw [hcount hearly], hearly, (huser hearly).2⟩
    · have hlate := hearly
      push Not at hlate
      obtain ⟨j, hj, hle⟩ := hlate
      exact .inl ⟨j, hkernel j hj hle, fun h => absurd h hearly⟩

theorem LaunchState.step (h : LaunchState layout base boot es core)
    (placement : Placement layout boot.sp) (op : LaunchOp) :
    ∃ r core', core.launchStep layout base op = some (r, core') ∧
      LaunchState layout base boot (es ++ [⟨core, op, r, core'⟩]) core' := by
  rcases h with ⟨i, hat, hcount⟩ | ⟨hmode, hdone⟩
  · cases op with
    | instr =>
        obtain ⟨core', hstep, h'⟩ := hat.run hcount
        exact ⟨_, core', hstep, h'⟩
    | elapse duration spent scratch => exact hat.elapse placement hcount duration spent scratch
  · refine ⟨.over, core, by rw [Core.launchStep.eq_def, if_pos hmode], .inr ⟨hmode, ?_⟩⟩
    rwa [spoiledAt_other base es LaunchResult.noConfusion,
      launchCount_other es LaunchResult.noConfusion]

theorem LaunchState.outcome (h : LaunchState layout base boot es core) :
    LaunchOutcome layout base boot es core := by
  unfold LaunchOutcome
  rcases h with ⟨i, hat, hcount⟩ | ⟨hmode, hcount, hearly, htask⟩
  · have hle := hat.le
    split
    · rename_i hnone
      rw [if_pos]
      · exact hat.mode
      · rw [hcount (by simp [hnone])]
        omega
    · rename_i j hj
      rw [if_pos]
      · exact hat.mode
      · by_cases hlate : 6 ≤ j
        · exact .inr hlate
        · left
          rw [hcount fun j' hj' => by rw [hj, Option.some.injEq] at hj'; omega]
          omega
  · split
    · rename_i hnone
      rw [if_neg (by omega)]
      rw [hnone] at htask
      exact ⟨hmode, htask⟩
    · rename_i j hj
      have hj' := hearly j hj
      rw [if_neg (by omega)]
      rw [hj] at htask
      exact ⟨hmode, htask⟩

end Run

/-- **What an interrupt makes of the way into user code.**  Time may pass before each
instruction of `launch_user_demo`, any number of times.  If no interrupt comes after
`msr elr_el1`, the eighth instruction begins task A as it should be.  Else what counts is the
last one: if it comes before `msr spsr_el1`, user code begins at the instruction of the kernel
that was interrupted; if it comes later, user code never begins. -/
theorem launch_outcome {core : Core} (placement : Placement layout core.cpu.sp)
    (hmode : core.mode = EL1h) (ops : List LaunchOp) :
    ∃ es final, (launchMachine layout core.pc core).exec core ops = some (es, final) ∧
      LaunchOutcome layout core.pc core.cpu es final := by
  have hstart : LaunchState layout core.pc core.cpu [] core := by
    refine .inl ⟨0, ⟨by decide, hmode, ?_, rfl, fun _ _ => rfl, ?_, ?_, ?_, ?_, ?_, ?_, ?_, ?_⟩,
      fun _ => rfl⟩
    · exact (BitVec.add_zero _).symm
    all_goals simp [spoiledAt]
  obtain ⟨es, final, hexec, hfinal⟩ := Machine.exec_of_invariant
    (M := launchMachine layout core.pc core) (LaunchState layout core.pc core.cpu) hstart
    (fun es core' op h => h.step placement op) ops
  exact ⟨es, final, hexec, hfinal.outcome⟩

/-- The sample, after `init(20)`. -/
def launchedCore : Core :=
  { sampleCore (fun _ => 0) with
    kernel := { (sampleCore fun _ => 0).kernel with
      interrupts := (resetInterrupts.init 1 20).getD resetInterrupts } }

/-- A period is over before instruction `n`. -/
def interruptedBefore (n : ℕ) : List LaunchOp :=
  List.replicate n .instr ++
    .elapse 3125000 100 ⟨fun _ => 5, fun _ => 6, .clear⟩ :: List.replicate (8 - n) .instr

/-- The interrupt is taken there, and eight instructions run. -/
theorem interruptedBefore_spoiled : ∀ n : Fin 8,
    ((launchMachine sampleLayout launchedCore.pc launchedCore).exec launchedCore
        (interruptedBefore n)).map
      (fun run => (spoiledAt launchedCore.pc run.1, launchCount run.1)) =
        some (if 4 ≤ n.val then some n.val else none, 8) := by
  decide +kernel

/-- An interrupt before each of the instructions: task A begins, or EL0 begins in the kernel,
or it does not begin. -/
theorem launch_outcome_sample : launchedCore.mode = EL1h ∧ launchedCore.irqMasked = false ∧
    ∀ n : Fin 8, ∃ es final,
      (launchMachine sampleLayout launchedCore.pc launchedCore).exec launchedCore
        (interruptedBefore n) = some (es, final) ∧
      (n.val < 4 → final.mode = EL0t ∧ taskOf final = initialA sampleLayout launchedCore.cpu) ∧
      (4 ≤ n.val → n.val < 6 → final.mode = EL0t ∧
        taskOf final = { initialA sampleLayout launchedCore.cpu with
          pc := launchedCore.pc + BitVec.ofNat 64 (4 * n) }) ∧
      (6 ≤ n.val → final.mode = EL1h) := by
  refine ⟨rfl, by decide +kernel, fun n => ?_⟩
  have placement : Placement sampleLayout launchedCore.cpu.sp := sampleLayout_placement
  obtain ⟨es, final, hexec, houtcome⟩ := launch_outcome placement rfl (interruptedBefore n)
  have hspoiled := interruptedBefore_spoiled n
  rw [hexec, Option.map_some, Option.some.injEq, Prod.mk.injEq] at hspoiled
  rw [LaunchOutcome, hspoiled.1, hspoiled.2] at houtcome
  refine ⟨es, final, hexec, fun hn => ?_, fun hn hn' => ?_, fun hn => ?_⟩
  · rwa [if_neg (by omega)] at houtcome
  · rw [if_pos hn] at houtcome
    simp only at houtcome
    rwa [if_neg (by omega)] at houtcome
  · rw [if_pos (by omega)] at houtcome
    simp only at houtcome
    rwa [if_pos (by omega)] at houtcome

end Aegis.Live
