import Mathlib
import Aegis.Live.Demo

/-!
# From stage to stage

One lemma for each kind of instruction of the user programs, and from them what one
instruction does in each stage.
-/

namespace Aegis.Live

open Foundation A64 Preempt Boot Irq

variable {layout : Layout}

theorem Core.execute_halted (layout : Layout) {core : Core} (h : core.halted = true)
    (scratch : Scratch) : core.execute layout scratch = some (.halted, core) := by
  have hstep : ∀ op, core.step layout op = some (.halted, core) := fun op => by
    rw [Core.step.eq_def, if_pos h]
  simp only [Core.execute, hstep]
  cases ((userText layout).step layout.userTextStart core.view).trap with
  | none => rfl
  | some esr => exact hstep _

/-! ## Kinds of instructions -/

/-- The running task has written a register. -/
def Sandbox.setReg (a : Sandbox) (d : Reg) (value pc : Word) : Sandbox :=
  { a with running := { a.running with x := Function.update a.running.x d value, pc } }

theorem textAt_succ (layout : Layout) (i : ℕ) : textAt layout i + 4 = textAt layout (i + 1) :=
  Listing.addressOf_succ _ _

section Instr

variable {boot : State} {period : ℕ} {core : Core} {a : Sandbox}
  (h : Hosts layout boot period core a) (prepared : Prepared layout boot)
  (hlive : a.halted = false) {i : ℕ} (hi : i < 30) (hpc : a.running.pc = textAt layout i)
  {instr : UserInstr UserLabel}
  (hinstr : ((userText layout).filterMap Listing.instrOf)[i]? = some instr) (scratch : Scratch)
include h prepared hlive hi hpc hinstr

theorem Hosts.execute_setReg {d : Reg} {value : Word}
    (hstep : instr.step (userSymbol layout) core.view = core.view.setReg d value) :
    ∃ core', core.execute layout scratch = some (.ran, core') ∧
      Hosts layout boot period core' (a.setReg d value (textAt layout (i + 1))) := by
  obtain ⟨core', hexec, h'⟩ := h.execute_runs prepared hlive hi hpc hinstr scratch hstep
  refine ⟨core', hexec, ?_⟩
  rw [h.view_eq prepared hlive] at h'
  rw [← textAt_succ, ← hpc]
  exact h'

theorem Hosts.execute_jump {pc : Word}
    (hstep : instr.step (userSymbol layout) core.view = core.view.jump pc) :
    ∃ core', core.execute layout scratch = some (.ran, core') ∧
      Hosts layout boot period core' (a.continueAt a.running.sp pc) := by
  obtain ⟨core', hexec, h'⟩ := h.execute_runs prepared hlive hi hpc hinstr scratch hstep
  rw [h.view_eq prepared hlive] at h'
  exact ⟨core', hexec, h'⟩

theorem Hosts.execute_store {t : Source} {n : Reg} (heq : instr = .str t n)
    (hn : a.running.x n = sharedWord layout) :
    ∃ core', core.execute layout scratch = some (.ran, core') ∧
      Hosts layout boot period core' { a.continueAt a.running.sp (textAt layout (i + 1)) with
        memory := storeStacks layout a.memory [(sharedWord layout, core.view.source t)] } := by
  have hview := h.view_eq prepared hlive
  have hstep := str_shared (u := core.view) (h.builtTables prepared) (by rw [hview])
    (userSymbol layout) t (by rw [hview]; exact hn)
  obtain ⟨core', hexec, h'⟩ := h.execute_runs prepared hlive hi hpc hinstr scratch
    (by rw [heq, hstep])
  refine ⟨core', hexec, ?_⟩
  rw [← textAt_succ, ← hpc]
  generalize core.view.source t = value at h' ⊢
  rw [hview] at h'
  exact h'

theorem Hosts.execute_svc {imm : BitVec 16} (heq : instr = .svc imm) :
    ∃ core', core.execute layout scratch = some (.trapped, core') ∧
      Hosts layout boot period core' ((a.continueAt a.running.sp (textAt layout (i + 1))).trap
        layout (syndrome EC_SVC (imm.setWidth 25))) := by
  subst heq
  obtain ⟨core', hexec, h'⟩ := h.execute_traps prepared hlive hi hpc hinstr scratch rfl
  refine ⟨core', hexec, ?_⟩
  rw [h.view_eq prepared hlive] at h'
  rw [← textAt_succ, ← hpc]
  exact h'

theorem Hosts.execute_abort {ec : BitVec 6}
    (hstep : instr.step (userSymbol layout) core.view = core.view.abort ec) :
    ∃ core', core.execute layout scratch = some (.trapped, core') ∧
      Hosts layout boot period core' (a.trap layout (syndrome ec 0)) := by
  obtain ⟨core', hexec, h'⟩ := h.execute_traps prepared hlive hi hpc hinstr scratch hstep
  refine ⟨core', hexec, ?_⟩
  rw [h.view_eq prepared hlive] at h'
  exact h'

end Instr

/-! ## The programs -/

theorem userSymbol_appPreemptWait : userSymbol layout .appPreemptWait = textAt layout 6 := rfl

theorem userSymbol_appPreempted : userSymbol layout .appPreempted = textAt layout 10 := rfl

theorem userSymbol_preemptBWait : userSymbol layout .preemptBWait = textAt layout 28 := rfl

section Programs

variable {boot : State} {period : ℕ} {core : Core} {a : Sandbox}
  (h : Hosts layout boot period core a) (prepared : Prepared layout boot)
  (hlive : a.halted = false) (scratch : Scratch)
include h prepared hlive

/-- One instruction of A, before its system calls and unless it finds the word set. -/
theorem Hosts.step_a {i : ℕ} (hi : i ≤ 9) {seen : Bool} (hA : AtA layout i seen a.running)
    (hseen : i = 7 → seen = false) :
    ∃ core' running memory, core.execute layout scratch = some (.ran, core') ∧
      Hosts layout boot period core' { a with running, memory } ∧
      (∀ seen' : Bool, (i = 6 → a.memory (sharedWord layout) = if seen' then 1 else 0) →
        AtA layout (nextA i) seen' running) ∧
      memory (sharedWord layout) = if i = 5 then 0 else a.memory (sharedWord layout) := by
  have hview := h.view_eq prepared hlive
  have hpc := hA.pc
  have h19 := hA.x19
  have h20 := hA.x20
  have h21 := hA.x21
  have hshared := hA.shared
  interval_cases i
  · obtain ⟨core', hexec, h'⟩ := h.execute_setReg prepared hlive (by decide) hpc rfl scratch rfl
    refine ⟨core', _, _, hexec, h', fun seen' hread => ?_, rfl⟩
    constructor <;> simp [nextA]
  · obtain ⟨core', hexec, h'⟩ := h.execute_setReg prepared hlive (by decide) hpc rfl scratch rfl
    refine ⟨core', _, _, hexec, h', fun seen' hread => ?_, rfl⟩
    constructor <;> simp [nextA, h19]
  · obtain ⟨core', hexec, h'⟩ := h.execute_setReg prepared hlive (by decide) hpc rfl scratch rfl
    refine ⟨core', _, _, hexec, h', fun seen' hread => ?_, rfl⟩
    constructor <;> simp [nextA, h19, h20]
  · obtain ⟨core', hexec, h'⟩ := h.execute_setReg prepared hlive (by decide) hpc rfl scratch rfl
    refine ⟨core', _, _, hexec, h', fun seen' hread => ?_, rfl⟩
    constructor <;> simp [nextA, h19, h20, h21]
  · have hstep : (UserInstr.sub 24 24 8).step (userSymbol layout) core.view =
        core.view.setReg 24 (sharedWord layout) := by
      rw [sharedWord, ← hA.top rfl, hview]
      rfl
    obtain ⟨core', hexec, h'⟩ := h.execute_setReg prepared hlive (by decide) hpc rfl scratch hstep
    refine ⟨core', _, _, hexec, h', fun seen' hread => ?_, rfl⟩
    constructor <;> simp [nextA, h19, h20, h21]
  · obtain ⟨core', hexec, h'⟩ := h.execute_store prepared hlive (by decide) hpc rfl scratch rfl
      (hshared (by decide))
    refine ⟨core', _, _, hexec, h', fun seen' hread => ?_, storeStacks_shared _ _⟩
    constructor <;> simp [nextA, Sandbox.continueAt, h19, h20, h21, hshared]
  · -- the word is read
    obtain ⟨core', hexec, h'⟩ := h.execute_setReg prepared hlive (by decide) hpc rfl scratch
      (ldr_shared (h.builtTables prepared) (by rw [hview]) _ 25
        (by rw [hview]; exact hshared (by decide)))
    refine ⟨core', _, _, hexec, h', fun seen' hread => ?_, rfl⟩
    have hvalue : core.view.memory (sharedWord layout) = if seen' then 1 else 0 :=
      (h.memory_stack (sharedWord_inStack layout)).trans (hread rfl)
    constructor <;> simp [nextA, h19, h20, h21, hshared, hvalue]
  · -- the word was clear
    have hclear : core.view.x 25 = 0 := by
      rw [hview]
      exact (hA.seen rfl).trans (by rw [hseen rfl]; rfl)
    have hstep : (UserInstr.cbnz 25 .appPreempted).step (userSymbol layout) core.view =
        core.view.jump (textAt layout 8) := by
      rw [UserInstr.step, if_neg (not_not.mpr hclear), ← textAt_succ, ← hpc, hview]
    obtain ⟨core', hexec, h'⟩ := h.execute_jump prepared hlive (by decide) hpc rfl scratch hstep
    refine ⟨core', _, _, hexec, h', fun seen' hread => ?_, rfl⟩
    constructor <;> simp [nextA, h19, h20, h21, hshared]
  · obtain ⟨core', hexec, h'⟩ := h.execute_setReg prepared hlive (by decide) hpc rfl scratch rfl
    refine ⟨core', _, _, hexec, h', fun seen' hread => ?_, rfl⟩
    constructor <;> simp [nextA, h19, h20, h21, hshared]
  · obtain ⟨core', hexec, h'⟩ := h.execute_jump prepared hlive (by decide) hpc rfl scratch rfl
    refine ⟨core', _, _, hexec, h', fun seen' hread => ?_, rfl⟩
    constructor <;> simp [nextA, h19, h20, h21, hshared, userSymbol_appPreemptWait]

/-- A finds the word set. -/
theorem Hosts.step_found (hA : AtA layout 7 true a.running) :
    ∃ core', core.execute layout scratch = some (.ran, core') ∧
      Hosts layout boot period core' (a.continueAt a.running.sp (textAt layout 10)) := by
  have hset : core.view.x 25 ≠ 0 := by
    rw [h.view_eq prepared hlive]
    exact (hA.seen rfl).trans_ne (by decide)
  have hstep : (UserInstr.cbnz 25 .appPreempted).step (userSymbol layout) core.view =
      core.view.jump (textAt layout 10) := by
    rw [UserInstr.step, if_pos hset, userSymbol_appPreempted]
  exact h.execute_jump prepared hlive (by decide) hA.pc rfl scratch hstep

/-- One instruction of B. -/
theorem Hosts.step_b {j : ℕ} (hj : j ≤ 6) (hB : AtB layout j a.running) :
    ∃ core' running memory, core.execute layout scratch = some (.ran, core') ∧
      Hosts layout boot period core' { a with running, memory } ∧
      AtB layout (nextB j) running ∧
      memory (sharedWord layout) = if j = 4 then 1 else a.memory (sharedWord layout) := by
  have hview := h.view_eq prepared hlive
  have hpc := hB.pc
  have hshared := hB.shared
  have hone := hB.one
  interval_cases j
  · obtain ⟨core', hexec, h'⟩ := h.execute_setReg prepared hlive (by decide) hpc rfl scratch rfl
    refine ⟨core', _, _, hexec, h', ?_, rfl⟩
    constructor <;> simp [nextB]
  · obtain ⟨core', hexec, h'⟩ := h.execute_setReg prepared hlive (by decide) hpc rfl scratch rfl
    refine ⟨core', _, _, hexec, h', ?_, rfl⟩
    constructor <;> simp [nextB]
  · have hstep : (UserInstr.sub 24 24 8).step (userSymbol layout) core.view =
        core.view.setReg 24 (sharedWord layout) := by
      rw [sharedWord, ← hB.top rfl, hview]
      rfl
    obtain ⟨core', hexec, h'⟩ := h.execute_setReg prepared hlive (by decide) hpc rfl scratch hstep
    refine ⟨core', _, _, hexec, h', ?_, rfl⟩
    constructor <;> simp [nextB]
  · obtain ⟨core', hexec, h'⟩ := h.execute_setReg prepared hlive (by decide) hpc rfl scratch rfl
    refine ⟨core', _, _, hexec, h', ?_, rfl⟩
    constructor <;> simp [nextB, hshared]
  · obtain ⟨core', hexec, h'⟩ := h.execute_store prepared hlive (by decide) hpc rfl scratch rfl
      (hshared (by decide))
    have hvalue : core.view.source (.x 25) = 1 := by
      rw [hview]
      exact hone (by decide)
    rw [hvalue] at h'
    refine ⟨core', _, _, hexec, h', ?_, storeStacks_shared _ _⟩
    constructor <;> simp [nextB, Sandbox.continueAt, hshared, hone]
  · obtain ⟨core', hexec, h'⟩ := h.execute_setReg prepared hlive (by decide) hpc rfl scratch rfl
    refine ⟨core', _, _, hexec, h', ?_, rfl⟩
    constructor <;> simp [nextB, hshared, hone]
  · obtain ⟨core', hexec, h'⟩ := h.execute_jump prepared hlive (by decide) hpc rfl scratch rfl
    refine ⟨core', _, _, hexec, h', ?_, rfl⟩
    constructor <;> simp [nextB, hshared, hone, userSymbol_preemptBWait]

end Programs

/-! ## The system calls -/

/-- The trap of an `svc`. -/
def trapOfSvc (imm : BitVec 16) : Trap := Trap.of (syndrome EC_SVC (imm.setWidth 25))

theorem trapOfSvc_yield : trapOfSvc 0 = .yield := by decide

theorem trapOfSvc_send : trapOfSvc 10 = .send := by decide

theorem trapOfSvc_reply : trapOfSvc 11 = .reply := by decide

theorem trapOfSvc_probe : trapOfSvc 12 = .probe := by decide

theorem trapOfSvc_finish : trapOfSvc 2 = .finish := by decide

theorem trapOf_dataAbort : Trap.of (syndrome EC_DATA_ABORT 0) = .dataAbort := by decide

theorem userSymbol_userBEntry : userSymbol layout .userBEntry = textAt layout 20 := rfl

theorem userSymbol_userAResumed : userSymbol layout .userAResumed = textAt layout 13 := rfl

theorem userSymbol_userAfterFault : userSymbol layout .userAfterFault = textAt layout 17 := rfl

theorem Sandbox.continueAt_phase (a : Sandbox) (sp pc : Word) :
    (a.continueAt sp pc).phase = a.phase := rfl

theorem Sandbox.send_idle {a : Sandbox} (h : a.phase = .idle) : a.send layout =
    ({ a with phase := .serving a.argument }.continueAt (userStackBTop layout)
      (userSymbol layout .userBEntry)).print [.line .callReceived] := by
  rw [Sandbox.send, h]

theorem Sandbox.reply_serving {a : Sandbox} {byte : UInt8} (h : a.phase = .serving byte) :
    a.reply layout = ({ a with phase := .closed }.continueAt (userStackATop layout)
      (userSymbol layout .userAResumed)).print
        [.byte byte, .line .authorizedWrite, .line .replied, .line (.subtreeRevoked 2)] := by
  rw [Sandbox.reply, h]

theorem Sandbox.probe_closed {a : Sandbox} (h : a.phase = .closed) :
    a.probe = a.print [.line .callDenied] := by
  rw [Sandbox.probe, h]

theorem nextA_le {i : ℕ} (hi : i ≤ 9) : nextA i ≤ 9 := by
  unfold nextA
  split_ifs <;> omega

/-- The word is clear from the time that A has cleared it. -/
theorem nextA_clear {i : ℕ} {word word' : Word} (hclear : 6 ≤ i → word = 0)
    (hword : word' = if i = 5 then 0 else word) (hi : 6 ≤ nextA i) : word' = 0 := by
  rw [hword]
  split_ifs with h5
  · rfl
  · apply hclear
    unfold nextA at hi
    split_ifs at hi <;> omega

section Serve

variable {boot : State} {period : ℕ} {core : Core} {a : Sandbox} {before : List Output}
  (h : Hosts layout boot period core a) (prepared : Prepared layout boot) (scratch : Scratch)
include h prepared

/-- One instruction among the system calls. -/
theorem Stage.Holds.serve {k : ℕ} (hs : (Stage.serves k).Holds layout before a) :
    ∃ r core' a', core.execute layout scratch = some (r, core') ∧ r ≠ .interrupted ∧
      Hosts layout boot period core' a' ∧ a'.alarm = a.alarm ∧
      (Stage.serves k).next.Holds layout before a' := by
  have hlive : a.halted = false := hs.halted
  have hconsole := hs.console
  have hdue := hs.due
  have hstopped := hs.stopped rfl
  obtain ⟨hk, hpc, hphase, hintact, harg, huart⟩ := hs.tasks
  -- what is printed comes next in the transcript
  have printed : ∀ {outputs n}, transcript.take (Stage.serves k).printed ++ outputs =
      transcript.take n → a.console ++ outputs = before ++ transcript.take n := by
    intro outputs n htake
    rw [hconsole, List.append_assoc, htake]
  interval_cases k
  · obtain ⟨core', hexec, h'⟩ := h.execute_svc prepared hlive (by decide) hpc rfl scratch rfl
    rw [Sandbox.trap, ← trapOfSvc, trapOfSvc_yield] at h'
    refine ⟨_, core', _, hexec, by decide, h', rfl, printed ?_, hlive, hdue, fun _ => hstopped,
      by decide, rfl, hphase, ?_, ?_, ?_⟩
    · show _ ++ [Output.line _, Output.line (.registerIntegrity a.registersIntact)] = _
      rw [hintact rfl]
      rfl
    all_goals simp
  · obtain ⟨core', hexec, h'⟩ := h.execute_setReg prepared hlive (by decide) hpc rfl scratch rfl
    exact ⟨_, core', _, hexec, by decide, h', rfl, hconsole, hlive, hdue, fun _ => hstopped,
      by decide, rfl, hphase, by simp, fun _ => rfl, by simp⟩
  · obtain ⟨core', hexec, h'⟩ := h.execute_svc prepared hlive (by decide) hpc rfl scratch rfl
    rw [Sandbox.trap, ← trapOfSvc, trapOfSvc_send] at h'
    simp only at h'
    rw [Sandbox.send_idle ((a.continueAt_phase _ _).trans hphase),
      userSymbol_userBEntry] at h'
    generalize userStackBTop layout = sp at h'
    refine ⟨_, core', _, hexec, by decide, h', rfl, printed rfl, hlive, hdue, fun _ => hstopped,
      by decide, rfl, ?_, by simp, by simp, by simp⟩
    show Phase.serving (.ofBitVec ((a.running.x 0).setWidth 8)) = .serving 65
    rw [harg rfl]
    rfl
  · obtain ⟨core', hexec, h'⟩ := h.execute_svc prepared hlive (by decide) hpc rfl scratch rfl
    rw [Sandbox.trap, ← trapOfSvc, trapOfSvc_reply] at h'
    simp only at h'
    rw [Sandbox.reply_serving ((a.continueAt_phase _ _).trans hphase),
      userSymbol_userAResumed] at h'
    generalize userStackATop layout = sp at h'
    exact ⟨_, core', _, hexec, by decide, h', rfl, printed rfl, hlive, hdue, fun _ => hstopped,
      by decide, rfl, rfl, by simp, by simp, by simp⟩
  · obtain ⟨core', hexec, h'⟩ := h.execute_svc prepared hlive (by decide) hpc rfl scratch rfl
    rw [Sandbox.trap, ← trapOfSvc, trapOfSvc_probe] at h'
    simp only at h'
    rw [Sandbox.probe_closed ((a.continueAt_phase _ _).trans hphase)] at h'
    exact ⟨_, core', _, hexec, by decide, h', rfl, printed rfl, hlive, hdue, fun _ => hstopped,
      by decide, rfl, hphase, by simp, by simp, by simp⟩
  · obtain ⟨core', hexec, h'⟩ := h.execute_setReg prepared hlive (by decide) hpc rfl scratch rfl
    exact ⟨_, core', _, hexec, by decide, h', rfl, hconsole, hlive, hdue, fun _ => hstopped,
      by decide, rfl, hphase, by simp, by simp, fun _ => rfl⟩
  · obtain ⟨core', hexec, h'⟩ := h.execute_setReg prepared hlive (by decide) hpc rfl scratch rfl
    exact ⟨_, core', _, hexec, by decide, h', rfl, hconsole, hlive, hdue, fun _ => hstopped,
      by decide, rfl, hphase, by simp, by simp, fun _ => huart (.inl rfl)⟩
  · have hview := h.view_eq prepared hlive
    obtain ⟨core', hexec, h'⟩ := h.execute_abort prepared hlive (by decide) hpc rfl scratch
      (strW_uart (h.builtTables prepared) (by rw [hview]) _ 0
        (by rw [hview]; exact huart (.inr rfl)))
    rw [Sandbox.trap, trapOf_dataAbort, userSymbol_userAfterFault] at h'
    exact ⟨_, core', _, hexec, by decide, h', rfl, printed rfl, hlive, hdue, fun _ => hstopped,
      by decide, rfl, hphase, by simp, by simp, by simp⟩
  · obtain ⟨core', hexec, h'⟩ := h.execute_svc prepared hlive (by decide) hpc rfl scratch rfl
    rw [Sandbox.trap, ← trapOfSvc, trapOfSvc_finish] at h'
    exact ⟨_, core', _, hexec, by decide, h', rfl, printed rfl, rfl, hdue, fun _ => hstopped,
      trivial⟩

/-- **One instruction takes a stage to the next one.** -/
theorem Stage.Holds.instr {s : Stage} (hs : s.Holds layout before a) :
    ∃ r core' a', core.execute layout scratch = some (r, core') ∧ r ≠ .interrupted ∧
      Hosts layout boot period core' a' ∧ a'.alarm = a.alarm ∧
      s.next.Holds layout before a' := by
  have hconsole := hs.console
  have hdue := hs.due
  cases s with
  | alone i =>
      obtain ⟨hi, hcurrent, hswitches, hphase, hwaiting, hA, hclear⟩ := hs.tasks
      obtain ⟨core', running, memory, hexec, h', hA', hmemory⟩ :=
        h.step_a prepared hs.halted scratch hi hA fun _ => rfl
      refine ⟨_, core', _, hexec, by decide, h', rfl, hconsole, hs.halted, hdue, hs.stopped,
        nextA_le hi, hcurrent, hswitches, hphase, hwaiting, hA' false ?_, fun hi' => ?_⟩
      · rintro rfl
        exact hclear (by decide)
      · exact nextA_clear hclear hmemory hi'
  | other i j =>
      obtain ⟨hi, hj, hcurrent, hswitches, hphase, hA, hB, hset, hclear⟩ := hs.tasks
      obtain ⟨core', running, memory, hexec, h', hB', hmemory⟩ :=
        h.step_b prepared hs.halted scratch hj hB
      refine ⟨_, core', _, hexec, by decide, h', rfl, hconsole, hs.halted, hdue, hs.stopped,
        hi, ?_, hcurrent, hswitches, hphase, hA, hB', fun hj' => ?_, fun hi' hj' => ?_⟩
      · unfold nextB
        split_ifs <;> omega
      · show memory (sharedWord layout) = 1
        rw [hmemory]
        split_ifs with h4
        · rfl
        · apply hset
          unfold nextB at hj'
          split_ifs at hj' <;> omega
      · show memory (sharedWord layout) = 0
        unfold nextB at hj'
        rw [hmemory, if_neg (by split_ifs at hj' <;> omega)]
        exact hclear hi' (by split_ifs at hj' <;> omega)
  | spins i =>
      obtain ⟨hi, hA, hclear⟩ := hs.tasks
      obtain ⟨core', running, memory, hexec, h', hA', hmemory⟩ :=
        h.step_a prepared hs.halted scratch hi hA fun _ => rfl
      refine ⟨_, core', _, hexec, by decide, h', rfl, hconsole, hs.halted, hdue, hs.stopped,
        nextA_le hi, hA' false ?_, fun hi' => ?_⟩
      · rintro rfl
        exact hclear (by decide)
      · exact nextA_clear hclear hmemory hi'
  | finds i seen =>
      obtain ⟨hi, hi', hswitches, hphase, hA, hset⟩ := hs.tasks
      by_cases hfound : i = 7 ∧ seen = true
      · obtain ⟨rfl, rfl⟩ := hfound
        obtain ⟨core', hexec, h'⟩ := h.step_found prepared hs.halted scratch hA
        refine ⟨_, core', _, hexec, by decide, h', rfl, hconsole, hs.halted, hdue, hs.stopped,
          by decide, rfl, hphase, fun _ => ?_, by simp, by simp⟩
        exact decide_eq_true ⟨⟨hA.x19 (by decide), hA.x20 (by decide), hA.x21 (by decide)⟩,
          hswitches⟩
      · obtain ⟨core', running, memory, hexec, h', hA', hmemory⟩ :=
          h.step_a prepared hs.halted scratch hi' hA fun h7 => by simpa [h7] using hfound
        rw [if_neg (by omega)] at hmemory
        have hnext : (Stage.finds i seen).next = .finds (nextA i) (decide (i = 6)) := by
          rcases eq_or_ne i 6 with rfl | h6
          · rfl
          · rw [Stage.next, if_neg h6, if_neg hfound, decide_eq_false h6]
        rw [hnext]
        refine ⟨_, core', _, hexec, by decide, h', rfl, hconsole, hs.halted, hdue, hs.stopped,
          ?_, nextA_le hi', hswitches, hphase, hA' _ ?_, hmemory.trans hset⟩
        · unfold nextA
          split_ifs <;> omega
        · rintro rfl
          exact hset
  | serves k => exact Stage.Holds.serve h prepared scratch hs
  | done =>
      have hexec := Core.execute_halted layout (h.halted.trans hs.halted) scratch
      exact ⟨_, core, a, hexec, by decide, h, rfl, hs⟩

end Serve

/-! ## Interrupts -/

section Interrupts

variable {period duration spent : ℕ} {a : Sandbox} {before : List Output} {s : Stage}

/-- Time that passes without an interrupt. -/
theorem Stage.Holds.elapse (hs : s.Holds layout before a)
    (hquiet : (a.alarm.elapse duration).due = false) :
    s.Holds layout before { a with alarm := a.alarm.elapse duration } := by
  refine ⟨hs.console, hs.halted, hquiet, hs.stopped, ?_⟩
  cases s <;> exact hs.tasks

/-- When A is back there are no more interrupts. -/
theorem Stage.Holds.quiet (hs : s.Holds layout before a) (hback : s.isBack = true) :
    (a.alarm.elapse duration).due = false :=
  Alarm.elapse_stopped hs.due (hs.stopped hback) duration

theorem initialB_atB : AtB layout 0 (initialB layout) :=
  ⟨rfl, by simp, by simp, by simp⟩

/-- **An interrupt takes a stage to the one with the other task.** -/
theorem Stage.Holds.preempt (hs : s.Holds layout before a)
    (hdue : (a.alarm.elapse duration).due = true) (hspent : spent < period) :
    s.interrupted.Holds layout before
      ({ a with alarm := a.alarm.elapse duration }.preempt period spent) := by
  have hquiet := Alarm.acknowledge_elapse hdue hspent
  have hconsole := hs.console
  cases s with
  | alone i =>
      obtain ⟨hi, hcurrent, hswitches, hphase, hwaiting, hA, hclear⟩ := hs.tasks
      rw [Sandbox.preempt_first hcurrent]
      refine ⟨?_, hs.halted, hquiet, Bool.noConfusion, hi, by decide, rfl, ?_, hphase, hA, ?_,
        by simp, fun hi' _ => hclear hi'⟩
      · show a.console ++ _ = _
        rw [hconsole, List.append_assoc]
        rfl
      · show a.switches + 1 = 1
        rw [hswitches]
        rfl
      · show AtB layout 0 a.waiting
        rw [hwaiting]
        exact initialB_atB
  | other i j =>
      obtain ⟨hi, hj, hcurrent, hswitches, hphase, hA, hB, hset, hclear⟩ := hs.tasks
      rw [Sandbox.preempt_second hcurrent, Stage.interrupted]
      have hconsole' : a.console ++ [.line .restoredA] = before ++ transcript.take 2 := by
        rw [hconsole, List.append_assoc]
        rfl
      split_ifs with hword
      · refine ⟨hconsole', hs.halted, hquiet, fun _ => rfl, hword.1, hi, ?_, hphase, hA,
          hset hword.2⟩
        show a.switches + 1 = 2
        rw [hswitches]
        rfl
      · exact ⟨hconsole', hs.halted, hquiet, fun _ => rfl, hi, hA,
          fun hi' => hclear hi' (by omega)⟩
  | spins i => exact absurd (hs.quiet rfl) (by rw [hdue]; decide)
  | finds i seen => exact absurd (hs.quiet rfl) (by rw [hdue]; decide)
  | serves k => exact absurd (hs.quiet rfl) (by rw [hdue]; decide)
  | done => exact absurd (hs.quiet rfl) (by rw [hdue]; decide)

end Interrupts

end Aegis.Live
