import Mathlib
import Aegis.Live.Guard

/-!
# The live kernel does what the sandbox does

`Hosts` says which sandbox a state of the CPU and the kernel stands for.  Every operation
takes such a state to one that stands for what the sandbox does: the vectors and dispatchers
return, nothing panics, and the same lines are printed.

An exception goes through three lemmas.  `Runs.entered` is the way into a dispatcher, with the
running task in the frame; each dispatcher has a lemma that says what it leaves in the frame
and in the kernel's data; and `eret_runs` is the way out, to the task that is then in the
frame.
-/

namespace Aegis.Live

open Foundation A64 Sched Preempt Boot Irq

variable {layout : Layout}

/-! ## Which sandbox -/

/-- The context that a waiting task is saved with. -/
def UserTask.context (task : UserTask) (ttbr : Word) : UserContext where
  x := Vector.ofFn task.x
  spEl0 := task.sp
  elrEl1 := task.pc
  spsrEl1 := spsr task.flags 0 EL0t
  ttbr0El1 := ttbr

/-- The registers that stay as they are while user code runs. -/
def Fixed (r : SysReg) : Prop := r ≠ .spEl0 ∧ r ≠ .elrEl1 ∧ r ≠ .spsrEl1

theorem fixed_ttbr0El1 : Fixed .ttbr0El1 := ⟨by decide, by decide, by decide⟩

/-- What the boot code and the linker guarantee, for the CPU as `kernel_main` leaves it. -/
structure Prepared (layout : Layout) (boot : State) : Prop where
  placement : Placement layout boot.sp
  tables : BuiltTables layout boot.memory
  ttbr : boot.sys .ttbr0El1 = layout.bootL1Table

/-- The CPU runs a task at EL0, with interrupts enabled. -/
structure Runs (boot : State) (task : UserTask) (core : Core) : Prop where
  mode : core.mode = EL0t
  daif : core.kernel.interrupts.daif = 0
  x : core.cpu.x = task.x
  spEl0 : core.cpu.sys .spEl0 = task.sp
  pc : core.pc = task.pc
  flags : core.cpu.flags = task.flags
  sp : core.cpu.sp = boot.sp
  sys : ∀ r, Fixed r → core.cpu.sys r = boot.sys r

/-- What the kernel's data say: the scheduler has the waiting task, the devices the alarm,
the runtime the protocol. -/
structure Keeps (ttbr : Word) (period : ℕ) (k : Statics) (a : Sandbox) : Prop where
  alarm : Implements k.interrupts period a.alarm
  current : k.scheduler.current = some a.current.val
  runnable : ∀ t, (k.scheduler.taskAt t).state = .runnable
  waiting : (k.scheduler.taskAt (a.current + 1)).context = a.waiting.context ttbr
  switches : k.switches = a.switches
  runtime : Represents k.runtime a.phase

/-- The state stands for this sandbox; when the kernel has halted, only the console and the
memory still count. -/
structure Hosts (layout : Layout) (boot : State) (period : ℕ) (core : Core) (a : Sandbox) :
    Prop where
  console : core.kernel.console = a.console
  halted : core.halted = a.halted
  guarded : ∀ address, Guarded layout address →
    core.cpu.memory address =
      if InStack layout address then a.memory address else boot.memory address
  runs : a.halted = false → Runs boot a.running core
  keeps : a.halted = false → Keeps (boot.sys .ttbr0El1) period core.kernel a

/-! ## Into a dispatcher and back -/

section Vector

variable {boot : State} {task : UserTask} {core : Core}

/-- What a dispatcher has before it, and what it leaves: a task in the frame and the system
registers. -/
structure InFrame (layout : Layout) (boot : State) (task : UserTask) (memory : Word → Word)
    (cpu : State) : Prop where
  sp : cpu.sp = boot.sp - 256
  context : frameContext cpu (boot.sp - 256) = task.context (boot.sys .ttbr0El1)
  sys : ∀ r, Fixed r → cpu.sys r = boot.sys r
  guarded : SameGuarded layout memory cpu.memory

theorem Runs.entered (h : Runs boot task core) (placement : Placement layout boot.sp) :
    ∃ entered, execBlock vectorEntry core.enter.cpu = some entered ∧
      entered.x 0 = boot.sp - 256 ∧ InFrame layout boot task core.cpu.memory entered := by
  have hsp : core.enter.cpu.sp = boot.sp := h.sp
  have hcontext : userContext core.enter.cpu = task.context (boot.sys .ttbr0El1) := by
    rw [userContext, UserTask.context, UserContext.mk.injEq]
    refine ⟨congrArg _ h.x, h.spEl0, h.pc, ?_, h.sys .ttbr0El1 fixed_ttbr0El1⟩
    show spsr core.cpu.flags core.kernel.interrupts.daif core.mode = _
    rw [h.flags, h.daif, h.mode]
  have hplacement : Placement layout core.enter.cpu.sp := hsp.symm ▸ placement
  obtain ⟨entered, hentry, hx, hsp', hsys, hframe, hguard⟩ := hplacement.vectorEntry_eq
  rw [hsp] at hx hsp' hframe
  refine ⟨entered, hentry, hx, hsp', hframe.trans hcontext, fun r hr => ?_, hguard⟩
  rw [hsys]
  show Function.update (Function.update core.cpu.sys .elrEl1 _) .spsrEl1 _ r = _
  rw [Function.update_of_ne hr.2.2, Function.update_of_ne hr.2.1, h.sys r hr]

/-- A context has all of `x0` to `x30`. -/
theorem registers_ext {f g : Reg → Word} (h : Vector.ofFn f = Vector.ofFn g) : f = g := by
  funext i
  have hi := congrArg (fun v : Vector Word 31 => v[i]) h
  simpa using hi

/-- `eret` continues the task that the vector has loaded. -/
theorem eret_runs (hcontext : userContext core.cpu = task.context (boot.sys .ttbr0El1))
    (hsp : core.cpu.sp = boot.sp) (hsys : ∀ r, Fixed r → core.cpu.sys r = boot.sys r) :
    Runs boot task core.eret := by
  rw [userContext, UserTask.context, UserContext.mk.injEq] at hcontext
  obtain ⟨hx, hspEl0, helr, hspsr, -⟩ := hcontext
  refine ⟨?_, ?_, registers_ext hx, hspEl0, helr, ?_, hsp, hsys⟩
  · show spsrMode (core.cpu.sys .spsrEl1) = _
    rw [hspsr, spsrMode_spsr]
  · show spsrDaif (core.cpu.sys .spsrEl1) = _
    rw [hspsr, spsrDaif_spsr]
  · show spsrFlags (core.cpu.sys .spsrEl1) = _
    rw [hspsr, spsrFlags_spsr]

end Vector

/-! ## Through a vector -/

section Dispatch

variable {boot : State} {period : ℕ} {memory : Word → Word} {core : Core} {k : Statics}
  {a a' : Sandbox} {cpu : State}

/-- How a dispatcher ends, when the sandbox goes on to `a'`. -/
def Ends (layout : Layout) (boot : State) (period : ℕ) (memory : Word → Word) (a' : Sandbox) :
    Dispatch → Prop
  | .returns k cpu =>
      a'.halted = false ∧ k.console = a'.console ∧ Keeps (boot.sys .ttbr0El1) period k a' ∧
        InFrame layout boot a'.running memory cpu
  | .halts k => a'.halted = true ∧ k.console = a'.console

/-- The interrupt masks are not among the kernel's data. -/
theorem Keeps.setDaif {ttbr : Word} (h : Keeps ttbr period k a) (daif : BitVec 4) :
    Keeps ttbr period { k with interrupts := { k.interrupts with daif } } a :=
  ⟨h.alarm.setDaif daif, h.current, h.runnable, h.waiting, h.switches, h.runtime⟩

/-- **An exception from user code**, in terms of what its dispatcher does. -/
theorem Hosts.vectorLower (h : Hosts layout boot period core a) (hlive : a.halted = false)
    (placement : Placement layout boot.sp) (scratch : Scratch) (hmemory : a'.memory = a.memory)
    {dispatch : Word → Statics → State → Option Dispatch}
    (hends : ∀ entered, InFrame layout boot a.running core.cpu.memory entered →
      ∃ d, dispatch (boot.sp - 256) core.enter.kernel entered = some d ∧
        Ends layout boot period core.cpu.memory a' d) :
    ∃ core', core.enter.vectorLower layout dispatch scratch = some core' ∧
      Hosts layout boot period core' a' := by
  have hruns := h.runs hlive
  obtain ⟨entered, hentry, hx, hentered⟩ := hruns.entered placement
  obtain ⟨d, hdispatch, hd⟩ := hends entered hentered
  have hguarded : ∀ core' : Core, SameGuarded layout core.cpu.memory core'.cpu.memory →
      ∀ address, Guarded layout address → core'.cpu.memory address =
        if InStack layout address then a'.memory address else boot.memory address := by
    intro core' hsame address haddress
    rw [hsame address haddress, h.guarded address haddress, hmemory]
  cases d with
  | halts k =>
      obtain ⟨hhalted, hconsole⟩ := hd
      refine ⟨{ core.enter with cpu := entered, kernel := k, halted := true }, ?_, hconsole,
        hhalted.symm, hguarded _ hentered.guarded, ?_, ?_⟩
      · rw [Core.vectorLower, hentry]
        simp only [hx, hdispatch]
      · exact fun hlive' => absurd hhalted (Bool.eq_false_iff.mp hlive')
      · exact fun hlive' => absurd hhalted (Bool.eq_false_iff.mp hlive')
  | returns k dispatched =>
      obtain ⟨hhalted, hconsole, hkeeps, hleft⟩ := hd
      obtain ⟨resumed, hexit, hsp, hsys, hcontext, hguard⟩ :=
        placement.vectorExit_eq hleft.sp scratch
      have hresumed : Runs boot a'.running
          ({ core.enter with cpu := resumed, kernel := k } : Core).eret :=
        eret_runs (hcontext.trans hleft.context) hsp fun r hr => by
          show resumed.sys r = _
          rw [hsys, hleft.sys r hr]
      refine ⟨({ core.enter with cpu := resumed, kernel := k } : Core).eret, ?_, hconsole,
        h.halted.trans (hlive.trans hhalted.symm),
        hguarded _ fun b hb => (hguard b hb).trans (hleft.guarded b hb), fun _ => hresumed,
        fun _ => hkeeps.setDaif _⟩
      rw [Core.vectorLower, hentry]
      simp only [hx, hdispatch, hexit]

/-! ## Traps -/

/-- A register in the frame. -/
theorem InFrame.frameWord_eq {task : UserTask} (h : InFrame layout boot task memory cpu)
    (i : Reg) : frameWord cpu (boot.sp - 256) i = task.x i := by
  have hx := congrArg (fun context : UserContext => context.x[i]) h.context
  simpa [frameWord, frameContext, readFrame, UserTask.context] using hx

/-- The task in the frame continues elsewhere. -/
theorem InFrame.redirect {task : UserTask} (h : InFrame layout boot task memory cpu)
    (sp pc : Word) : InFrame layout boot { task with sp, pc } memory (redirect cpu sp pc) := by
  have hcontext := h.context
  rw [frameContext, userContext, UserTask.context, UserContext.mk.injEq] at hcontext
  obtain ⟨hx, -, -, hspsr, httbr⟩ := hcontext
  refine ⟨h.sp, ?_, fun r hr => ?_, h.guarded⟩
  · rw [frameContext, userContext, UserTask.context, UserContext.mk.injEq]
    exact ⟨hx, rfl, rfl, hspsr, httbr⟩
  · rw [Live.redirect, writeSys, writeSys]
    show Function.update (Function.update cpu.sys .spEl0 sp) .elrEl1 pc r = _
    rw [Function.update_of_ne hr.2.1, Function.update_of_ne hr.1, h.sys r hr]

/-- An abort leaves the stack pointer as it is. -/
theorem InFrame.redirect_pc {task : UserTask} (h : InFrame layout boot task memory cpu)
    (pc : Word) : InFrame layout boot { task with pc } memory (writeSys cpu .elrEl1 pc) := by
  have hsame : writeSys cpu .spEl0 task.sp = cpu := by
    have hcontext := h.context
    rw [frameContext, userContext, UserTask.context, UserContext.mk.injEq] at hcontext
    rw [writeSys, ← hcontext.2.1, Function.update_eq_self]
  have hredirect := h.redirect task.sp pc
  rwa [Live.redirect, hsame] at hredirect

/-- A call is accepted while the runtime waits for one. -/
theorem appCall_cases {runtime : Runtime} {phase : Phase} (h : Represents runtime phase)
    (byte : UInt8) :
    (phase = .idle ∧ ∃ runtime', Runtime.appCall byte runtime = some (.ok (), runtime') ∧
      Represents runtime' (.serving byte)) ∨
    (phase ≠ .idle ∧ ∃ error, Runtime.appCall byte runtime = some (.error error, runtime)) := by
  cases phase with
  | idle => exact .inl ⟨rfl, appCall_idle h byte⟩
  | serving => exact .inr ⟨Phase.noConfusion, _, appCall_wrongTask byte h.2.1⟩
  | closed => exact .inr ⟨Phase.noConfusion, _, appCall_closed h byte⟩

section Traps

variable (keeps : Keeps (boot.sys .ttbr0El1) period k a) (hconsole : k.console = a.console)
  (hlive : a.halted = false) (hframe : InFrame layout boot a.running memory cpu)
include keeps hconsole hlive hframe

theorem yieldCall_ends : ∃ d, yieldCall (boot.sp - 256) k cpu = some d ∧
    Ends layout boot period memory
      (a.print [.line .yielded, .line (.registerIntegrity a.registersIntact)]) d := by
  have h19 := hframe.frameWord_eq 19
  have h20 := hframe.frameWord_eq 20
  have h21 := hframe.frameWord_eq 21
  refine ⟨_, rfl, hlive, ?_, ⟨keeps.alarm, keeps.current, keeps.runnable, keeps.waiting,
    keeps.switches, keeps.runtime⟩, hframe⟩
  show k.console ++ [.line .yielded] ++ [_] = a.console ++ [_, _]
  rw [hconsole, List.append_assoc, Sandbox.registersIntact, ← h19, ← h20, ← h21,
    ← keeps.switches]
  rfl

theorem sendCall_ends : ∃ d, sendCall layout (boot.sp - 256) k cpu = some d ∧
    Ends layout boot period memory (a.send layout) d := by
  have hbyte : UInt8.ofBitVec ((frameWord cpu (boot.sp - 256) 0).setWidth 8) = a.argument := by
    have h0 : frameWord cpu (boot.sp - 256) 0 = a.running.x 0 := hframe.frameWord_eq 0
    rw [h0]
    rfl
  rcases appCall_cases keeps.runtime a.argument with
    ⟨hphase, runtime, hcall, hruntime⟩ | ⟨hphase, error, hcall⟩
  · have hsend : a.send layout = ({ a with phase := .serving a.argument }.continueAt
        (userStackBTop layout) (userSymbol layout .userBEntry)).print [.line .callReceived] := by
      rw [Sandbox.send, hphase]
    simp only [sendCall, hbyte, hcall, hsend]
    -- the addresses do not matter
    generalize userStackBTop layout = sp, userSymbol layout .userBEntry = pc
    exact ⟨_, rfl, hlive, congrArg (· ++ _) hconsole, ⟨keeps.alarm, keeps.current,
      keeps.runnable, keeps.waiting, keeps.switches, hruntime⟩, hframe.redirect _ _⟩
  · have hsend : a.send layout = a.print [.line .callDenied] := by
      unfold Sandbox.send
      split
      · exact absurd ‹_› hphase
      · rfl
      · rfl
    simp only [sendCall, hbyte, hcall, hsend]
    exact ⟨_, rfl, hlive, congrArg (· ++ _) hconsole, ⟨keeps.alarm, keeps.current,
      keeps.runnable, keeps.waiting, keeps.switches, keeps.runtime⟩, hframe⟩

theorem probeCall_ends : ∃ d, probeCall k cpu = some d ∧
    Ends layout boot period memory a.probe d := by
  rcases appCall_cases keeps.runtime 66 with
    ⟨hphase, runtime, hcall, hruntime⟩ | ⟨hphase, error, hcall⟩
  · have hprobe : a.probe =
        { a with phase := .serving 66 }.print [.line .revokedCallAuthorized] := by
      rw [Sandbox.probe, hphase]
    simp only [probeCall, hcall, hprobe]
    exact ⟨_, rfl, hlive, congrArg (· ++ _) hconsole, ⟨keeps.alarm, keeps.current,
      keeps.runnable, keeps.waiting, keeps.switches, hruntime⟩, hframe⟩
  · have hprobe : a.probe = a.print [.line .callDenied] := by
      unfold Sandbox.probe
      split
      · exact absurd ‹_› hphase
      · rfl
      · rfl
    simp only [probeCall, hcall, hprobe]
    exact ⟨_, rfl, hlive, congrArg (· ++ _) hconsole, ⟨keeps.alarm, keeps.current,
      keeps.runnable, keeps.waiting, keeps.switches, keeps.runtime⟩, hframe⟩

theorem replyCall_ends : ∃ d, replyCall layout k cpu = some d ∧
    Ends layout boot period memory (a.reply layout) d := by
  have hrefused : k.runtime.currentTask = APP_TASK →
      a.reply layout = a.print [.line .unauthorizedCaller] →
      ∃ d, replyCall layout k cpu = some d ∧
        Ends layout boot period memory (a.reply layout) d := by
    intro hcurrent hreply
    simp only [replyCall, consoleReplyAndRevoke_wrongTask hcurrent, hreply]
    exact ⟨_, rfl, hlive, congrArg (· ++ _) hconsole, ⟨keeps.alarm, keeps.current,
      keeps.runnable, keeps.waiting, keeps.switches, keeps.runtime⟩, hframe⟩
  have hruntime := keeps.runtime
  cases hphase : a.phase with
  | idle =>
      rw [hphase] at hruntime
      exact hrefused hruntime.2.1 (by rw [Sandbox.reply, hphase])
  | closed =>
      rw [hphase] at hruntime
      exact hrefused hruntime.2.1 (by rw [Sandbox.reply, hphase])
  | serving byte =>
      rw [hphase] at hruntime
      obtain ⟨runtime, hcall, hclosed⟩ := consoleReplyAndRevoke_serving hruntime
      have hreply : a.reply layout = ({ a with phase := .closed }.continueAt
          (userStackATop layout) (userSymbol layout .userAResumed)).print
          [.byte byte, .line .authorizedWrite, .line .replied, .line (.subtreeRevoked 2)] := by
        rw [Sandbox.reply, hphase]
      simp only [replyCall, hcall, hreply]
      generalize userStackATop layout = sp, userSymbol layout .userAResumed = pc
      refine ⟨_, rfl, hlive, ?_, ⟨keeps.alarm, keeps.current, keeps.runnable, keeps.waiting,
        keeps.switches, hclosed⟩, hframe.redirect _ _⟩
      show k.console ++ [_] ++ [_] ++ [_] ++ [_] = a.console ++ [_, _, _, _]
      rw [hconsole, List.append_assoc, List.append_assoc, List.append_assoc]
      rfl

/-- **A trap ends as the sandbox's does.** -/
theorem lowerSyncDispatch_ends (esr : Word) :
    ∃ d, lowerSyncDispatch layout esr (boot.sp - 256) k cpu = some d ∧
      Ends layout boot period memory (a.trap layout esr) d := by
  simp only [lowerSyncDispatch, Sandbox.trap, Trap.of]
  generalize userSymbol layout .userAfterFault = pc
  split_ifs with hsvc hyield hsend hreply hprobe hfinish habort
  · exact yieldCall_ends keeps hconsole hlive hframe
  · exact sendCall_ends keeps hconsole hlive hframe
  · exact replyCall_ends keeps hconsole hlive hframe
  · exact probeCall_ends keeps hconsole hlive hframe
  · refine ⟨_, rfl, rfl, ?_⟩
    show k.console ++ [_] ++ [_] = a.console ++ [_, _]
    rw [hconsole, List.append_assoc]
    rfl
  · exact ⟨_, rfl, hlive, hconsole, keeps, hframe⟩
  · exact ⟨_, rfl, hlive, congrArg (· ++ _) hconsole, ⟨keeps.alarm, keeps.current,
      keeps.runnable, keeps.waiting, keeps.switches, keeps.runtime⟩, hframe.redirect_pc _⟩
  · exact ⟨_, rfl, rfl, congrArg (· ++ _) hconsole⟩

end Traps

/-! ## Interrupts -/

/-- With both tasks runnable, the other one is next. -/
theorem selectNext_other (context : UserContext) {s : Scheduler 2} {p : Fin 2}
    (hcurrent : s.current = some p.val) (hrun : ∀ t, (s.taskAt t).state = .runnable) :
    ∃ s', selectNext context s =
        some (some (p.val, (p + 1).val, (s.taskAt (p + 1)).context), s') ∧
      s'.current = some (p + 1).val ∧ (∀ t, (s'.taskAt t).state = .runnable) ∧
      (s'.taskAt p).context = context := by
  have hused : (s.taskAt p).state ≠ .unused := by
    rw [hrun p]
    decide
  have valid : s.Valid := by
    intro current h
    rw [hcurrent] at h
    cases h
    exact p.isLt
  obtain ⟨next, s', hselect, hnext, -, hstate, hsaved, hother⟩ :=
    selectNext_of_runnable context valid hcurrent hused ⟨p, hrun p⟩
  obtain ⟨switch, s₁, htrans, hselect'⟩ := selectNext_eq context valid hcurrent hused
  -- the search begins with the other task, and it is runnable
  have hnext' : next = p + 1 := by
    rw [hselect, Option.some.injEq, Prod.mk.injEq] at hselect'
    obtain ⟨hswitch, rfl⟩ := hselect'
    cases htrans with
    | idle => cases hswitch
    | @switched _ found hfind tasks current =>
        have hfound : found = next := by
          rw [current, Option.some.injEq] at hnext
          exact Fin.ext hnext
        subst hfound
        have hstart : (s.setTask p { s.taskAt p with context }).start = (p + 1).val := by
          rw [Scheduler.start, Scheduler.current_setTask, hcurrent]
          exact (Fin.val_add p 1).symm
        rw [hstart] at hfind
        have hready : (s.setTask p { s.taskAt p with context }).isRunnable (p + 1).val = true := by
          rw [Scheduler.isRunnable_coe, Scheduler.taskAt_setTask]
          rcases eq_or_ne (p + 1) p with heq | hne
          · rw [heq, Function.update_self]
            exact hrun p
          · rw [Function.update_of_ne hne, hrun]
        have hfirst := (cyclicFind_eq_some (fun _ => (p + 1).isLt) hfind).2.2 _ (p + 1).isLt hready
        have hlt := found.isLt
        have hlt' := (p + 1).isLt
        unfold ahead at hfirst
        apply Fin.ext
        split_ifs at hfirst <;> omega
  have hne : p + 1 ≠ p := (by decide : ∀ q : Fin 2, q + 1 ≠ q) p
  subst hnext'
  refine ⟨s', ?_, hnext, fun t => (hstate t).trans (hrun t), hsaved⟩
  rw [hselect, hother _ hne]

/-- The other task's context goes into the frame. -/
theorem InFrame.loadContext {task : UserTask} (h : InFrame layout boot task memory cpu)
    (placement : Placement layout boot.sp) (next : UserTask) :
    InFrame layout boot next memory
      (loadContext cpu (boot.sp - 256) (next.context (boot.sys .ttbr0El1))) where
  sp := h.sp
  context := frameContext_loadContext ..
  sys r hr := by
    have hother := h.sys r hr
    cases r with
    | spEl0 => exact absurd rfl hr.1
    | elrEl1 => exact absurd rfl hr.2.1
    | spsrEl1 => exact absurd rfl hr.2.2
    | ttbr0El1 => rfl
    | mairEl1 => exact hother
    | tcrEl1 => exact hother
    | sctlrEl1 => exact hother
  guarded b hb := (placement.writeFrame_eq _ hb).trans (h.guarded b hb)

/-- **An interrupt ends as the sandbox's does.** -/
theorem lowerIrqDispatch_ends (placement : Placement layout boot.sp)
    (keeps : Keeps (boot.sys .ttbr0El1) period k a) (hconsole : k.console = a.console)
    (hlive : a.halted = false) (hframe : InFrame layout boot a.running memory cpu)
    (hdue : a.alarm.due = true) (spent : ℕ) :
    ∃ d, lowerIrqDispatch spent (boot.sp - 256) k cpu = some d ∧
      Ends layout boot period memory (a.preempt period spent) d := by
  obtain ⟨htimer, halarm⟩ := keeps.alarm.acknowledge
  obtain ⟨scheduler, hselect, hcurrent, hrunnable, hsaved⟩ :=
    selectNext_other (frameContext cpu (boot.sp - 256)) keeps.current keeps.runnable
  have htimer' : k.interrupts.acknowledge.1 = .timer (BitVec.ofNat 64 (a.alarm.ticks + 1)) := by
    rw [htimer, Alarm.acknowledge, if_pos hdue]
  have hback : a.current + 1 + 1 = a.current :=
    (by decide : ∀ q : Fin 2, q + 1 + 1 = q) a.current
  have hnext : InFrame layout boot a.waiting memory (loadContext cpu (boot.sp - 256)
      (k.scheduler.taskAt (a.current + 1)).context) := by
    rw [keeps.waiting]
    exact hframe.loadContext placement a.waiting
  have hwaiting : (scheduler.taskAt (a.current + 1 + 1)).context =
      a.running.context (boot.sys .ttbr0El1) := by
    rw [hback, hsaved, hframe.context]
  simp only [lowerIrqDispatch, htimer', scheduleLowerFrame, hselect, Sandbox.preempt]
  rcases (by decide : ∀ q : Fin 2, q = 0 ∨ q = 1) a.current with h | h
  · have hpair : some (a.current.val, (a.current + 1).val) =
        some (PREEMPT_TASK_A, PREEMPT_TASK_B) := by
      rw [h]
      rfl
    have hB : a.current + 1 = 1 := by
      rw [h]
      rfl
    rw [if_pos hpair, if_pos hB]
    exact ⟨_, rfl, hlive, congrArg (· ++ _) hconsole, ⟨halarm.elapse spent, hcurrent, hrunnable,
      hwaiting, congrArg (· + 1) keeps.switches, keeps.runtime⟩, hnext⟩
  · have hpair : some (a.current.val, (a.current + 1).val) =
        some (PREEMPT_TASK_B, PREEMPT_TASK_A) := by
      rw [h]
      rfl
    have hA : ¬a.current + 1 = 1 := by
      rw [h]
      decide
    rw [hpair, if_neg (by decide), if_pos rfl, if_neg hA]
    exact ⟨_, rfl, hlive, congrArg (· ++ _) hconsole, ⟨(halarm.elapse spent).stopTimer, hcurrent,
      hrunnable, hwaiting, congrArg (· + 1) keeps.switches, keeps.runtime⟩, hnext⟩

/-! ## The simulation -/

end Dispatch

section Simulation

variable {boot : State} {period : ℕ} {core : Core} {a : Sandbox}

/-- User code runs, and changes its registers and its stacks. -/
theorem Hosts.userRan (h : Hosts layout boot period core a) (prepared : Prepared layout boot)
    (hlive : a.halted = false) (user : UserRun) :
    Hosts layout boot period (core.userRan user) (a.userRan layout user) := by
  have hruns := h.runs hlive
  have hkeeps := h.keeps hlive
  have httbr : core.cpu.sys .ttbr0El1 = layout.bootL1Table :=
    (hruns.sys .ttbr0El1 fixed_ttbr0El1).trans prepared.ttbr
  have htables : BuiltTables layout core.cpu.memory :=
    prepared.placement.builtTables prepared.tables fun b hb hout => by
      rw [h.guarded b hb, if_neg hout]
  have hstack : ∀ b, InStack layout b → core.cpu.memory b = a.memory b := by
    intro b hb
    have hguarded : Guarded layout b := by
      rcases hb with hb | hb
      · exact .inr (.inl hb)
      · exact .inr (.inr (.inl hb))
    rw [h.guarded b hguarded, if_pos hb]
  refine ⟨h.console, h.halted, fun b hb => ?_, fun _ => ?_, fun _ => ?_⟩
  · show storeAll (core.cpu.sys .ttbr0El1) core.cpu.memory user.stores b = _
    rw [httbr, prepared.placement.storeAll_eq htables]
    split_ifs with hin
    · exact storeStacks_congr hstack user.stores hin
    · rw [storeStacks_of_not hin, h.guarded b hb, if_neg hin]
  · refine ⟨hruns.mode, hruns.daif, rfl, ?_, rfl, rfl, hruns.sp, fun r hr => ?_⟩
    · exact Function.update_self SysReg.spEl0 user.sp core.cpu.sys
    · exact (Function.update_of_ne hr.1 user.sp core.cpu.sys).trans (hruns.sys r hr)
  · exact ⟨hkeeps.alarm, hkeeps.current, hkeeps.runnable, hkeeps.waiting, hkeeps.switches,
      hkeeps.runtime⟩

/-- Time passes. -/
theorem Hosts.elapse (h : Hosts layout boot period core a) (duration : ℕ) :
    Hosts layout boot period
      { core with kernel := { core.kernel with
          interrupts := core.kernel.interrupts.elapse duration } }
      { a with alarm := a.alarm.elapse duration } := by
  refine ⟨h.console, h.halted, h.guarded, fun hlive => ?_, fun hlive => ?_⟩
  · have hruns := h.runs hlive
    exact ⟨hruns.mode, hruns.daif, hruns.x, hruns.spEl0, hruns.pc, hruns.flags,
      hruns.sp, hruns.sys⟩
  · have hkeeps := h.keeps hlive
    exact ⟨hkeeps.alarm.elapse duration, hkeeps.current, hkeeps.runnable, hkeeps.waiting,
      hkeeps.switches, hkeeps.runtime⟩

/-- The vector that an exception from EL0 is taken to. -/
theorem exception_eq (hmode : core.mode = EL0t) (esr : Word) (spent : ℕ) (scratch : Scratch) :
    core.exception layout .sync esr spent scratch =
        core.enter.vectorSyncLowerA64 layout esr scratch ∧
      core.exception layout .irq esr spent scratch =
        core.enter.vectorIrqLowerA64 layout spent scratch ∧
      core.exception layout .serror esr spent scratch = core.enter.report 11 esr := by
  have hsync : exceptionVectors[vectorOffset EL0t .sync / 128]? = some .syncLowerA64 := rfl
  have hirq : exceptionVectors[vectorOffset EL0t .irq / 128]? = some .irqLowerA64 := rfl
  have hserror : exceptionVectors[vectorOffset EL0t .serror / 128]? = some (.report 11) := rfl
  simp only [Core.exception, hmode, hsync, hirq, hserror, and_self]

/-- **One operation**: the kernel does what the sandbox does. -/
theorem Hosts.step (h : Hosts layout boot period core a) (prepared : Prepared layout boot)
    (op : LiveOp) :
    ∃ core', core.step layout op = some ((a.step layout period op).1, core') ∧
      Hosts layout boot period core' (a.step layout period op).2 := by
  cases hhalted : a.halted with
  | true =>
      refine ⟨core, ?_, ?_⟩
      · rw [Core.step.eq_def, if_pos (h.halted.trans hhalted), a.step_halted hhalted]
      · rw [a.step_halted hhalted]
        exact h
  | false =>
      have hlive : ¬core.halted = true := Bool.eq_false_iff.mp (h.halted.trans hhalted)
      have hmode : ¬core.mode ≠ EL0t := not_not_intro (h.runs hhalted).mode
      have hlive' : ¬a.halted = true := Bool.eq_false_iff.mp hhalted
      have hkeeps := (h.keeps hhalted).setDaif 0xf
      rw [Core.step.eq_def, if_neg hlive, if_neg hmode, Sandbox.step.eq_def, if_neg hlive']
      cases op with
      | run user => exact ⟨_, rfl, h.userRan prepared hhalted user⟩
      | sync esr scratch =>
          obtain ⟨core', hvector, hhosts⟩ := h.vectorLower hhalted prepared.placement scratch
            (a.trap_sameTurn layout esr).memory fun entered hentered =>
              lowerSyncDispatch_ends hkeeps h.console hhalted hentered esr
          refine ⟨core', ?_, hhosts⟩
          show (core.exception layout .sync esr 0 scratch).map _ = _
          rw [(exception_eq (h.runs hhalted).mode esr 0 scratch).1, Core.vectorSyncLowerA64,
            hvector]
          rfl
      | elapse duration spent scratch =>
          have helapsed := h.elapse duration
          have hkept := (helapsed.keeps hhalted).setDaif 0xf
          have hruns := helapsed.runs hhalted
          have hsignalled : (core.kernel.interrupts.elapse duration).signalled.isSome =
              (a.alarm.elapse duration).due := by
            rw [(helapsed.keeps hhalted).alarm.signalled_eq]
            cases (a.alarm.elapse duration).due <;> rfl
          have hunmasked : (core.kernel.interrupts.elapse duration).daif.getLsbD 1 = false := by
            rw [hruns.daif]
            rfl
          simp only [hsignalled, Core.irqMasked, hunmasked, Bool.not_false, Bool.and_true]
          cases hdue : (a.alarm.elapse duration).due with
          | false => exact ⟨_, rfl, helapsed⟩
          | true =>
              obtain ⟨core', hvector, hhosts⟩ := helapsed.vectorLower hhalted prepared.placement
                scratch (Sandbox.preempt_memory _ period spent) fun entered hentered =>
                  lowerIrqDispatch_ends prepared.placement hkept helapsed.console hhalted
                    hentered hdue spent
              refine ⟨core', ?_, hhosts⟩
              rw [if_pos rfl, (exception_eq hruns.mode 0 spent scratch).2.1]
              exact congrArg (Option.map fun core => (LiveResult.interrupted, core)) hvector
      | serror esr scratch =>
          refine ⟨{ core.enter with
            kernel := core.enter.kernel.println (.fault 11 esr core.pc), halted := true }, ?_, ?_⟩
          · show (core.exception layout .serror esr 0 scratch).map _ = _
            rw [(exception_eq (h.runs hhalted).mode esr 0 scratch).2.2]
            rfl
          · refine ⟨?_, rfl, h.guarded, Bool.noConfusion, Bool.noConfusion⟩
            show core.kernel.console ++ [_] = a.console ++ [_]
            rw [h.console, (h.runs hhalted).pc]

/-- **The kernel simulates the sandbox**, for user code of any kind. -/
theorem live_simulation (prepared : Prepared layout boot)
    (start : Hosts layout boot period core a) :
    Machine.Simulation (liveMachine layout core) (sandboxMachine layout period a)
      (Hosts layout boot period) where
  init := start
  step op h := by
    obtain ⟨core', hstep, h'⟩ := h.step prepared op
    exact ⟨_, core', _, hstep, rfl, h'⟩

end Simulation

end Aegis.Live
