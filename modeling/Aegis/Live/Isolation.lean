import Mathlib
import Aegis.Foundation.History
import Aegis.Irq.Protocol
import Aegis.Live.Refinement

/-!
# User code stays in its sandbox

The end of `kernel_main` sets up two tasks and starts the first one.  From then on, whatever
user code does, the kernel never panics; it comes back to EL0 with interrupts enabled, on the
same tables and with the same kernel stack, or has halted with a line on the console; and
guarded memory outside the two user stacks keeps what the boot code left there.
-/

namespace Aegis.Live

open Foundation A64 Sched Preempt Boot Irq

variable {layout : Layout}

/-! ## The start -/

/-- The sandbox that user code starts in: the registers of the first task are those that
`kernel_main` leaves, except for `x0`. -/
def initialSandbox (layout : Layout) (core : Core) : Sandbox where
  running := ⟨Function.update core.cpu.x 0 0, userStackATop layout, userSymbol layout .userEntry,
    .clear⟩
  waiting := ⟨fun _ => 0, userStackBTop layout, userSymbol layout .preemptBEntry, .clear⟩
  current := 0
  memory := core.cpu.memory
  alarm := {
    now := core.kernel.interrupts.board.timer.counter
    deadline := some (core.kernel.interrupts.board.timer.counter +
      periodOf core.kernel.interrupts 20)
    due := false
    ticks := 0 }
  switches := 0
  phase := .idle
  console := core.kernel.console ++ [.line .enteringSandbox]
  halted := false

/-- Both tasks are there, and the first one is current. -/
theorem initializeLiveScheduler_eq (layout : Layout) (ttbr : Word) :
    initializeLiveScheduler layout ttbr = some {
      tasks := #v[
        ⟨.runnable, initialContext (userStackATop layout) (userSymbol layout .userEntry) ttbr, 0⟩,
        ⟨.runnable, initialContext (userStackBTop layout) (userSymbol layout .preemptBEntry) ttbr,
          0⟩]
      current := some 0 } := by
  unfold initializeLiveScheduler
  generalize initialContext (userStackATop layout) (userSymbol layout .userEntry) ttbr = contextA
  generalize initialContext (userStackBTop layout) (userSymbol layout .preemptBEntry) ttbr =
    contextB
  rfl

theorem launchUserDemo_eq (layout : Layout) (cpu : State) :
    execBlock (launchUserDemo layout) cpu = some { cpu.set 0 0 with
      sys := Function.update (Function.update (Function.update cpu.sys .spEl0
        (userStackATop layout)) .elrEl1 (userSymbol layout .userEntry)) .spsrEl1 0 } := by
  unfold launchUserDemo
  generalize userStackATop layout = sp, userSymbol layout .userEntry = pc
  simp [execBlock, Instr.exec, State.set]

/-- Clear flags, no masks, EL0. -/
theorem spsr_cleared : spsr .clear 0 EL0t = 0 := by decide

/-- The context of a task that has not run yet. -/
theorem initialContext_eq (sp pc ttbr : Word) :
    initialContext sp pc ttbr = UserTask.context ⟨fun _ => 0, sp, pc, .clear⟩ ttbr := by
  rw [initialContext, UserTask.context, spsr_cleared, UserContext.mk.injEq]
  refine ⟨?_, rfl, rfl, rfl, rfl⟩
  apply Vector.ext
  intro i hi
  rw [Vector.getElem_replicate, Vector.getElem_ofFn]

/-- What the end of `kernel_main` needs. -/
structure Ready (layout : Layout) (core : Core) : Prop where
  prepared : Prepared layout core.cpu
  inactive : Inactive core.kernel.interrupts
  running : core.halted = false

/-- **User code starts in the sandbox.** -/
theorem enterSandbox_hosts {core : Core} (ready : Ready layout core) :
    ∃ start, (∀ fuel, enterSandbox layout (fuel + 1) core = some start) ∧
      Hosts layout core.cpu (periodOf core.kernel.interrupts 20) start
        (initialSandbox layout core) := by
  have hhz : (20 : BitVec 64) ≠ 0 := by decide
  obtain ⟨interrupts, hinit, -, halarm⟩ := init_implements ready.inactive hhz
  let k : Statics := {
    interrupts
    scheduler := {
      tasks := #v[
        ⟨.runnable, initialContext (userStackATop layout) (userSymbol layout .userEntry)
          (core.cpu.sys .ttbr0El1), 0⟩,
        ⟨.runnable, initialContext (userStackBTop layout) (userSymbol layout .preemptBEntry)
          (core.cpu.sys .ttbr0El1), 0⟩]
      current := some 0 }
    switches := 0
    runtime := { Runtime.empty with capabilities := granted }
    console := core.kernel.console ++ [.line .enteringSandbox] }
  let cpu : State := { core.cpu.set 0 0 with
    sys := Function.update (Function.update (Function.update core.cpu.sys .spEl0
      (userStackATop layout)) .elrEl1 (userSymbol layout .userEntry)) .spsrEl1 0 }
  have hcontext : userContext cpu =
      (initialSandbox layout core).running.context (core.cpu.sys .ttbr0El1) := by
    rw [userContext, UserTask.context, UserContext.mk.injEq]
    exact ⟨rfl, rfl, rfl, spsr_cleared.symm, rfl⟩
  have hruns : Runs core.cpu (initialSandbox layout core).running
      ({ core with cpu, kernel := k } : Core).eret := by
    refine eret_runs hcontext rfl fun r hr => ?_
    show Function.update (Function.update (Function.update core.cpu.sys .spEl0 _) .elrEl1 _)
      .spsrEl1 _ r = _
    rw [Function.update_of_ne hr.2.2, Function.update_of_ne hr.2.1, Function.update_of_ne hr.1]
  have hkeeps : Keeps (core.cpu.sys .ttbr0El1) (periodOf core.kernel.interrupts 20) k
      (initialSandbox layout core) := by
    refine ⟨halarm, rfl, fun t => ?_, ?_, rfl, rfl, rfl, Ipc.refines_new⟩
    · rcases (by decide : ∀ q : Fin 2, q = 0 ∨ q = 1) t with rfl | rfl
      · rfl
      · rfl
    · exact initialContext_eq _ _ _
  refine ⟨({ core with cpu, kernel := k } : Core).eret, fun fuel => ?_, rfl, ready.running,
    fun b _ => ?_, fun _ => hruns, fun _ => hkeeps.setDaif _⟩
  · rw [enterSandbox, initializeRuntime_eq, initializeLiveScheduler_eq]
    simp only [hinit, launchUserDemo_eq]
    rfl
  · exact (ite_self _).symm

/-! ## Confinement -/

/-- What every event of a run leaves, for the CPU that `kernel_main` left as `boot`. -/
structure Confined (layout : Layout) (boot : State) (ev : LiveEvent) : Prop where
  /-- user code runs at EL0 again, with interrupts enabled and the kernel's registers as they
  were, or the kernel has halted -/
  returned : ev.after.halted = true ∨
    (ev.after.mode = EL0t ∧ ev.after.kernel.interrupts.daif = 0 ∧ ev.after.cpu.sp = boot.sp ∧
      ∀ r, Fixed r → ev.after.cpu.sys r = boot.sys r)
  /-- the tables are those of the boot code -/
  tables : BuiltTables layout ev.after.cpu.memory
  /-- the user text and the tables have not changed -/
  guarded : ∀ address, Guarded layout address → ¬InStack layout address →
    ev.after.cpu.memory address = boot.memory address
  /-- user code changes its stacks only -/
  user : ∀ user, ev.op = .run user → ∀ address, ¬InStack layout address →
    ev.after.cpu.memory address = ev.before.cpu.memory address
  /-- the kernel does not change the stacks -/
  kernel : (∀ user, ev.op ≠ .run user) → ∀ address, InStack layout address →
    ev.after.cpu.memory address = ev.before.cpu.memory address

section Confinement

variable {boot : State} {period : ℕ} {core : Core} {a : Sandbox}

theorem Hosts.memory_stack (h : Hosts layout boot period core a) {address : Word}
    (hin : InStack layout address) : core.cpu.memory address = a.memory address := by
  have hguarded : Guarded layout address := by
    rcases hin with hin | hin
    · exact .inr (.inl hin)
    · exact .inr (.inr (.inl hin))
  rw [h.guarded address hguarded, if_pos hin]

theorem Hosts.builtTables (h : Hosts layout boot period core a)
    (prepared : Prepared layout boot) : BuiltTables layout core.cpu.memory :=
  prepared.placement.builtTables prepared.tables fun b hb hout => by
    rw [h.guarded b hb, if_neg hout]

/-- Only user code changes what is in the stacks. -/
theorem Sandbox.step_memory (a : Sandbox) {op : LiveOp} (hop : ∀ user, op ≠ .run user) :
    (a.step layout period op).2.memory = a.memory := by
  unfold Sandbox.step
  split_ifs
  · rfl
  · cases op with
    | run user => exact absurd rfl (hop user)
    | sync esr scratch => exact (a.trap_sameTurn layout esr).memory
    | elapse duration spent scratch =>
        simp only
        split_ifs
        · exact Sandbox.preempt_memory _ period spent
        · rfl
    | serror esr scratch => rfl

/-- What user code leaves outside the stacks. -/
theorem Hosts.run_memory (h : Hosts layout boot period core a) (prepared : Prepared layout boot)
    {user : UserRun} {r : LiveResult} {core' : Core}
    (hstep : core.step layout (.run user) = some (r, core')) {address : Word}
    (hout : ¬InStack layout address) : core'.cpu.memory address = core.cpu.memory address := by
  cases hhalted : a.halted with
  | true =>
      rw [Core.step.eq_def, if_pos (h.halted.trans hhalted)] at hstep
      cases hstep
      rfl
  | false =>
      have hlive : ¬core.halted = true := Bool.eq_false_iff.mp (h.halted.trans hhalted)
      have hruns := h.runs hhalted
      rw [Core.step.eq_def, if_neg hlive, if_neg (not_not_intro hruns.mode)] at hstep
      cases hstep
      show storeAll (core.cpu.sys .ttbr0El1) core.cpu.memory user.stores address = _
      rw [hruns.sys .ttbr0El1 fixed_ttbr0El1, prepared.ttbr,
        prepared.placement.storeAll_eq (h.builtTables prepared), storeStacks_of_not hout]

theorem Hosts.step_confined (h : Hosts layout boot period core a)
    (prepared : Prepared layout boot) (op : LiveOp) :
    ∃ r core' a', core.step layout op = some (r, core') ∧ Hosts layout boot period core' a' ∧
      Confined layout boot ⟨core, op, r, core'⟩ := by
  obtain ⟨core', hstep, h'⟩ := h.step prepared op
  refine ⟨_, core', _, hstep, h', ?_, h'.builtTables prepared, fun b hb hout => ?_, ?_, ?_⟩
  · cases hhalted : (a.step layout period op).2.halted with
    | true => exact .inl (h'.halted.trans hhalted)
    | false =>
        have hruns := h'.runs hhalted
        exact .inr ⟨hruns.mode, hruns.daif, hruns.sp, hruns.sys⟩
  · show core'.cpu.memory b = _
    rw [h'.guarded b hb, if_neg hout]
  · rintro user rfl b hout
    exact h.run_memory prepared hstep hout
  · intro hop b hin
    show core'.cpu.memory b = core.cpu.memory b
    rw [h'.memory_stack hin, h.memory_stack hin, a.step_memory hop]

end Confinement

/-- **User code of any kind stays in its sandbox.**  When the kernel is ready, user code
starts; and whatever it leaves in its registers, wherever it tries to store, with whatever
syndromes it traps and whenever time passes, every exception is dealt with: nothing panics,
and each event leaves the system confined.

Of compiled kernel code it is assumed that it does not write to the guarded pages (`confine`);
that the vectors, the dispatchers and user code do not is what is shown. -/
theorem user_code_confined {core : Core} (ready : Ready layout core) :
    ∃ start, (∀ fuel, enterSandbox layout (fuel + 1) core = some start) ∧
      ∀ ops, ∃ es final, (liveMachine layout start).exec start ops = some (es, final) ∧
        ∀ ev ∈ es, Confined layout core.cpu ev := by
  obtain ⟨start, hstart, hosts⟩ := enterSandbox_hosts ready
  refine ⟨start, hstart, fun ops => ?_⟩
  obtain ⟨es, final, hexec, -, hconfined⟩ := Machine.exec_of_invariant
    (M := liveMachine layout start)
    (fun es core' => (∃ a, Hosts layout core.cpu (periodOf core.kernel.interrupts 20) core' a) ∧
      ∀ ev ∈ es, Confined layout core.cpu ev)
    ⟨⟨_, hosts⟩, List.forall_mem_nil _⟩ (by
      rintro es core' op ⟨⟨a, h⟩, hes⟩
      obtain ⟨r, core'', a', hstep, h', hconfined⟩ := h.step_confined ready.prepared op
      refine ⟨r, core'', hstep, ⟨a', h'⟩, ?_⟩
      rw [List.forall_mem_append]
      exact ⟨hes, List.forall_mem_singleton.mpr hconfined⟩) ops
  exact ⟨es, final, hexec, hconfined⟩

/-- Memory after the boot code has run in the sample layout. -/
def sampleMemory : Word → Word := bootMemory sampleLayout resetState.memory

theorem sampleMemory_tables : BuiltTables sampleLayout sampleMemory := by
  unfold sampleMemory
  exact builtTables sampleLayout resetState.memory

theorem sampleLayout_placement : Placement sampleLayout 0x4008e000 :=
  ⟨by decide, by decide, by decide, by decide, by decide, by decide, by decide, by decide⟩

/-- A machine with an empty kernel stack. -/
def sampleCore (memory : Word → Word) : Core where
  cpu := {
    x := fun _ => 0
    sp := 0x4008e000
    sys := fun r => if r = .ttbr0El1 then 0x4008e000 else 0
    memory
    flags := .clear }
  pc := 0x40080000
  mode := EL1h
  kernel := {
    interrupts := resetInterrupts
    scheduler := Scheduler.new
    switches := 0
    runtime := Runtime.empty
    console := [] }
  halted := false

theorem sampleCore_ready {memory : Word → Word} (h : BuiltTables sampleLayout memory) :
    Ready sampleLayout (sampleCore memory) :=
  ⟨⟨sampleLayout_placement, h, rfl⟩, fun _ => rfl, rfl⟩

theorem user_code_confined_sample :
    ∃ start,
      (∀ fuel, enterSandbox sampleLayout (fuel + 1) (sampleCore sampleMemory) = some start) ∧
      ∀ ops, ∃ es final, (liveMachine sampleLayout start).exec start ops = some (es, final) ∧
        ∀ ev ∈ es, Confined sampleLayout (sampleCore sampleMemory).cpu ev :=
  user_code_confined (sampleCore_ready sampleMemory_tables)

end Aegis.Live
