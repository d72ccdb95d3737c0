import Mathlib
import Aegis.Live.Turns

/-!
# What the kernel answers

Every trap of user code is answered according to the protocol of the runtime, and the state
of that protocol follows from the traps before it: the first `svc #10` or `svc #12` makes a
call, the first `svc #11` after it ends the protocol.  It does not matter which task makes
them: the runtime and the scheduler do not know of each other's tasks.

A trap prints what the protocol says, and the running task continues where it was, with all
its registers, or in one of three places of the user text.
-/

namespace Aegis.Live

open Foundation A64 Boot Irq

variable {layout : Layout}

/-! ## The answers -/

/-- The low byte of `x0`. -/
def argumentOf (task : UserTask) : UInt8 := .ofBitVec ((task.x 0).setWidth 8)

/-- The system call of the runtime that a trap makes. -/
def Trap.runtimeOp (task : UserTask) : Trap → Option RuntimeOp
  | .send => some (.appCall (argumentOf task))
  | .reply => some .consoleReplyAndRevoke
  | .probe => some (.appCall 66)
  | .yield | .finish | .ignored | .dataAbort | .unexpected => none

/-- The system call of the runtime that an event makes. -/
def runtimeOp (ev : LiveEvent) : Option RuntimeOp :=
  match ev.op, ev.result with
  | .sync esr _, .trapped => (Trap.of esr).runtimeOp (taskOf ev.before)
  | _, _ => none

/-- Where the protocol of the runtime stands after some events. -/
def phaseOf (es : List LiveEvent) : Phase := phaseAfter (es.filterMap runtimeOp)

/-- What a trap prints, and the task that continues, if the kernel does not halt. -/
def answer (layout : Layout) (phase : Phase) (switches : BitVec 64) (task : UserTask)
    (esr : Word) : List Output × Option UserTask :=
  match Trap.of esr with
  | .yield =>
      let intact := (task.x 19 = 0x19 ∧ task.x 20 = 0x20 ∧ task.x 21 = 0x21) ∧ switches = 2
      ([.line .yielded, .line (.registerIntegrity intact)], some task)
  | .send =>
      match phase.answer (.appCall (argumentOf task)) with
      | .called (.ok ()) => ([.line .callReceived], some { task with
          sp := userStackBTop layout
          pc := userSymbol layout .userBEntry })
      | _ => ([.line .callDenied], some task)
  | .reply =>
      match phase.answer .consoleReplyAndRevoke with
      | .replied (.ok (byte, revoked)) =>
          ([.byte byte, .line .authorizedWrite, .line .replied, .line (.subtreeRevoked revoked)],
            some { task with
              sp := userStackATop layout
              pc := userSymbol layout .userAResumed })
      | _ => ([.line .unauthorizedCaller], some task)
  | .probe =>
      match phase.answer (.appCall 66) with
      | .called (.ok ()) => ([.line .revokedCallAuthorized], some task)
      | _ => ([.line .callDenied], some task)
  | .finish => ([.line .recovered, .line .complete], none)
  | .ignored => ([], some task)
  | .dataAbort => ([.line .uartDenied], some { task with pc := userSymbol layout .userAfterFault })
  | .unexpected => ([.line (.fault 8 esr 0)], none)

/-- An event whose trap is answered as the events before it say; user code prints nothing
by itself. -/
structure Answered (layout : Layout) (past : List LiveEvent) (ev : LiveEvent) : Prop where
  trapped : ∀ esr scratch, ev.op = .sync esr scratch → ev.result = .trapped →
    ∀ reply, reply = answer layout (phaseOf past) ev.before.kernel.switches (taskOf ev.before) esr →
      ev.after.kernel.console = ev.before.kernel.console ++ reply.1 ∧
        ev.after.halted = reply.2.isNone ∧ ∀ task ∈ reply.2, taskOf ev.after = task
  silent : ev.result = .ran ∨ ev.result = .elapsed ∨ ev.result = .halted →
    ev.after.kernel.console = ev.before.kernel.console

/-! ## Traps of the sandbox -/

section Trap

variable (layout : Layout) (a : Sandbox) (esr : Word)

/-- The console, and the task that continues. -/
structure Answers (a a' : Sandbox) (reply : List Output × Option UserTask) :
    Prop where
  console : a'.console = a.console ++ reply.1
  halted : a.halted = false → a'.halted = reply.2.isNone
  task : ∀ task ∈ reply.2, a'.running = task

theorem Sandbox.trap_answers :
    Answers a (a.trap layout esr) (answer layout a.phase a.switches a.running esr) := by
  simp only [Sandbox.trap, Sandbox.send, Sandbox.reply, Sandbox.probe, answer]
  -- the addresses do not matter
  generalize userStackATop layout = spA, userStackBTop layout = spB,
    userSymbol layout .userBEntry = entryB, userSymbol layout .userAResumed = resumedA,
    userSymbol layout .userAfterFault = afterFault
  -- the protocol refuses a call
  have refused : ∀ line, Answers a (a.print [.line line]) ([.line line], some a.running) :=
    fun line => ⟨rfl, id, fun task htask => Option.some.inj htask⟩
  have halts : ∀ task ∈ (none : Option UserTask), a.running = task := by
    intro task htask
    cases htask
  cases Trap.of esr with
  | yield => exact ⟨rfl, id, fun task htask => Option.some.inj htask⟩
  | send =>
      cases a.phase with
      | idle => exact ⟨rfl, id, fun task htask => Option.some.inj htask⟩
      | serving => exact refused .callDenied
      | closed => exact refused .callDenied
  | reply =>
      cases a.phase with
      | serving => exact ⟨rfl, id, fun task htask => Option.some.inj htask⟩
      | idle => exact refused .unauthorizedCaller
      | closed => exact refused .unauthorizedCaller
  | probe =>
      cases a.phase with
      | idle => exact ⟨rfl, id, fun task htask => Option.some.inj htask⟩
      | serving => exact refused .callDenied
      | closed => exact refused .callDenied
  | finish => exact ⟨rfl, fun _ => rfl, halts⟩
  | ignored => exact ⟨(List.append_nil _).symm, id, fun task htask => Option.some.inj htask⟩
  | dataAbort => exact ⟨rfl, id, fun task htask => Option.some.inj htask⟩
  | unexpected => exact ⟨rfl, fun _ => rfl, halts⟩

theorem Sandbox.trap_phase :
    (a.trap layout esr).phase =
      ((Trap.of esr).runtimeOp a.running).elim a.phase a.phase.next := by
  simp only [Sandbox.trap, Sandbox.send, Sandbox.reply, Sandbox.probe]
  generalize userStackATop layout = spA, userStackBTop layout = spB,
    userSymbol layout .userBEntry = entryB, userSymbol layout .userAResumed = resumedA,
    userSymbol layout .userAfterFault = afterFault
  cases Trap.of esr with
  | send =>
      cases hphase : a.phase with
      | idle => rfl
      | serving => exact hphase
      | closed => exact hphase
  | reply =>
      cases hphase : a.phase with
      | serving => rfl
      | idle => exact hphase
      | closed => exact hphase
  | probe =>
      cases hphase : a.phase with
      | idle => rfl
      | serving => exact hphase
      | closed => exact hphase
  | yield | finish | ignored | dataAbort | unexpected => rfl

end Trap

/-! ## Whole runs -/

section Runs

variable {boot : State} {period : ℕ} {core core' : Core} {a : Sandbox} {past : List LiveEvent}

theorem phaseOf_snoc (es : List LiveEvent) (ev : LiveEvent) :
    phaseOf (es ++ [ev]) = (runtimeOp ev).elim (phaseOf es) (phaseOf es).next := by
  rw [phaseOf, List.filterMap_append]
  cases hop : runtimeOp ev with
  | none =>
      rw [List.filterMap_cons_none hop, List.filterMap_nil, List.append_nil]
      rfl
  | some op =>
      rw [List.filterMap_cons_some hop, List.filterMap_nil, phaseAfter_snoc]
      rfl

/-- An event without a trap leaves the protocol where it is. -/
theorem phaseOf_silent {op : LiveOp} {r : LiveResult} (h : ∀ esr scratch, op = .sync esr scratch →
    r ≠ .trapped) : phaseOf (past ++ [⟨core, op, r, core'⟩]) = phaseOf past := by
  have hnone : runtimeOp ⟨core, op, r, core'⟩ = none := by
    cases op with
    | sync esr scratch =>
        have hr := h esr scratch rfl
        cases r with
        | trapped => exact absurd rfl hr
        | ran | elapsed | interrupted | halted => rfl
    | run | elapse | serror => rfl
  rw [phaseOf_snoc, hnone]
  rfl

/-- Every operation keeps to the protocol. -/
theorem Hosts.step_answered (h : Hosts layout boot period core a)
    (prepared : Prepared layout boot) (hphase : a.phase = phaseOf past) (op : LiveOp) :
    ∃ r core' a', core.step layout op = some (r, core') ∧ Hosts layout boot period core' a' ∧
      a'.phase = phaseOf (past ++ [⟨core, op, r, core'⟩]) ∧
      Answered layout past ⟨core, op, r, core'⟩ := by
  obtain ⟨core', hstep, h'⟩ := h.step prepared op
  have hconsole := h'.console
  -- an event that is neither a trap nor an interrupt
  have silent : ∀ r a', a.step layout period op = (r, a') →
      (∀ esr scratch, op = .sync esr scratch → r ≠ .trapped) → a'.phase = a.phase →
      (r = .ran ∨ r = .elapsed ∨ r = .halted → a'.console = a.console) →
      ∃ r core' a', core.step layout op = some (r, core') ∧ Hosts layout boot period core' a' ∧
        a'.phase = phaseOf (past ++ [⟨core, op, r, core'⟩]) ∧
        Answered layout past ⟨core, op, r, core'⟩ := by
    intro r a' heq htrap hsame hprinted
    rw [heq] at hstep h' hconsole
    refine ⟨r, core', a', hstep, h', ?_, fun esr scratch hop hr => absurd hr (htrap _ _ hop),
      fun hr => ?_⟩
    · rw [phaseOf_silent htrap, hsame, hphase]
    · exact hconsole.trans ((hprinted hr).trans h.console.symm)
  cases hhalted : a.halted with
  | true =>
      exact silent .halted a (a.step_halted hhalted op) (fun _ _ _ => by decide) rfl fun _ => rfl
  | false =>
      cases op with
      | run user =>
          exact silent _ _ (a.step_run hhalted user) (fun _ _ hop => LiveOp.noConfusion hop) rfl
            fun _ => rfl
      | elapse duration spent scratch =>
          have heq : a.step layout period (.elapse duration spent scratch) = _ :=
            a.step_elapse hhalted duration spent scratch
          split_ifs at heq with hdue
          · refine silent _ _ heq (fun _ _ hop => LiveOp.noConfusion hop) ?_ ?_
            · simp only [Sandbox.preempt]
              split_ifs <;> rfl
            · rintro (hr | hr | hr) <;> cases hr
          · exact silent _ _ heq (fun _ _ hop => LiveOp.noConfusion hop) rfl fun _ => rfl
      | serror esr scratch =>
          refine silent _ _ (a.step_serror hhalted esr scratch)
            (fun _ _ hop => LiveOp.noConfusion hop) rfl ?_
          rintro (hr | hr | hr) <;> cases hr
      | sync esr scratch =>
          have hruns := h.runs hhalted
          have htask : taskOf core = a.running := hruns.taskOf_eq
          have hswitches : core.kernel.switches = a.switches := (h.keeps hhalted).switches
          have hanswers := a.trap_answers layout esr
          rw [a.step_sync hhalted] at hstep h' hconsole
          refine ⟨_, core', _, hstep, h', ?_, ?_, ?_⟩
          · rw [Sandbox.trap_phase, phaseOf_snoc, hphase, ← htask]
            rfl
          · rintro esr' scratch' ⟨⟩ - reply rfl
            show core'.kernel.console = core.kernel.console ++ _ ∧ core'.halted = _ ∧
              ∀ task ∈ _, taskOf core' = task
            rw [htask, hswitches, ← hphase, hconsole, h.console, h'.halted]
            refine ⟨hanswers.console, hanswers.halted hhalted, fun task hmem => ?_⟩
            have hgoes : (a.trap layout esr).halted = false := by
              rw [hanswers.halted hhalted]
              exact Option.isNone_eq_false_iff.mpr (Option.isSome_of_mem hmem)
            rw [(h'.runs hgoes).taskOf_eq, hanswers.task task hmem]
          · rintro (hr | hr | hr) <;> cases hr

end Runs

/-- **Every trap is answered as the protocol says.**  For user code of any kind, in every run
from the start, a trap prints exactly what the phase of the protocol asks for, the phase being
that of the traps before it; the task continues with its registers, or in one of three places,
or the kernel halts.  User code by itself prints nothing. -/
theorem traps_answered {core : Core} (ready : Ready layout core) :
    ∃ start, (∀ fuel, enterSandbox layout (fuel + 1) core = some start) ∧
      ∀ ops, ∃ es final, (liveMachine layout start).exec start ops = some (es, final) ∧
        AtEach es (Answered layout) := by
  obtain ⟨start, hstart, hosts⟩ := enterSandbox_hosts ready
  refine ⟨start, hstart, fun ops => ?_⟩
  obtain ⟨es, final, hexec, -, heach⟩ := Machine.exec_of_invariant
    (M := liveMachine layout start)
    (fun es core' => (∃ a, Hosts layout core.cpu (periodOf core.kernel.interrupts 20) core' a ∧
      a.phase = phaseOf es) ∧ AtEach es (Answered layout))
    ⟨⟨_, hosts, rfl⟩, AtEach.nil⟩ (by
      rintro es core' op ⟨⟨a, h, hphase⟩, heach⟩
      obtain ⟨r, core'', a', hstep, h', hphase', hanswered⟩ :=
        h.step_answered ready.prepared hphase op
      exact ⟨r, core'', hstep, ⟨a', h', hphase'⟩, heach.snoc hanswered⟩) ops
  exact ⟨es, final, hexec, heach⟩

theorem traps_answered_sample :
    ∃ start,
      (∀ fuel, enterSandbox sampleLayout (fuel + 1) (sampleCore sampleMemory) = some start) ∧
      ∀ ops, ∃ es final, (liveMachine sampleLayout start).exec start ops = some (es, final) ∧
        AtEach es (Answered sampleLayout) :=
  traps_answered (sampleCore_ready sampleMemory_tables)

end Aegis.Live
