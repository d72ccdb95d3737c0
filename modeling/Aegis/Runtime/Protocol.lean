import Mathlib
import Aegis.Foundation.History
import Aegis.Ipc.Refinement
import Aegis.Runtime.Model

/-!
# The runtime follows its protocol

From outside, the runtime has three phases.  It waits for the application's call; it
serves the one call with the byte it carried; and once the console has replied, the
application's capability is revoked and the protocol is over.  `Phase` says what each
system call returns in each phase, and `phaseAfter` which phase a sequence of system
calls leads to, in whatever order they come.

`Represents` is the joint invariant of the three subsystems: in each phase it fixes the
capability tables, the running task and what the rendezvous says of the two threads.
The steps of `app_call` and `console_reply_and_revoke` that could return early cannot:
the capabilities are the ones `bootstrap` granted, and the rendezvous answers by the
refinement of `Aegis.Ipc.Refinement`.
-/

namespace Aegis

open Foundation Foundation.Rendezvous Capability Ipc

/-! ## The protocol -/

/-- Where the protocol stands. -/
inductive Phase
  | idle
  | serving (byte : UInt8)
  | closed
  deriving DecidableEq, Repr

/-- What a system call returns. -/
def Phase.answer : Phase → RuntimeOp → RuntimeResult
  | .idle, .appCall _ => .called (.ok ())
  | .serving _, .appCall _ => .called (.error .wrongTask)
  | .closed, .appCall _ => .called (.error (.syscall (.capability .emptySlot)))
  | .serving byte, .consoleReplyAndRevoke => .replied (.ok (byte, 2))
  | .idle, .consoleReplyAndRevoke | .closed, .consoleReplyAndRevoke =>
      .replied (.error .wrongTask)

/-- Where a system call leads. -/
def Phase.next : Phase → RuntimeOp → Phase
  | .idle, .appCall byte => .serving byte
  | .serving _, .consoleReplyAndRevoke => .closed
  | phase, _ => phase

def RuntimeOp.isAppCall : RuntimeOp → Bool
  | .appCall _ => true
  | .consoleReplyAndRevoke => false

/-- Where the protocol stands after these system calls: the first `app_call` counts, and
the first `console_reply_and_revoke` after it. -/
def phaseAfter (ops : List RuntimeOp) : Phase :=
  match ops.dropWhile fun op => !op.isAppCall with
  | .appCall byte :: later => if .consoleReplyAndRevoke ∈ later then .closed else .serving byte
  | _ => .idle

/-- A system call that returned an error. -/
def RuntimeResult.IsErr : RuntimeResult → Prop
  | .called result => ∃ error, result = .error error
  | .replied result => ∃ error, result = .error error

theorem phaseAfter_snoc (ops : List RuntimeOp) (op : RuntimeOp) :
    phaseAfter (ops ++ [op]) = (phaseAfter ops).next op := by
  induction ops with
  | nil => cases op <;> rfl
  | cons first ops ih =>
      cases first with
      | consoleReplyAndRevoke => exact ih
      | appCall byte =>
          -- everything from the first `app_call` on is kept
          show (if .consoleReplyAndRevoke ∈ ops ++ [op] then Phase.closed else .serving byte) =
            (if .consoleReplyAndRevoke ∈ ops then Phase.closed else .serving byte).next op
          by_cases hreply : .consoleReplyAndRevoke ∈ ops
          · rw [if_pos hreply, if_pos (List.mem_append_left _ hreply)]
            cases op <;> rfl
          · rw [if_neg hreply]
            cases op with
            | appCall => rw [if_neg (by simpa using hreply)]; rfl
            | consoleReplyAndRevoke => rw [if_pos (by simp)]; rfl

/-! ## The capabilities -/

def uartRoot : Node := ⟨.mmio 0x09000000 1, Rights.ALL, none, 0, true⟩

def uartLease : Node := ⟨.mmio 0x09000000 1, Rights.WRITE, some ⟨0, 0⟩, 0, true⟩

def endpointRoot : Node := ⟨.endpoint 0, Rights.ALL, none, 0, true⟩

def endpointLease : Node := ⟨.endpoint 0, Rights.WRITE, some ⟨2, 0⟩, 0, true⟩

/-- What `bootstrap` grants: the root task holds both objects, the console a lease on
the UART and the application one on the endpoint. -/
def granted : LiveCaps where
  spaces := #v[
    #v[some ⟨0, 0⟩, some ⟨2, 0⟩, none, none, none, none, none, none],
    #v[some ⟨1, 0⟩, none, none, none, none, none, none, none],
    #v[none, some ⟨3, 0⟩, none, none, none, none, none, none],
    Vector.replicate 8 none]
  nodes := #v[uartRoot, uartLease, endpointRoot, endpointLease] ++
    Vector.replicate 12 EMPTY_NODE

/-- What is left when the endpoint has been revoked. -/
def withdrawn : LiveCaps where
  spaces := #v[
    #v[some ⟨0, 0⟩, none, none, none, none, none, none, none],
    #v[some ⟨1, 0⟩, none, none, none, none, none, none, none],
    Vector.replicate 8 none,
    Vector.replicate 8 none]
  nodes := #v[uartRoot, uartLease, endpointRoot.revoked, endpointLease.revoked] ++
    Vector.replicate 12 EMPTY_NODE

theorem initializeRuntime_eq :
    Runtime.initializeRuntime = some (.ok (), { Runtime.empty with capabilities := granted }) := by
  decide +kernel

theorem authorizeEndpoint_granted :
    authorizeEndpoint granted APP_TASK ENDPOINT_SLOT Rights.WRITE = .ok 0 := rfl

theorem authorizeMmio_granted :
    authorizeMmio granted CONSOLE_TASK UART_SLOT Rights.WRITE = .ok (0x09000000, 1) := rfl

theorem revoke_granted :
    CapabilitySystem.revoke ROOT_TASK ENDPOINT_SLOT granted = some (.ok 2, withdrawn) := by
  decide +kernel

theorem authorizeEndpoint_withdrawn :
    authorizeEndpoint withdrawn APP_TASK ENDPOINT_SLOT Rights.WRITE =
      .error (.capability .emptySlot) := rfl

/-! ## The rendezvous -/

/-- A call to an endpoint where nobody waits, received and taken by a server that can
run: the message arrives, and the server may answer. -/
theorem Ipc.RendezvousIpc.call_received {THREADS ENDPOINTS : ℕ}
    {ipc : RendezvousIpc THREADS ENDPOINTS} {a : IpcSpec THREADS ENDPOINTS}
    (ref : Refines ipc a) (client server : Fin THREADS) (e : Fin ENDPOINTS) (m : Message)
    (hne : client ≠ server) (hclient : a.status client = .runnable)
    (hserver : a.status server = .runnable) (hsenders : a.queue (.senders e) = [])
    (hreceivers : a.queue (.receivers e) = []) :
    ∃ ipc₁ ipc₂ ipc₃ a', call client e m ipc = some (.ok .blocked, ipc₁) ∧
      receive server e ipc₁ = some (.ok (.delivered client), ipc₂) ∧
      ipc₂.takeMessage server = (some m, ipc₃) ∧ Refines ipc₃ a' ∧
      a'.status server = .runnable ∧ a'.replyTarget server = some client := by
  obtain ⟨ipc₁, hcall, ref₁⟩ := transmit_parked ref true m hclient hreceivers
  have hserver₁ : (a.parkSender m true hclient hreceivers).status server = .runnable := by
    rw [IpcSpec.parkSender_status, Function.update_of_ne hne.symm, hserver]
  have hqueue₁ : (a.parkSender m true hclient hreceivers).queue (.senders e) = [client] := by
    rw [IpcSpec.parkSender_queue, Function.update_self, hsenders, List.nil_append]
  have hclient₁ : (a.parkSender m true hclient hreceivers).status client =
      .sending e m true := by
    rw [IpcSpec.parkSender_status, Function.update_self]
  obtain ⟨ipc₂, hreceive, ref₂⟩ := receive_met ref₁ hserver₁ hqueue₁ hclient₁
  obtain ⟨ipc₃, htake, ref₃⟩ := takeMessage_taken ref₂ server
  refine ⟨ipc₁, ipc₂, ipc₃, _, hcall, hreceive, ?_, ref₃, ?_, ?_⟩
  · rw [htake, IpcSpec.meetSender, meet_inbox, Function.update_self]
  · rw [take_status, IpcSpec.meetSender, meet_status_receiver]
  · rw [take_replyTarget, IpcSpec.meetSender, meet_replyTarget, if_pos rfl,
      Function.update_self]

/-! ## The joint invariant -/

/-- What the runtime looks like in each phase of the protocol. -/
def Represents (runtime : Runtime) : Phase → Prop
  | .idle =>
      runtime.capabilities = granted ∧ runtime.currentTask = APP_TASK ∧
        Refines runtime.ipc Rendezvous.idle
  | .serving byte =>
      runtime.capabilities = granted ∧ runtime.currentTask = CONSOLE_TASK ∧
        runtime.pendingByte = byte ∧
        ∃ a : IpcSpec 4 2, Refines runtime.ipc a ∧ a.status 1 = .runnable ∧
          a.replyTarget 1 = some 2
  | .closed =>
      runtime.capabilities = withdrawn ∧ runtime.currentTask = APP_TASK ∧
        ∃ a : IpcSpec 4 2, Refines runtime.ipc a ∧ a.status 2 = .runnable

/-- The running task is in step with the rendezvous. -/
def InStep (runtime : Runtime) : Prop :=
  runtime.currentTask = CONSOLE_TASK ↔
    runtime.ipc.state APP_TASK = some (.replyBlocked CONSOLE_TASK) ∧
      runtime.ipc.replyTarget CONSOLE_TASK = some APP_TASK

section Invariant

variable {runtime : Runtime} {phase : Phase}

/-- While the application can run, it is not blocked on the console. -/
theorem inStep_of_runnable {a : IpcSpec 4 2} (ref : Refines runtime.ipc a)
    (hcurrent : runtime.currentTask = APP_TASK) (happ : a.status 2 = .runnable) :
    InStep runtime := by
  have hstate : runtime.ipc.state APP_TASK = some .runnable := by
    have := ref.state_coe 2
    rwa [happ] at this
  constructor
  · intro h
    rw [hcurrent] at h
    cases h
  · rintro ⟨hblocked, -⟩
    rw [hstate] at hblocked
    cases hblocked

theorem Represents.inStep (h : Represents runtime phase) : InStep runtime := by
  cases phase with
  | idle =>
      obtain ⟨-, hcurrent, ref⟩ := h
      exact inStep_of_runnable ref hcurrent rfl
  | closed =>
      obtain ⟨-, hcurrent, a, ref, happ⟩ := h
      exact inStep_of_runnable ref hcurrent happ
  | serving byte =>
      obtain ⟨-, hcurrent, -, a, ref, -, htarget⟩ := h
      refine iff_of_true hcurrent ⟨?_, ?_⟩
      · have := ref.state_coe 2
        rwa [a.reply_blocked 1 2 htarget] at this
      · have := ref.replyTarget_eq 1
        rwa [htarget] at this

/-! ## The system calls -/

/-- A system call of the task that does not run. -/
theorem ensureCurrent_wrong {task : ℕ} (h : runtime.currentTask ≠ task) :
    Runtime.ensureCurrent task runtime = some (.error .wrongTask, runtime) := by
  rw [Runtime.ensureCurrent, Call.reads_apply, if_pos h]

theorem ensureCurrent_right {task : ℕ} (h : runtime.currentTask = task) :
    Runtime.ensureCurrent task runtime = some (.ok (), runtime) := by
  rw [Runtime.ensureCurrent, Call.reads_apply, if_neg (not_not_intro h)]

theorem authorized_ok {α : Type} {check : LiveCaps → Except SyscallError α} {object : α}
    (h : check runtime.capabilities = .ok object) :
    Runtime.authorized check runtime = some (.ok object, runtime) := by
  rw [Runtime.authorized, Call.reads_apply, h]
  rfl

theorem authorized_error {α : Type} {check : LiveCaps → Except SyscallError α}
    {error : SyscallError} (h : check runtime.capabilities = .error error) :
    Runtime.authorized check runtime = some (.error (.syscall error), runtime) := by
  rw [Runtime.authorized, Call.reads_apply, h]
  rfl

theorem onIpc_ok {α : Type} {method : Call LiveIpc IpcError α} {value : α} {ipc : LiveIpc}
    (h : method runtime.ipc = some (.ok value, ipc)) :
    Runtime.onIpc method runtime = some (.ok value, { runtime with ipc }) :=
  Call.mapError_ok (Call.zoom_some h)

theorem onCapabilities_ok {α : Type} {method : Call LiveCaps CapError α} {value : α}
    {capabilities : LiveCaps} (h : method runtime.capabilities = some (.ok value, capabilities)) :
    Runtime.onCapabilities method runtime =
      some (.ok value, { runtime with capabilities }) :=
  Call.mapError_ok (Call.zoom_some h)

/-- A message that has arrived is taken. -/
theorem takeMessage_eq {thread : ThreadId} {m : Option Message} {ipc : LiveIpc}
    (h : runtime.ipc.takeMessage thread = (m, ipc)) :
    Runtime.takeMessage thread runtime = some (.ok m, { runtime with ipc }) := by
  rw [Runtime.takeMessage, h]

theorem assign_eq (write : Runtime → Runtime) :
    Runtime.assign write runtime = some (.ok (), write runtime) := rfl

theorem appCall_wrongTask (byte : UInt8) (h : runtime.currentTask = CONSOLE_TASK) :
    Runtime.appCall byte runtime = some (.error .wrongTask, runtime) := by
  have hne : runtime.currentTask ≠ APP_TASK := by
    rw [h]
    decide
  rw [Runtime.appCall, Call.bind_error (ensureCurrent_wrong hne)]

theorem consoleReplyAndRevoke_wrongTask (h : runtime.currentTask = APP_TASK) :
    Runtime.consoleReplyAndRevoke runtime = some (.error .wrongTask, runtime) := by
  have hne : runtime.currentTask ≠ CONSOLE_TASK := by
    rw [h]
    decide
  rw [Runtime.consoleReplyAndRevoke, Call.bind_error (ensureCurrent_wrong hne)]

/-- The first `app_call` reaches the console. -/
theorem appCall_idle (h : Represents runtime .idle) (byte : UInt8) :
    ∃ runtime', Runtime.appCall byte runtime = some (.ok (), runtime') ∧
      Represents runtime' (.serving byte) := by
  obtain ⟨hcaps, hcurrent, ref⟩ := h
  have hcheck : authorizeEndpoint runtime.capabilities APP_TASK ENDPOINT_SLOT Rights.WRITE =
      .ok 0 := by
    rw [hcaps, authorizeEndpoint_granted]
  obtain ⟨ipc₁, ipc₂, ipc₃, a, hcall, hreceive, htake, ref', hserver, htarget⟩ :=
    RendezvousIpc.call_received ref 2 1 0 (Runtime.request byte) (by decide) rfl rfl rfl rfl
  have hcalled : Runtime.onIpc (RendezvousIpc.call APP_TASK 0 (Runtime.request byte)) runtime =
      some (.ok .blocked, { runtime with ipc := ipc₁ }) := onIpc_ok hcall
  have hreceived : Runtime.onIpc (RendezvousIpc.receive CONSOLE_TASK 0)
      { runtime with ipc := ipc₁ } =
        some (.ok (.delivered APP_TASK), { runtime with ipc := ipc₂ }) := onIpc_ok hreceive
  have htaken : Runtime.takeMessage CONSOLE_TASK { runtime with ipc := ipc₂ } =
      some (.ok (some (Runtime.request byte)), { runtime with ipc := ipc₃ }) :=
    takeMessage_eq htake
  have hregister : (Runtime.request byte).registers[0].toUInt8 = byte :=
    UInt8.toUInt8_toUInt64 byte
  refine ⟨⟨granted, CONSOLE_TASK, byte, ipc₃⟩, ?_, rfl, rfl, rfl, a, ref', hserver, htarget⟩
  rw [Runtime.appCall, Call.bind_ok (ensureCurrent_right hcurrent),
    Call.bind_ok (authorized_ok hcheck), Call.bind_ok hcalled, if_neg (not_not_intro rfl),
    Call.bind_ok hreceived, if_neg (not_not_intro rfl), Call.bind_ok htaken]
  show some (Except.ok (), (⟨runtime.capabilities, CONSOLE_TASK,
    (Runtime.request byte).registers[0].toUInt8, ipc₃⟩ : Runtime)) = _
  rw [hcaps, hregister]

/-- The console's reply ends the protocol. -/
theorem consoleReplyAndRevoke_serving {byte : UInt8} (h : Represents runtime (.serving byte)) :
    ∃ runtime', Runtime.consoleReplyAndRevoke runtime = some (.ok (byte, 2), runtime') ∧
      Represents runtime' .closed := by
  obtain ⟨hcaps, hcurrent, hbyte, a, ref, hserver, htarget⟩ := h
  have hcheck : authorizeMmio runtime.capabilities CONSOLE_TASK UART_SLOT Rights.WRITE =
      .ok (0x09000000, 1) := by
    rw [hcaps, authorizeMmio_granted]
  have hrevoke : CapabilitySystem.revoke ROOT_TASK ENDPOINT_SLOT runtime.capabilities =
      some (.ok 2, withdrawn) := by
    rw [hcaps, revoke_granted]
  obtain ⟨ipc, hreply, ref'⟩ := RendezvousIpc.reply_answered ref defaultMessage hserver htarget
  have hreplied : Runtime.onIpc (RendezvousIpc.reply CONSOLE_TASK defaultMessage) runtime =
      some (.ok (.delivered APP_TASK), { runtime with ipc }) := onIpc_ok hreply
  have hread : (Call.reads fun runtime : Runtime => .ok runtime.pendingByte :
      Call Runtime RuntimeError UInt8) runtime = some (.ok byte, runtime) :=
    Call.reads_ok (congrArg _ hbyte)
  have hrevoked : Runtime.onCapabilities (CapabilitySystem.revoke ROOT_TASK ENDPOINT_SLOT)
      { runtime with ipc, currentTask := APP_TASK } =
        some (.ok 2, ⟨withdrawn, APP_TASK, runtime.pendingByte, ipc⟩) :=
    onCapabilities_ok hrevoke
  refine ⟨⟨withdrawn, APP_TASK, runtime.pendingByte, ipc⟩, ?_, rfl, rfl, _, ref', ?_⟩
  · rw [Runtime.consoleReplyAndRevoke, Call.bind_ok (ensureCurrent_right hcurrent),
      Call.bind_ok (authorized_ok hcheck), Call.bind_ok hread, Call.bind_ok hreplied,
      Call.bind_ok (assign_eq _), Call.bind_ok hrevoked]
    rfl
  · rw [answer_status, Function.update_self]

/-- Afterwards the application has no capability to call with. -/
theorem appCall_closed (h : Represents runtime .closed) (byte : UInt8) :
    Runtime.appCall byte runtime =
      some (.error (.syscall (.capability .emptySlot)), runtime) := by
  obtain ⟨hcaps, hcurrent, -⟩ := h
  have hcheck : authorizeEndpoint runtime.capabilities APP_TASK ENDPOINT_SLOT Rights.WRITE =
      .error (.capability .emptySlot) := by
    rw [hcaps, authorizeEndpoint_withdrawn]
  rw [Runtime.appCall, Call.bind_ok (ensureCurrent_right hcurrent),
    Call.bind_error (authorized_error hcheck)]

end Invariant

/-! ## The step lemma -/

section Step

variable {rt runtime runtime' : Runtime} {phase : Phase}

theorem step_appCall {byte : UInt8} {result : Except RuntimeError Unit}
    (h : Runtime.appCall byte runtime = some (result, runtime')) :
    (runtimeMachine rt).step runtime (.appCall byte) = some (.called result, runtime') := by
  show (Runtime.appCall byte runtime).map _ = _
  rw [h]
  rfl

theorem step_consoleReplyAndRevoke {result : Except RuntimeError (UInt8 × ℕ)}
    (h : Runtime.consoleReplyAndRevoke runtime = some (result, runtime')) :
    (runtimeMachine rt).step runtime .consoleReplyAndRevoke =
      some (.replied result, runtime') := by
  show (Runtime.consoleReplyAndRevoke runtime).map _ = _
  rw [h]
  rfl

/-- **Every system call follows the protocol**: it returns what the phase says, leads to
the phase it should, and changes nothing if it returns an error. -/
theorem step_represents (rt : Runtime) (h : Represents runtime phase) (op : RuntimeOp) :
    ∃ runtime', (runtimeMachine rt).step runtime op = some (phase.answer op, runtime') ∧
      Represents runtime' (phase.next op) ∧
      ((phase.answer op).IsErr → runtime' = runtime) := by
  cases op with
  | appCall byte =>
      cases phase with
      | idle =>
          obtain ⟨runtime', hcall, h'⟩ := appCall_idle h byte
          refine ⟨runtime', step_appCall hcall, h', ?_⟩
          rintro ⟨error, herror⟩
          cases herror
      | serving served =>
          exact ⟨runtime, step_appCall (appCall_wrongTask byte h.2.1), h, fun _ => rfl⟩
      | closed => exact ⟨runtime, step_appCall (appCall_closed h byte), h, fun _ => rfl⟩
  | consoleReplyAndRevoke =>
      cases phase with
      | serving byte =>
          obtain ⟨runtime', hreply, h'⟩ := consoleReplyAndRevoke_serving h
          refine ⟨runtime', step_consoleReplyAndRevoke hreply, h', ?_⟩
          rintro ⟨error, herror⟩
          cases herror
      | idle =>
          exact ⟨runtime, step_consoleReplyAndRevoke (consoleReplyAndRevoke_wrongTask h.2.1), h,
            fun _ => rfl⟩
      | closed =>
          exact ⟨runtime, step_consoleReplyAndRevoke (consoleReplyAndRevoke_wrongTask h.2.1), h,
            fun _ => rfl⟩

end Step

/-! ## Whole runs -/

/-- An event of a run that keeps the protocol, given the system calls before it. -/
def FollowsProtocol (past : List RuntimeEvent) (ev : RuntimeEvent) : Prop :=
  ev.result = (phaseAfter (past.map Event.op)).answer ev.op ∧
    (ev.result.IsErr → ev.after = ev.before) ∧ InStep ev.after

/-- Every run from an idle runtime keeps the protocol. -/
theorem exec_followsProtocol {rt : Runtime} (start : Represents rt .idle)
    (ops : List RuntimeOp) :
    ∃ es final, (runtimeMachine rt).exec rt ops = some (es, final) ∧
      Represents final (phaseAfter (es.map Event.op)) ∧ AtEach es FollowsProtocol := by
  refine Machine.exec_of_invariant
    (fun es runtime => Represents runtime (phaseAfter (es.map Event.op)) ∧
      AtEach es FollowsProtocol) ⟨start, AtEach.nil⟩ ?_ ops
  rintro es runtime op ⟨h, heach⟩
  obtain ⟨runtime', hstep, h', hkept⟩ := step_represents rt h op
  refine ⟨_, runtime', hstep, ?_, heach.snoc ⟨rfl, hkept, h'.inStep⟩⟩
  rwa [List.map_append, List.map_singleton, phaseAfter_snoc]

/-- **The runtime keeps the protocol end to end.**  `initialize` succeeds, and from the
runtime it leaves every sequence of system calls returns, call by call, what the phase
says: only the first `app_call` is accepted, only the `console_reply_and_revoke` after it
gets the byte and the two revoked capabilities, and whatever fails leaves the runtime as
it was.  The running task is the console exactly while the application waits for it. -/
theorem runtime_protocol :
    ∃ rt, Runtime.initializeRuntime = some (.ok (), rt) ∧ InStep rt ∧
      ∀ ops, ∃ es final, (runtimeMachine rt).exec rt ops = some (es, final) ∧
        AtEach es FollowsProtocol := by
  have start : Represents { Runtime.empty with capabilities := granted } .idle :=
    ⟨rfl, rfl, refines_new⟩
  refine ⟨_, initializeRuntime_eq, start.inStep, fun ops => ?_⟩
  obtain ⟨es, final, hexec, -, heach⟩ := exec_followsProtocol start ops
  exact ⟨es, final, hexec, heach⟩

end Aegis
