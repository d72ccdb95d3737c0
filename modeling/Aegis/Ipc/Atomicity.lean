import Mathlib
import Aegis.Ipc.ArrivalOrder

/-!
# Failed operations have no effect

`send`, `call`, `receive` and `reply` all write before their last fallible step.  What
such a failure leaves behind is one flag: a `send` or `call` on a bad endpoint has already
noted which of the two it was.  A parked sender's place in its queue is always free, and a
reply target that is taken either was not there or is answered, so nothing else fails
late.

The flag of a thread counts only while the thread is sending, and the next `send` or
`call` overwrites it.  Before and after the failure the kernel object stands for the same
abstract state, so no later run can tell the two apart.
-/

namespace Aegis.Ipc

open Foundation Foundation.Rendezvous

variable {THREADS ENDPOINTS : ℕ}

/-- Everything is as before, but for the call flag of the issuer. -/
structure SameButFlag (issuer : Option ThreadId) (ipc ipc' : RendezvousIpc THREADS ENDPOINTS) :
    Prop where
  state : ∀ (t : ThreadId) (_ : t < THREADS), ipc'.threads[t].state = ipc.threads[t].state
  outgoing : ∀ (t : ThreadId) (_ : t < THREADS), ipc'.threads[t].outgoing = ipc.threads[t].outgoing
  inbox : ∀ (t : ThreadId) (_ : t < THREADS), ipc'.threads[t].inbox = ipc.threads[t].inbox
  replyTarget : ∀ (t : ThreadId) (_ : t < THREADS),
    ipc'.threads[t].replyTarget = ipc.threads[t].replyTarget
  isCall : ∀ (t : ThreadId) (_ : t < THREADS), issuer ≠ some t →
    ipc'.threads[t].isCall = ipc.threads[t].isCall
  endpoints : ipc'.endpoints = ipc.endpoints

namespace SameButFlag

variable {issuer : Option ThreadId} {ipc ipc' : RendezvousIpc THREADS ENDPOINTS}

theorem refl : SameButFlag issuer ipc ipc :=
  ⟨fun _ _ => rfl, fun _ _ => rfl, fun _ _ => rfl, fun _ _ => rfl, fun _ _ _ => rfl, rfl⟩

/-- Writing the issuer's call flag. -/
theorem of_update {s : Fin THREADS} {isCall : Bool}
    (threads : ipc'.threadAt = Function.update ipc.threadAt s { ipc.threadAt s with isCall })
    (queues : ipc'.queueAt = ipc.queueAt) : SameButFlag (some s.val) ipc ipc' := by
  have hipc : ipc' = ipc.setThread s { ipc.threadAt s with isCall } := by
    refine RendezvousIpc.ext_cells ?_ ?_
    · rw [threads, RendezvousIpc.threadAt_setThread]
    · rw [queues, RendezvousIpc.queueAt_setThread]
  have hfield : ∀ {α : Type} (field : Thread → α) (t : Fin THREADS),
      field { ipc.threadAt s with isCall } = field (ipc.threadAt s) ∨ s ≠ t →
        field (ipc'.threadAt t) = field (ipc.threadAt t) := by
    intro α field t h
    rw [threads]
    rcases eq_or_ne t s with rfl | ht
    · rw [Function.update_self]
      exact h.resolve_right (by simp)
    · rw [Function.update_of_ne ht]
  exact {
    state := fun t ht => hfield Thread.state ⟨t, ht⟩ (.inl rfl)
    outgoing := fun t ht => hfield Thread.outgoing ⟨t, ht⟩ (.inl rfl)
    inbox := fun t ht => hfield Thread.inbox ⟨t, ht⟩ (.inl rfl)
    replyTarget := fun t ht => hfield Thread.replyTarget ⟨t, ht⟩ (.inl rfl)
    isCall := fun t ht hissuer =>
      hfield Thread.isCall ⟨t, ht⟩ (.inr fun h => hissuer (by rw [h]))
    endpoints := by rw [hipc]; rfl }

end SameButFlag

section Failures

open RendezvousIpc

variable {ipc ipc' : RendezvousIpc THREADS ENDPOINTS} {a : IpcSpec THREADS ENDPOINTS}
  {error : IpcError}

/-- Two evaluations of a method agree. -/
theorem eval_unique {run : Option (Except IpcError IpcOutcome × RendezvousIpc THREADS ENDPOINTS)}
    {outcome : Except IpcError IpcOutcome} {ipc₁ : RendezvousIpc THREADS ENDPOINTS}
    (h : run = some (.error error, ipc')) (h₁ : run = some (outcome, ipc₁)) :
    outcome = .error error ∧ ipc₁ = ipc' := by
  rw [h, Option.some.injEq, Prod.mk.injEq] at h₁
  exact ⟨h₁.1.symm, h₁.2.symm⟩

theorem transmit_of_error (ref : Refines ipc a) {isCall : Bool} {sender : ThreadId}
    {endpoint : ℕ} {m : Message}
    (h : transmit isCall sender endpoint m ipc = some (.error error, ipc')) :
    SameButFlag (some sender) ipc ipc' := by
  by_cases ht : sender < THREADS
  · lift sender to Fin THREADS using ht
    by_cases hs : a.status sender = .runnable
    · by_cases he : endpoint < ENDPOINTS
      · lift endpoint to Fin ENDPOINTS using he
        cases hq : a.queue (.receivers endpoint) with
        | nil =>
            obtain ⟨ipc₁, heval, -⟩ := transmit_parked ref isCall m hs hq
            cases (eval_unique h heval).1
        | cons r rest =>
            obtain ⟨ipc₁, heval, -⟩ := transmit_met ref isCall m hs hq
            cases (eval_unique h heval).1
      · obtain ⟨ipc₁, heval, threads, queues⟩ :=
          transmit_badEndpoint isCall m (ref.runnable hs) (Nat.le_of_not_lt he)
        obtain rfl := (eval_unique h heval).2
        exact .of_update threads queues
    · obtain rfl := (eval_unique h
        (transmit_refused (ensureRunnable_error (ref.not_runnable hs)))).2
      exact .refl
  · obtain rfl := (eval_unique h
      (transmit_refused (ensureRunnable_absent (Nat.le_of_not_lt ht)))).2
    exact .refl

theorem receive_of_error (ref : Refines ipc a) {receiver : ThreadId} {endpoint : ℕ}
    (h : receive receiver endpoint ipc = some (.error error, ipc')) : ipc = ipc' := by
  by_cases ht : receiver < THREADS
  · lift receiver to Fin THREADS using ht
    by_cases hr : a.status receiver = .runnable
    · by_cases he : endpoint < ENDPOINTS
      · lift endpoint to Fin ENDPOINTS using he
        cases hq : a.queue (.senders endpoint) with
        | nil =>
            obtain ⟨ipc₁, heval, -⟩ := receive_parked ref hr hq
            cases (eval_unique h heval).1
        | cons s rest =>
            obtain ⟨m, isCall, hs⟩ := a.sending_of_queue hq
            obtain ⟨ipc₁, heval, -⟩ := receive_met ref hr hq hs
            cases (eval_unique h heval).1
      · exact (eval_unique h
          (receive_badEndpoint (ref.runnable hr) (Nat.le_of_not_lt he))).2
    · exact (eval_unique h (receive_refused (ensureRunnable_error (ref.not_runnable hr)))).2
  · exact (eval_unique h (receive_refused (ensureRunnable_absent (Nat.le_of_not_lt ht)))).2

theorem reply_of_error (ref : Refines ipc a) {server : ThreadId} {m : Message}
    (h : reply server m ipc = some (.error error, ipc')) : ipc = ipc' := by
  by_cases ht : server < THREADS
  · lift server to Fin THREADS using ht
    by_cases hs : a.status server = .runnable
    · cases hc : a.replyTarget server with
      | none =>
          exact (eval_unique h
            (reply_unanswerable m (ref.runnable hs) (ref.target_eq_none hc))).2
      | some c =>
          obtain ⟨ipc₁, heval, -⟩ := reply_answered ref m hs hc
          cases (eval_unique h heval).1
    · exact (eval_unique h (reply_refused (ensureRunnable_error (ref.not_runnable hs)))).2
  · exact (eval_unique h (reply_refused (ensureRunnable_absent (Nat.le_of_not_lt ht)))).2

/-- A step that returns an error comes from a method that does. -/
theorem call_of_step {op : IpcOp}
    {method : Call (RendezvousIpc THREADS ENDPOINTS) IpcError IpcOutcome}
    (hstep : (ipcMachine THREADS ENDPOINTS).step ipc op =
      (method ipc).map (Prod.map .outcome id))
    (h : (ipcMachine THREADS ENDPOINTS).step ipc op = some (.outcome (.error error), ipc')) :
    method ipc = some (.error error, ipc') := by
  rw [hstep, Option.map_eq_some_iff] at h
  obtain ⟨⟨outcome, ipc₁⟩, heval, hresult⟩ := h
  cases hresult
  exact heval

theorem step_of_error (ref : Refines ipc a) {op : IpcOp}
    (h : (ipcMachine THREADS ENDPOINTS).step ipc op = some (.outcome (.error error), ipc')) :
    SameButFlag op.issuer ipc ipc' := by
  cases op with
  | send sender endpoint message =>
      exact transmit_of_error ref (call_of_step (step_transmit false _ _ _ ipc) h)
  | call caller endpoint message =>
      exact transmit_of_error ref (call_of_step (step_transmit true _ _ _ ipc) h)
  | receive receiver endpoint =>
      obtain rfl := receive_of_error ref (call_of_step (step_receive _ _ ipc) h)
      exact .refl
  | reply server message =>
      obtain rfl := reply_of_error ref (call_of_step (step_reply _ _ ipc) h)
      exact .refl
  | takeMessage thread => cases Option.some.inj h
  | state thread => cases Option.some.inj h

/-- A refused operation leaves the abstract state alone. -/
theorem Refines.of_error (ref : Refines ipc a) {op : IpcOp}
    (h : (ipcMachine THREADS ENDPOINTS).step ipc op = some (.outcome (.error error), ipc')) :
    Refines ipc' a := by
  obtain ⟨a', htrans, ref'⟩ := ref.transition h
  cases htrans with
  | rejected => exact ref'

end Failures

/-- **Failed operations have no effect.**  In every reachable state, an operation that
returns an error leaves every thread's state, message, inbox and reply target and every
queue as they were, and changes no flag but the call flag of the thread that issued it.  No
later sequence of operations returns anything else than it would have returned without the
failed one. -/
theorem failed_operation_without_effect {ipc ipc' : RendezvousIpc THREADS ENDPOINTS}
    (reachable : (ipcMachine THREADS ENDPOINTS).Reachable ipc) {op : IpcOp} {error : IpcError}
    (h : (ipcMachine THREADS ENDPOINTS).step ipc op = some (.outcome (.error error), ipc')) :
    SameButFlag op.issuer ipc ipc' ∧
      (ipcMachine THREADS ENDPOINTS).Indistinguishable ipc ipc' := by
  obtain ⟨a, ref⟩ := exists_refines reachable
  exact ⟨step_of_error ref h, sharedSimulation.indistinguishable ⟨a, ref, ref.of_error h⟩⟩

/-- A call on an endpoint that does not exist sets the flag of its caller, and nothing
else. -/
theorem failed_operation_without_effect_call :
    ∃ ipc', (ipcMachine 2 1).step RendezvousIpc.new
        (.call 0 1 ⟨7, 1, Vector.replicate 4 0, none⟩) =
          some (.outcome (.error .badEndpoint), ipc') ∧
      ipc' ≠ RendezvousIpc.new ∧ SameButFlag (some 0) RendezvousIpc.new ipc' ∧
      (ipcMachine 2 1).Indistinguishable RendezvousIpc.new ipc' := by
  have h : (ipcMachine 2 1).step RendezvousIpc.new
      (.call 0 1 ⟨7, 1, Vector.replicate 4 0, none⟩) =
        some (.outcome (.error .badEndpoint), _) := rfl
  exact ⟨_, h, by decide, failed_operation_without_effect Machine.reachable_init h⟩

end Aegis.Ipc
