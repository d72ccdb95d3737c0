import Mathlib
import Aegis.Foundation.Rendezvous
import Aegis.Ipc.Fifo

/-!
# What the operations write

The kernel object is a family of cells, the threads and the queues.  For each operation
and each way it can go, this file says from which contents of which cells it goes that
way, what it returns, and which cells it writes.  Nothing here depends on how the object
was reached; in particular each equation also says which cells an operation does not
look at.
-/

namespace Aegis.Ipc

open Foundation Foundation.Rendezvous

variable {THREADS ENDPOINTS : ℕ}

/-! ## Reading and writing the tables -/

namespace RendezvousIpc

/-- The thread in range with a given number. -/
def threadAt (ipc : RendezvousIpc THREADS ENDPOINTS) (t : Fin THREADS) : Thread :=
  getElem ipc.threads t t.isLt

/-- The queue for a line. -/
def queueAt (ipc : RendezvousIpc THREADS ENDPOINTS) : Line (Fin ENDPOINTS) → Queue THREADS
  | .senders e => (getElem ipc.endpoints e e.isLt).senders
  | .receivers e => (getElem ipc.endpoints e e.isLt).receivers

/-- Overwrite a thread. -/
def setThread (ipc : RendezvousIpc THREADS ENDPOINTS) (t : Fin THREADS) (thread : Thread) :
    RendezvousIpc THREADS ENDPOINTS :=
  { ipc with threads := ipc.threads.set t thread t.isLt }

/-- Overwrite a queue. -/
def setQueue (ipc : RendezvousIpc THREADS ENDPOINTS) :
    Line (Fin ENDPOINTS) → Queue THREADS → RendezvousIpc THREADS ENDPOINTS
  | .senders e, senders =>
      { ipc with
        endpoints := ipc.endpoints.set e { getElem ipc.endpoints e e.isLt with senders } e.isLt }
  | .receivers e, receivers =>
      { ipc with
        endpoints := ipc.endpoints.set e { getElem ipc.endpoints e e.isLt with receivers } e.isLt }

@[simp] theorem threadAt_setThread (ipc : RendezvousIpc THREADS ENDPOINTS) (t : Fin THREADS)
    (thread : Thread) :
    (ipc.setThread t thread).threadAt = Function.update ipc.threadAt t thread := by
  funext u
  rcases eq_or_ne u t with rfl | hu
  · simp [threadAt, setThread]
  · have : t.val ≠ u.val := fun h => hu (Fin.ext h.symm)
    simp [threadAt, setThread, hu, this]

@[simp] theorem queueAt_setThread (ipc : RendezvousIpc THREADS ENDPOINTS) (t : Fin THREADS)
    (thread : Thread) : (ipc.setThread t thread).queueAt = ipc.queueAt := by
  funext k
  cases k <;> rfl

@[simp] theorem threadAt_setQueue (ipc : RendezvousIpc THREADS ENDPOINTS)
    (k : Line (Fin ENDPOINTS)) (queue : Queue THREADS) :
    (ipc.setQueue k queue).threadAt = ipc.threadAt := by
  cases k <;> rfl

@[simp] theorem queueAt_setQueue (ipc : RendezvousIpc THREADS ENDPOINTS)
    (k : Line (Fin ENDPOINTS)) (queue : Queue THREADS) :
    (ipc.setQueue k queue).queueAt = Function.update ipc.queueAt k queue := by
  funext l
  cases k with
  | senders e | receivers e =>
      cases l with
      | senders e' | receivers e' =>
          rcases eq_or_ne e' e with rfl | he
          · simp [queueAt, setQueue]
          · have hval : e.val ≠ e'.val := fun h => he (Fin.ext h.symm)
            simp [queueAt, setQueue, he, hval]

theorem writeThread_eq (ipc : RendezvousIpc THREADS ENDPOINTS) (t : Fin THREADS)
    (write : Thread → Thread) :
    writeThread t write ipc = some (.ok (), ipc.setThread t (write (ipc.threadAt t))) :=
  Call.writes_ok (by simp [setThread, threadAt])

theorem readThread_eq (ipc : RendezvousIpc THREADS ENDPOINTS) (t : Fin THREADS) :
    readThread t ipc = some (.ok (ipc.threadAt t), ipc) :=
  Call.index_ok (by simp [threadAt])

theorem withSenders_eq {α : Type} {ipc : RendezvousIpc THREADS ENDPOINTS} {e : Fin ENDPOINTS}
    {method : Call (Queue THREADS) IpcError α} {r : Except IpcError α} {queue : Queue THREADS}
    (h : method (ipc.queueAt (.senders e)) = some (r, queue)) :
    withSenders e method ipc = some (r, ipc.setQueue (.senders e) queue) := by
  rw [withSenders, dif_pos e.isLt]
  exact Call.zoom_some h

theorem withReceivers_eq {α : Type} {ipc : RendezvousIpc THREADS ENDPOINTS}
    {e : Fin ENDPOINTS} {method : Call (Queue THREADS) IpcError α} {r : Except IpcError α}
    {queue : Queue THREADS} (h : method (ipc.queueAt (.receivers e)) = some (r, queue)) :
    withReceivers e method ipc = some (r, ipc.setQueue (.receivers e) queue) := by
  rw [withReceivers, dif_pos e.isLt]
  exact Call.zoom_some h

theorem getThread_coe (ipc : RendezvousIpc THREADS ENDPOINTS) (t : Fin THREADS) :
    ipc.getThread t = .ok (ipc.threadAt t) := by
  simp [getThread, threadAt]

theorem getThread_absent (ipc : RendezvousIpc THREADS ENDPOINTS) {thread : ThreadId}
    (h : THREADS ≤ thread) : ipc.getThread thread = .error .badThread := by
  simp [getThread, h]

/-- The cells determine the object. -/
theorem ext_cells {ipc ipc' : RendezvousIpc THREADS ENDPOINTS}
    (threads : ipc.threadAt = ipc'.threadAt) (queues : ipc.queueAt = ipc'.queueAt) :
    ipc = ipc' := by
  obtain ⟨ts, es⟩ := ipc
  obtain ⟨ts', es'⟩ := ipc'
  congr
  · apply Vector.ext
    intro i hi
    exact congrFun threads ⟨i, hi⟩
  · apply Vector.ext
    intro i hi
    have hsenders : es[i].senders = es'[i].senders := congrFun queues (.senders ⟨i, hi⟩)
    have hreceivers : es[i].receivers = es'[i].receivers := congrFun queues (.receivers ⟨i, hi⟩)
    show es[i] = es'[i]
    calc es[i] = ⟨es[i].senders, es[i].receivers⟩ := rfl
      _ = ⟨es'[i].senders, es'[i].receivers⟩ := by rw [hsenders, hreceivers]
      _ = es'[i] := rfl

/-- The call returns `outcome` and leaves these threads and queues. -/
def Leaves (run : Option (Except IpcError IpcOutcome × RendezvousIpc THREADS ENDPOINTS))
    (outcome : Except IpcError IpcOutcome) (threads : Fin THREADS → Thread)
    (queues : Line (Fin ENDPOINTS) → Queue THREADS) : Prop :=
  ∃ ipc', run = some (outcome, ipc') ∧ ipc'.threadAt = threads ∧ ipc'.queueAt = queues

/-! ## Sending and calling -/

variable {ipc : RendezvousIpc THREADS ENDPOINTS} {s r : Fin THREADS} {e : Fin ENDPOINTS}

theorem ensureRunnable_ok (h : (ipc.threadAt s).state = .runnable) :
    ipc.ensureRunnable s = .ok () := by
  simp [ensureRunnable, ipc.getThread_coe, h]

theorem ensureRunnable_error (h : (ipc.threadAt s).state ≠ .runnable) :
    ipc.ensureRunnable s = .error .threadNotRunnable := by
  simp [ensureRunnable, ipc.getThread_coe, h]

theorem ensureRunnable_absent {thread : ThreadId} (h : THREADS ≤ thread) :
    ipc.ensureRunnable thread = .error .badThread := by
  rw [ensureRunnable, ipc.getThread_absent h]

/-- `call` or `send`. -/
def transmit (isCall : Bool) (sender : ThreadId) (endpoint : ℕ) (message : Message) :
    Call (RendezvousIpc THREADS ENDPOINTS) IpcError IpcOutcome :=
  if isCall then call sender endpoint message else send sender endpoint message

theorem transmit_error {isCall : Bool} {sender : ThreadId} {endpoint : ℕ} {message : Message}
    {ipc' : RendezvousIpc THREADS ENDPOINTS} {e : IpcError}
    (h : beginSend isCall sender endpoint ipc = some (.error e, ipc')) :
    transmit isCall sender endpoint message ipc = some (.error e, ipc') := by
  cases isCall with
  | false => exact Call.bind_error h
  | true => exact Call.bind_error h

/-- A bad sender is noticed first. -/
theorem transmit_refused {isCall : Bool} {sender : ThreadId} {endpoint : ℕ} {m : Message}
    {error : IpcError} (h : ipc.ensureRunnable sender = .error error) :
    transmit isCall sender endpoint m ipc = some (.error error, ipc) :=
  transmit_error (Call.bind_error (Call.reads_error h))

/-- A bad endpoint is noticed after the call flag has been written. -/
theorem transmit_badEndpoint (isCall : Bool) {endpoint : ℕ} (m : Message)
    (hs : (ipc.threadAt s).state = .runnable) (he : ENDPOINTS ≤ endpoint) :
    Leaves (transmit isCall s endpoint m ipc) (.error .badEndpoint)
      (Function.update ipc.threadAt s { ipc.threadAt s with isCall }) ipc.queueAt := by
  refine ⟨ipc.setThread s { ipc.threadAt s with isCall }, transmit_error ?_,
    threadAt_setThread .., queueAt_setThread ..⟩
  rw [beginSend, Call.bind_ok (Call.reads_ok (ensureRunnable_ok hs)),
    Call.bind_ok (ipc.writeThread_eq s _), withReceivers, dif_neg (by omega)]

theorem beginSend_popped (isCall : Bool) (hs : (ipc.threadAt s).state = .runnable)
    {first : Option ThreadId} {queue : Queue THREADS}
    (hpop : Queue.pop (ipc.queueAt (.receivers e)) = some (.ok first, queue)) :
    beginSend isCall s e ipc = some (.ok first,
      (ipc.setThread s { ipc.threadAt s with isCall }).setQueue (.receivers e) queue) := by
  rw [beginSend, Call.bind_ok (Call.reads_ok (ensureRunnable_ok hs)),
    Call.bind_ok (ipc.writeThread_eq s _)]
  refine withReceivers_eq ?_
  rw [queueAt_setThread, hpop]

/-- The end of `send` and `call` when no receiver is waiting. -/
theorem parkSender_eq (m : Message) {queue : Queue THREADS}
    (hpush : Queue.push s (ipc.queueAt (.senders e)) = some (.ok (), queue)) :
    Leaves (parkSender s e m ipc) (.ok .blocked)
      (Function.update ipc.threadAt s
        { ipc.threadAt s with outgoing := m, state := .sending e })
      (Function.update ipc.queueAt (.senders e) queue) := by
  refine ⟨?_, ?eval, ?threads, ?queues⟩
  case eval =>
    rw [parkSender, Call.bind_ok (writeThread_eq _ s _), Call.bind_ok (writeThread_eq _ s _),
      Call.bind_ok (withSenders_eq (by rw [queueAt_setThread, queueAt_setThread, hpush]))]
    rfl
  case threads => simp
  case queues => simp

/-- With no receiver waiting, the sender parks. -/
theorem transmit_parks (isCall : Bool) (m : Message) (hs : (ipc.threadAt s).state = .runnable)
    (hempty : (ipc.queueAt (.receivers e)).len = 0) {queue : Queue THREADS}
    (hpush : Queue.push s (ipc.queueAt (.senders e)) = some (.ok (), queue)) :
    Leaves (transmit isCall s e m ipc) (.ok .blocked)
      (Function.update ipc.threadAt s
        { ipc.threadAt s with isCall, outgoing := m, state := .sending e })
      (Function.update ipc.queueAt (.senders e) queue) := by
  have hbegin := beginSend_popped isCall hs (Queue.pop_empty hempty)
  have hpush' : Queue.push s (queueAt ((ipc.setThread s { ipc.threadAt s with isCall }).setQueue
      (.receivers e) (ipc.queueAt (.receivers e))) (.senders e)) = some (.ok (), queue) := by
    simpa using hpush
  obtain ⟨ipc', hpark, threads, queues⟩ := parkSender_eq m hpush'
  refine ⟨ipc', ?_, by simpa using threads, by simpa using queues⟩
  cases isCall with
  | false => exact (Call.bind_ok hbegin).trans hpark
  | true => exact (Call.bind_ok hbegin).trans hpark

/-- A waiting receiver is met. -/
theorem transmit_meets (isCall : Bool) (m : Message) (hs : (ipc.threadAt s).state = .runnable)
    (hne : s ≠ r) {queue : Queue THREADS}
    (hpop : Queue.pop (ipc.queueAt (.receivers e)) = some (.ok (some r.val), queue)) :
    Leaves (transmit isCall s e m ipc) (.ok (.delivered r))
      (Function.update
        (Function.update ipc.threadAt s
          { ipc.threadAt s with isCall, state := if isCall then .replyBlocked r else .runnable })
        r { ipc.threadAt r with
          inbox := some m
          replyTarget := if isCall then some s else (ipc.threadAt r).replyTarget
          state := .runnable })
      (Function.update ipc.queueAt (.receivers e) queue) := by
  have hbegin := beginSend_popped isCall hs hpop
  cases isCall with
  | false =>
      refine ⟨?_, ?eval, ?threads, ?queues⟩
      case eval =>
        rw [transmit, if_neg (by simp), send, Call.bind_ok hbegin]
        dsimp only
        rw [Call.bind_ok (writeThread_eq _ r _), Call.bind_ok (writeThread_eq _ r _)]
        rfl
      case threads => simp [hne.symm, hs]
      case queues => simp
  | true =>
      refine ⟨?_, ?eval, ?threads, ?queues⟩
      case eval =>
        rw [transmit, if_pos rfl, call, Call.bind_ok hbegin]
        dsimp only
        rw [Call.bind_ok (writeThread_eq _ r _), Call.bind_ok (writeThread_eq _ r _),
          Call.bind_ok (writeThread_eq _ r _), Call.bind_ok (writeThread_eq _ s _)]
        rfl
      case threads =>
        funext t
        rcases eq_or_ne t s with rfl | hts
        · simp [hne]
        · rcases eq_or_ne t r with rfl | htr
          · simp [hts]
          · simp [hts, htr]
      case queues => simp

/-! ## Receiving -/

theorem receive_refused {receiver : ThreadId} {endpoint : ℕ} {error : IpcError}
    (h : ipc.ensureRunnable receiver = .error error) :
    receive receiver endpoint ipc = some (.error error, ipc) :=
  Call.bind_error (Call.reads_error h)

theorem receive_badEndpoint {endpoint : ℕ} (hr : (ipc.threadAt r).state = .runnable)
    (he : ENDPOINTS ≤ endpoint) :
    receive r endpoint ipc = some (.error .badEndpoint, ipc) := by
  rw [receive, Call.bind_ok (Call.reads_ok (ensureRunnable_ok hr))]
  refine Call.bind_error ?_
  rw [withSenders, dif_neg (by omega)]

/-- With no sender waiting, the receiver parks. -/
theorem receive_parks (hr : (ipc.threadAt r).state = .runnable)
    (hempty : (ipc.queueAt (.senders e)).len = 0) {queue : Queue THREADS}
    (hpush : Queue.push r (ipc.queueAt (.receivers e)) = some (.ok (), queue)) :
    Leaves (receive r e ipc) (.ok .blocked)
      (Function.update ipc.threadAt r { ipc.threadAt r with state := .receiving e })
      (Function.update ipc.queueAt (.receivers e) queue) := by
  refine ⟨?_, ?eval, ?threads, ?queues⟩
  case eval =>
    rw [receive, Call.bind_ok (Call.reads_ok (ensureRunnable_ok hr)),
      Call.bind_ok (withSenders_eq (Queue.pop_empty hempty))]
    dsimp only
    rw [Call.bind_ok (writeThread_eq _ r _), Call.bind_ok (withReceivers_eq
      (by rw [queueAt_setThread, queueAt_setQueue, Function.update_eq_self, hpush]))]
    rfl
  case threads => simp
  case queues => simp

/-- A waiting sender is met; its call flag decides whether it now waits for a reply. -/
theorem receive_meets (hr : (ipc.threadAt r).state = .runnable) (hne : s ≠ r)
    {queue : Queue THREADS}
    (hpop : Queue.pop (ipc.queueAt (.senders e)) = some (.ok (some s.val), queue)) :
    Leaves (receive r e ipc) (.ok (.delivered s))
      (Function.update
        (Function.update ipc.threadAt s { ipc.threadAt s with
          state := if (ipc.threadAt s).isCall then .replyBlocked r else .runnable })
        r { ipc.threadAt r with
          inbox := some (ipc.threadAt s).outgoing
          replyTarget :=
            if (ipc.threadAt s).isCall then some s else (ipc.threadAt r).replyTarget })
      (Function.update ipc.queueAt (.senders e) queue) := by
  -- up to the branch on the call flag the two cases are one computation
  have hbegin : receive r e ipc = _ :=
    (Call.bind_ok (Call.reads_ok (ensureRunnable_ok hr))).trans
      (Call.bind_ok (withSenders_eq hpop))
  dsimp only at hbegin
  rw [Call.bind_ok (readThread_eq _ s), threadAt_setQueue] at hbegin
  cases hcall : (ipc.threadAt s).isCall with
  | false =>
      refine ⟨?_, ?eval, ?threads, ?queues⟩
      case eval =>
        rw [hbegin, if_neg (by simp [hcall]), Call.bind_ok (writeThread_eq _ s _),
          Call.bind_ok (writeThread_eq _ r _)]
        rfl
      case threads => simp [hne.symm]
      case queues => simp
  | true =>
      refine ⟨?_, ?eval, ?threads, ?queues⟩
      case eval =>
        rw [hbegin, if_pos hcall, Call.bind_ok (writeThread_eq _ s _),
          Call.bind_ok (writeThread_eq _ r _), Call.bind_ok (writeThread_eq _ r _)]
        rfl
      case threads => simp [hne.symm]
      case queues => simp

/-! ## Replying -/

theorem reply_refused {server : ThreadId} {m : Message} {error : IpcError}
    (h : ipc.ensureRunnable server = .error error) :
    reply server m ipc = some (.error error, ipc) :=
  Call.bind_error (Call.reads_error h)

/-- The target that is taken was not there, so nothing changes. -/
theorem reply_unanswerable (m : Message) (hs : (ipc.threadAt s).state = .runnable)
    (htarget : (ipc.threadAt s).replyTarget = none) :
    reply s m ipc = some (.error .noReplyTarget, ipc) := by
  have hsame : ipc.setThread s { ipc.threadAt s with replyTarget := none } = ipc := by
    refine ext_cells ?_ (queueAt_setThread ..)
    rw [threadAt_setThread, ← htarget]
    exact Function.update_eq_self ..
  rw [reply, Call.bind_ok (Call.reads_ok (ensureRunnable_ok hs)),
    Call.bind_ok (Call.reads_ok (ipc.getThread_coe s)), Call.bind_ok (writeThread_eq _ s _),
    htarget, hsame]
  rfl

/-- The thread that may be answered waits for the answer. -/
theorem reply_answers {c : Fin THREADS} (m : Message) (hs : (ipc.threadAt s).state = .runnable)
    (htarget : (ipc.threadAt s).replyTarget = some c.val)
    (hstate : (ipc.threadAt c).state = .replyBlocked s) :
    Leaves (reply s m ipc) (.ok (.delivered c))
      (Function.update
        (Function.update ipc.threadAt s { ipc.threadAt s with replyTarget := none })
        c { ipc.threadAt c with inbox := some m, state := .runnable })
      ipc.queueAt := by
  have hne : c ≠ s := by
    rintro rfl
    rw [hs] at hstate
    cases hstate
  refine ⟨?_, ?eval, ?threads, ?queues⟩
  case eval =>
    rw [reply, Call.bind_ok (Call.reads_ok (ensureRunnable_ok hs)),
      Call.bind_ok (Call.reads_ok (ipc.getThread_coe s)), Call.bind_ok (writeThread_eq _ s _),
      htarget]
    dsimp only
    rw [Call.bind_ok (readThread_eq _ c), threadAt_setThread, Function.update_of_ne hne, hstate,
      if_neg (by simp), Call.bind_ok (writeThread_eq _ c _), Call.bind_ok (writeThread_eq _ c _)]
    rfl
  case threads => simp [hne]
  case queues => simp

end RendezvousIpc

end Aegis.Ipc
