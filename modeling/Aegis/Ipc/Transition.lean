import Mathlib
import Aegis.Foundation.Rendezvous
import Aegis.Ipc.Model

/-!
# What an IPC operation can do

The abstract state of rendezvous IPC is a `Rendezvous` of the threads and endpoints
in range.  `Transition` lists what one operation can do to it: be refused, read,
empty an inbox, park a thread in a line, let a sender and a receiver meet, or
answer a caller.  Every property of runs is proved by cases on it.
-/

namespace Aegis.Ipc

open Foundation Foundation.Rendezvous

/-- The abstract state: a coherent rendezvous of the threads and endpoints in
range. -/
abbrev IpcSpec (THREADS ENDPOINTS : ℕ) := Rendezvous (Fin THREADS) (Fin ENDPOINTS) Message

/-- `call` or `send`. -/
def IpcOp.transmit (isCall : Bool) (sender : ThreadId) (endpoint : ℕ) (message : Message) :
    IpcOp :=
  if isCall then .call sender endpoint message else .send sender endpoint message

theorem IpcOp.transmit_inj {isCall isCall' : Bool} {sender sender' : ThreadId}
    {endpoint endpoint' : ℕ} {m m' : Message}
    (h : transmit isCall sender endpoint m = transmit isCall' sender' endpoint' m') :
    isCall = isCall' ∧ sender = sender' ∧ endpoint = endpoint' ∧ m = m' := by
  cases isCall <;> cases isCall' <;> simp_all [transmit]

theorem IpcOp.transmit_ne_receive {isCall : Bool} {sender receiver : ThreadId}
    {endpoint endpoint' : ℕ} {m : Message} :
    transmit isCall sender endpoint m ≠ .receive receiver endpoint' := by
  cases isCall <;> exact nofun

theorem IpcOp.transmit_ne_reply {isCall : Bool} {sender server : ThreadId} {endpoint : ℕ}
    {m m' : Message} : transmit isCall sender endpoint m ≠ .reply server m' := by
  cases isCall <;> exact nofun

/-- The thread that issues an IPC operation. -/
def IpcOp.issuer : IpcOp → Option ThreadId
  | .send sender _ _ => some sender
  | .call caller _ _ => some caller
  | .receive receiver _ => some receiver
  | .reply server _ => some server
  | .takeMessage _ | .state _ => none

/-- The endpoint that an operation names. -/
def IpcOp.endpoint : IpcOp → Option ℕ
  | .send _ endpoint _ | .call _ endpoint _ | .receive _ endpoint => some endpoint
  | .reply _ _ | .takeMessage _ | .state _ => none

/-- The state of a thread, as the kernel reports it. -/
def toState {THREADS ENDPOINTS : ℕ} :
    Status (Fin THREADS) (Fin ENDPOINTS) Message → ThreadState
  | .runnable => .runnable
  | .sending e _ _ => .sending e
  | .receiving e => .receiving e
  | .replyBlocked s => .replyBlocked s

namespace IpcSpec

variable {THREADS ENDPOINTS : ℕ}

/-- The state the kernel reports of a thread number. -/
def reported (a : IpcSpec THREADS ENDPOINTS) (thread : ThreadId) : Option ThreadState :=
  if h : thread < THREADS then some (toState (a.status ⟨thread, h⟩)) else none

/-- A runnable sender joins the senders of an endpoint where nobody receives. -/
def parkSender (a : IpcSpec THREADS ENDPOINTS) {s : Fin THREADS} {e : Fin ENDPOINTS}
    (m : Message) (isCall : Bool) (hs : a.status s = .runnable)
    (hq : a.queue (.receivers e) = []) : IpcSpec THREADS ENDPOINTS :=
  a.park s (.sending e m isCall) (.senders e) hs rfl hq

/-- A runnable receiver joins the receivers of an endpoint where nobody sends. -/
def parkReceiver (a : IpcSpec THREADS ENDPOINTS) {r : Fin THREADS} {e : Fin ENDPOINTS}
    (hr : a.status r = .runnable) (hq : a.queue (.senders e) = []) :
    IpcSpec THREADS ENDPOINTS :=
  a.park r (.receiving e) (.receivers e) hr rfl hq

/-- A runnable sender meets the first waiting receiver. -/
def meetReceiver (a : IpcSpec THREADS ENDPOINTS) {s r : Fin THREADS} {e : Fin ENDPOINTS}
    {rest : List (Fin THREADS)} (m : Message) (isCall : Bool) (hs : a.status s = .runnable)
    (hq : a.queue (.receivers e) = r :: rest) : IpcSpec THREADS ENDPOINTS :=
  a.meet s r e m isCall (.inl hs) (.inr (by rw [a.receiving_of_queue hq]; rfl)) (by
    rintro rfl
    rw [a.receiving_of_queue hq] at hs
    cases hs)

/-- A runnable receiver meets the first waiting sender. -/
def meetSender (a : IpcSpec THREADS ENDPOINTS) {s r : Fin THREADS} {e : Fin ENDPOINTS}
    {m : Message} {isCall : Bool} (hr : a.status r = .runnable)
    (hs : a.status s = .sending e m isCall) : IpcSpec THREADS ENDPOINTS :=
  a.meet s r e m isCall (.inr (by rw [hs]; rfl)) (.inl hr) (by
    rintro rfl
    rw [hs] at hr
    cases hr)

/-- A runnable sender is not the receiver it meets. -/
theorem ne_of_receiver (a : IpcSpec THREADS ENDPOINTS) {s r : Fin THREADS} {e : Fin ENDPOINTS}
    {rest : List (Fin THREADS)} (hs : a.status s = .runnable)
    (hq : a.queue (.receivers e) = r :: rest) : s ≠ r := by
  rintro rfl
  rw [a.receiving_of_queue hq] at hs
  cases hs

/-- A runnable receiver is not the sender it meets. -/
theorem ne_of_sender (a : IpcSpec THREADS ENDPOINTS) {s r : Fin THREADS} {e : Fin ENDPOINTS}
    {m : Message} {isCall : Bool} (hr : a.status r = .runnable)
    (hs : a.status s = .sending e m isCall) : s ≠ r := by
  rintro rfl
  rw [hs] at hr
  cases hr

section Fields

variable {a : IpcSpec THREADS ENDPOINTS} {s r : Fin THREADS} {e : Fin ENDPOINTS}
  {rest : List (Fin THREADS)} {m : Message} {isCall : Bool}

@[simp] theorem parkSender_status (hs : a.status s = .runnable)
    (hq : a.queue (.receivers e) = []) :
    (a.parkSender m isCall hs hq).status =
      Function.update a.status s (.sending e m isCall) := rfl

@[simp] theorem parkSender_queue (hs : a.status s = .runnable)
    (hq : a.queue (.receivers e) = []) :
    (a.parkSender m isCall hs hq).queue =
      Function.update a.queue (.senders e) (a.queue (.senders e) ++ [s]) := rfl

@[simp] theorem parkReceiver_status (hr : a.status r = .runnable)
    (hq : a.queue (.senders e) = []) :
    (a.parkReceiver hr hq).status = Function.update a.status r (.receiving e) := rfl

@[simp] theorem parkReceiver_queue (hr : a.status r = .runnable)
    (hq : a.queue (.senders e) = []) :
    (a.parkReceiver hr hq).queue =
      Function.update a.queue (.receivers e) (a.queue (.receivers e) ++ [r]) := rfl

@[simp] theorem meetReceiver_queue (hs : a.status s = .runnable)
    (hq : a.queue (.receivers e) = r :: rest) :
    (a.meetReceiver m isCall hs hq).queue = Function.update a.queue (.receivers e) rest :=
  meet_queue_of_receiver hq

theorem meetSender_queue (hr : a.status r = .runnable) (hs : a.status s = .sending e m isCall)
    (hq : a.queue (.senders e) = s :: rest) :
    (a.meetSender hr hs).queue = Function.update a.queue (.senders e) rest :=
  meet_queue_of_sender hq

end Fields

/-- **What an operation can do**, and what it returns. -/
inductive Transition (a : IpcSpec THREADS ENDPOINTS) :
    IpcOp → IpcResult → IpcSpec THREADS ENDPOINTS → Prop
  | rejected {op : IpcOp} {e : IpcError} (notFull : e ≠ .queueFull) :
      Transition a op (.outcome (.error e)) a
  | observed (thread : ThreadId) :
      Transition a (.state thread) (.state (a.reported thread)) a
  | absent {thread : ThreadId} (h : THREADS ≤ thread) :
      Transition a (.takeMessage thread) (.message none) a
  | taken (t : Fin THREADS) : Transition a (.takeMessage t) (.message (a.inbox t)) (a.take t)
  | parkedSender {s : Fin THREADS} {e : Fin ENDPOINTS} (m : Message) (isCall : Bool)
      (hs : a.status s = .runnable) (hq : a.queue (.receivers e) = []) :
      Transition a (.transmit isCall s e m) (.outcome (.ok .blocked))
        (a.parkSender m isCall hs hq)
  | metReceiver {s r : Fin THREADS} {e : Fin ENDPOINTS} {rest : List (Fin THREADS)}
      (m : Message) (isCall : Bool) (hs : a.status s = .runnable)
      (hq : a.queue (.receivers e) = r :: rest) :
      Transition a (.transmit isCall s e m) (.outcome (.ok (.delivered r)))
        (a.meetReceiver m isCall hs hq)
  | parkedReceiver {r : Fin THREADS} {e : Fin ENDPOINTS} (hr : a.status r = .runnable)
      (hq : a.queue (.senders e) = []) :
      Transition a (.receive r e) (.outcome (.ok .blocked)) (a.parkReceiver hr hq)
  | metSender {s r : Fin THREADS} {e : Fin ENDPOINTS} {rest : List (Fin THREADS)} {m : Message}
      {isCall : Bool} (hr : a.status r = .runnable) (hq : a.queue (.senders e) = s :: rest)
      (hs : a.status s = .sending e m isCall) :
      Transition a (.receive r e) (.outcome (.ok (.delivered s))) (a.meetSender hr hs)
  | answered {s c : Fin THREADS} (m : Message) (hs : a.status s = .runnable)
      (hc : a.replyTarget s = some c) :
      Transition a (.reply s m) (.outcome (.ok (.delivered c))) (a.answer s c m hc)

section

variable {a a' : IpcSpec THREADS ENDPOINTS} {op : IpcOp} {r : IpcResult}

/-- A thread that is in a line before and after a step has not changed. -/
theorem Transition.status_of_line (h : a.Transition op r a') {t : Fin THREADS}
    {k k' : Line (Fin ENDPOINTS)}
    (before : (a.status t).line = some k) (after : (a'.status t).line = some k') :
    a'.status t = a.status t := by
  have moved : ∀ {u : Fin THREADS} {st : Status (Fin THREADS) (Fin ENDPOINTS) Message},
      (a.status u).line = none → Function.update a.status u st t = a.status t := by
    intro u st hu
    refine Function.update_of_ne ?_ _ _
    rintro rfl
    rw [hu] at before
    cases before
  cases h with
  | rejected => rfl
  | observed => rfl
  | absent => rfl
  | taken => rfl
  | parkedSender m isCall hs hq => exact moved (by rw [hs]; rfl)
  | parkedReceiver hr hq => exact moved (by rw [hr]; rfl)
  | answered m hs hc => exact moved (by rw [a.reply_blocked _ _ hc]; rfl)
  | metReceiver m isCall hs hq => exact meet_status_of_line after
  | metSender hr hq hs => exact meet_status_of_line after

/-- A thread that is sending after a step was sending before, or has just parked. -/
theorem Transition.sending_cases (h : a.Transition op r a') {t : Fin THREADS}
    {e : Fin ENDPOINTS} {m : Message} {isCall : Bool} (ht : a'.status t = .sending e m isCall) :
    a.status t = .sending e m isCall ∨
      op = .transmit isCall t e m ∧ r = .outcome (.ok .blocked) := by
  have kept : ∀ {u : Fin THREADS} {st : Status (Fin THREADS) (Fin ENDPOINTS) Message},
      Function.update a.status u st t = .sending e m isCall → st ≠ .sending e m isCall →
        a.status t = .sending e m isCall := by
    intro u st hst hne
    rcases eq_or_ne t u with rfl | hu
    · rw [Function.update_self] at hst
      exact absurd hst hne
    · rwa [Function.update_of_ne hu] at hst
  have hline : (a'.status t).line = some (.senders e) := by
    rw [ht]
    rfl
  cases h with
  | rejected => exact .inl ht
  | observed => exact .inl ht
  | absent => exact .inl ht
  | taken => exact .inl ht
  | @parkedSender s e' m' isCall' hs hq =>
      rw [parkSender_status] at ht
      rcases eq_or_ne t s with rfl | hts
      · rw [Function.update_self, Status.sending.injEq] at ht
        obtain ⟨rfl, rfl, rfl⟩ := ht
        exact .inr ⟨rfl, rfl⟩
      · rw [Function.update_of_ne hts] at ht
        exact .inl ht
  | parkedReceiver hr hq => exact .inl (kept ht nofun)
  | answered m hs hc => exact .inl (kept ht nofun)
  | metReceiver m isCall hs hq => exact .inl ((meet_status_of_line hline).symm.trans ht)
  | metSender hr hq hs => exact .inl ((meet_status_of_line hline).symm.trans ht)

/-- A `send` or `call` that blocks leaves its thread sending. -/
theorem Transition.of_blocked (h : a.Transition op r a') {t : Fin THREADS} {e : Fin ENDPOINTS}
    {m : Message} {isCall : Bool} (hop : op = .transmit isCall t e m)
    (hr : r = .outcome (.ok .blocked)) : a'.status t = .sending e m isCall := by
  cases h with
  | @parkedSender s e' m' isCall' hs hq =>
      obtain ⟨rfl, hst, hee, rfl⟩ := IpcOp.transmit_inj hop
      obtain rfl : s = t := Fin.ext hst
      obtain rfl : e' = e := Fin.ext hee
      rw [parkSender_status, Function.update_self]
  | parkedReceiver => exact absurd hop.symm IpcOp.transmit_ne_receive
  | rejected => cases hr
  | observed => cases hr
  | absent => cases hr
  | taken => cases hr
  | metReceiver => cases hr
  | metSender => cases hr
  | answered => cases hr

/-- A `send` or `call` that delivers meets the first receiver. -/
theorem Transition.of_transmit_delivered (h : a.Transition op r a') {isCall : Bool}
    {sender peer : ThreadId} {endpoint : ℕ} {m : Message}
    (hop : op = .transmit isCall sender endpoint m) (hr : r = .outcome (.ok (.delivered peer))) :
    ∃ (s t : Fin THREADS) (e : Fin ENDPOINTS) (rest : List (Fin THREADS)), sender = s ∧
      peer = t ∧ endpoint = e ∧ a.status s = .runnable ∧ a.queue (.receivers e) = t :: rest := by
  cases h with
  | @metReceiver s t e rest m' isCall' hs hq =>
      obtain ⟨-, rfl, rfl, -⟩ := IpcOp.transmit_inj hop
      cases hr
      exact ⟨s, t, e, rest, rfl, rfl, rfl, hs, hq⟩
  | metSender => exact absurd hop.symm IpcOp.transmit_ne_receive
  | answered => exact absurd hop.symm IpcOp.transmit_ne_reply
  | rejected => cases hr
  | observed => cases hr
  | absent => cases hr
  | taken => cases hr
  | parkedSender => cases hr
  | parkedReceiver => cases hr

/-- A `receive` that delivers meets the first sender. -/
theorem Transition.of_receive_delivered (h : a.Transition op r a') {receiver peer : ThreadId}
    {endpoint : ℕ} (hop : op = .receive receiver endpoint)
    (hr : r = .outcome (.ok (.delivered peer))) :
    ∃ (s t : Fin THREADS) (e : Fin ENDPOINTS) (rest : List (Fin THREADS)) (m : Message)
      (isCall : Bool), receiver = t ∧ peer = s ∧ endpoint = e ∧ a.status t = .runnable ∧
        a.queue (.senders e) = s :: rest ∧ a.status s = .sending e m isCall := by
  cases h with
  | @metSender s t e rest m isCall ht hq hs =>
      cases hop
      cases hr
      exact ⟨s, t, e, rest, m, isCall, rfl, rfl, rfl, ht, hq, hs⟩
  | metReceiver => exact absurd hop IpcOp.transmit_ne_receive
  | parkedSender => exact absurd hop IpcOp.transmit_ne_receive
  | answered => cases hop
  | rejected => cases hr
  | observed => cases hr
  | absent => cases hr
  | taken => cases hr
  | parkedReceiver => cases hr

/-- A reply that succeeds answers the reply target. -/
theorem Transition.of_reply (h : a.Transition op r a') {server : ThreadId} {m : Message}
    {outcome : IpcOutcome} (hop : op = .reply server m) (hr : r = .outcome (.ok outcome)) :
    ∃ (s c : Fin THREADS) (hc : a.replyTarget s = some c), server = s ∧
      outcome = .delivered c ∧ a' = a.answer s c m hc := by
  cases h with
  | @answered s c m' hs hc =>
      cases hop
      cases hr
      exact ⟨s, c, hc, rfl, rfl, rfl⟩
  | parkedSender => exact absurd hop IpcOp.transmit_ne_reply
  | metReceiver => exact absurd hop IpcOp.transmit_ne_reply
  | rejected => cases hr
  | observed => cases hr
  | absent => cases hr
  | taken => cases hr
  | parkedReceiver => cases hop
  | metSender => cases hop

/-- An inbox is left alone, taken, or filled by a reply, a `send` or `call`, or a
`receive`. -/
theorem Transition.inbox_cases (h : a.Transition op r a') (t : Fin THREADS) :
    a'.inbox t = a.inbox t ∨ (op = .takeMessage t ∧ a'.inbox t = none) ∨
      (∃ server m, op = .reply server m ∧ r = .outcome (.ok (.delivered t)) ∧
        a'.inbox t = some m) ∨
      (∃ isCall sender m, ∃ e : Fin ENDPOINTS, op = .transmit isCall sender e m ∧
        r = .outcome (.ok (.delivered t))) ∨
      ∃ peer, ∃ e : Fin ENDPOINTS, op = .receive t e ∧ r = .outcome (.ok (.delivered peer)) := by
  cases h with
  | rejected => exact .inl rfl
  | observed => exact .inl rfl
  | absent => exact .inl rfl
  | parkedSender => exact .inl rfl
  | parkedReceiver => exact .inl rfl
  | taken u =>
      rcases eq_or_ne t u with rfl | htu
      · exact .inr (.inl ⟨rfl, Function.update_self ..⟩)
      · exact .inl (Function.update_of_ne htu ..)
  | @answered s c m hs hc =>
      rcases eq_or_ne t c with rfl | htc
      · exact .inr (.inr (.inl ⟨s, m, rfl, rfl, Function.update_self ..⟩))
      · exact .inl (Function.update_of_ne htc ..)
  | @metReceiver s u e rest m isCall hs hq =>
      rcases eq_or_ne t u with rfl | htu
      · exact .inr (.inr (.inr (.inl ⟨isCall, s, m, e, rfl, rfl⟩)))
      · exact .inl (Function.update_of_ne htu ..)
  | @metSender s u e rest m isCall hu hq hs =>
      rcases eq_or_ne t u with rfl | htu
      · exact .inr (.inr (.inr (.inr ⟨s, e, rfl, rfl⟩)))
      · exact .inl (Function.update_of_ne htu ..)

end

end IpcSpec

end Aegis.Ipc
