import Mathlib
import Aegis.Foundation.History
import Aegis.Foundation.Matching
import Aegis.Ipc.Refinement

/-!
# Exactly-once delivery, first in, first out

At each endpoint the accepted sends and calls form one stream and the accepted
receives another, and the kernel matches the two streams in order.  `sends` and
`receipts` read the streams off the history of a run; the pairs made so far are
their `zip`, and what is left over on one side is what waits in the queue there.

`Ledger` is the invariant that ties the streams to the abstract state at one
endpoint.  `Ledger.extend` says what a step has to provide for the ledger to be
kept; the five ways in which a step can touch an endpoint each provide it.
-/

namespace Aegis.Ipc

open Foundation Foundation.Rendezvous

variable {THREADS ENDPOINTS : ℕ}

/-! ## The streams of an endpoint -/

/-- An accepted `send` or `call`. -/
structure Sent where
  time : ℕ
  sender : ThreadId
  message : Message

/-- An accepted `receive`. -/
structure Receipt where
  time : ℕ
  receiver : ThreadId

/-- The event as an accepted `send` or `call` on an endpoint. -/
def sentOn (e : ℕ) (time : ℕ) (ev : IpcEvent THREADS ENDPOINTS) : Option Sent :=
  match ev.op, ev.result with
  | .send sender endpoint message, .outcome (.ok _) =>
      if endpoint = e then some ⟨time, sender, message⟩ else none
  | .call caller endpoint message, .outcome (.ok _) =>
      if endpoint = e then some ⟨time, caller, message⟩ else none
  | _, _ => none

/-- The event as an accepted `receive` on an endpoint. -/
def receivedOn (e : ℕ) (time : ℕ) (ev : IpcEvent THREADS ENDPOINTS) : Option Receipt :=
  match ev.op, ev.result with
  | .receive receiver endpoint, .outcome (.ok _) =>
      if endpoint = e then some ⟨time, receiver⟩ else none
  | _, _ => none

/-- The accepted sends and calls on an endpoint, in order. -/
def sends (e : ℕ) (es : List (IpcEvent THREADS ENDPOINTS)) : List Sent :=
  stamped (sentOn e) es

/-- The accepted receives on an endpoint, in order. -/
def receipts (e : ℕ) (es : List (IpcEvent THREADS ENDPOINTS)) : List Receipt :=
  stamped (receivedOn e) es

/-- The event delivers a message at an endpoint. -/
def DeliversOn (e : ℕ) (ev : IpcEvent THREADS ENDPOINTS) : Prop :=
  (∃ peer, ev.result = .outcome (.ok (.delivered peer))) ∧
    ((∃ sender message, ev.op = .send sender e message) ∨
      (∃ caller message, ev.op = .call caller e message) ∨
      ∃ receiver, ev.op = .receive receiver e)

theorem sentOn_time {e i : ℕ} {ev : IpcEvent THREADS ENDPOINTS} {s : Sent}
    (h : sentOn e i ev = some s) : s.time = i := by
  unfold sentOn at h
  split at h
  · split at h
    · cases h
      rfl
    · cases h
  · split at h
    · cases h
      rfl
    · cases h
  · cases h

theorem receivedOn_time {e i : ℕ} {ev : IpcEvent THREADS ENDPOINTS} {r : Receipt}
    (h : receivedOn e i ev = some r) : r.time = i := by
  unfold receivedOn at h
  split at h
  · split at h
    · cases h
      rfl
    · cases h
  · cases h

section Streams

variable {e : ℕ} {es : List (IpcEvent THREADS ENDPOINTS)} {ev : IpcEvent THREADS ENDPOINTS}

theorem sends_snoc_none (h : sentOn e es.length ev = none) :
    sends e (es ++ [ev]) = sends e es :=
  stamped_snoc_none h

theorem sends_snoc_some {s : Sent} (h : sentOn e es.length ev = some s) :
    sends e (es ++ [ev]) = sends e es ++ [s] :=
  stamped_snoc_some h

theorem receipts_snoc_none (h : receivedOn e es.length ev = none) :
    receipts e (es ++ [ev]) = receipts e es :=
  stamped_snoc_none h

theorem receipts_snoc_some {r : Receipt} (h : receivedOn e es.length ev = some r) :
    receipts e (es ++ [ev]) = receipts e es ++ [r] :=
  stamped_snoc_some h

theorem sent_before {s : Sent} (h : s ∈ sends e es) : s.time < es.length :=
  time_lt_length (fun _ _ _ => sentOn_time) h

theorem received_before {r : Receipt} (h : r ∈ receipts e es) : r.time < es.length :=
  time_lt_length (fun _ _ _ => receivedOn_time) h

end Streams

/-- The exchange of a send and a receive, at the later of the two operations: it
reports the other party, the receiver's inbox becomes exactly the message sent, and
no other inbox changes.  Both threads have left the queue. -/
def Exchange (es : List (IpcEvent THREADS ENDPOINTS)) (s : Sent) (r : Receipt) : Prop :=
  At es (max s.time r.time) fun ev =>
    ev.result = .outcome (.ok (.delivered (if s.time < r.time then s.sender else r.receiver))) ∧
      ev.after.inbox r.receiver = some s.message ∧
      (∀ thread ≠ r.receiver, ev.after.inbox thread = ev.before.inbox thread) ∧
      ev.after.state r.receiver = some .runnable ∧
      (ev.after.state s.sender = some .runnable ∨
        ev.after.state s.sender = some (.replyBlocked r.receiver))

/-! ## The ledger of an endpoint -/

/-- A send without a partner: its thread holds the message and has been sending ever
since. -/
def Parked (es : List (IpcEvent THREADS ENDPOINTS)) (a : IpcSpec THREADS ENDPOINTS)
    (e : Fin ENDPOINTS) (s : Sent) : Prop :=
  (∃ t : Fin THREADS, s.sender = t ∧ ∃ isCall, a.status t = .sending e s.message isCall) ∧
    Since es s.time fun ipc => ipc.state s.sender = some (.sending e)

/-- A receive without a partner: its thread has been receiving ever since. -/
def Listening (es : List (IpcEvent THREADS ENDPOINTS)) (e : Fin ENDPOINTS) (r : Receipt) :
    Prop :=
  Since es r.time fun ipc => ipc.state r.receiver = some (.receiving e)

/-- What the streams of an endpoint have to do with its queues: what has no partner
waits there, and what has a partner has been exchanged with it. -/
structure Ledger (es : List (IpcEvent THREADS ENDPOINTS)) (a : IpcSpec THREADS ENDPOINTS)
    (e : Fin ENDPOINTS) : Prop where
  senders : (a.queue (.senders e)).map Fin.val =
    ((sends e es).drop (receipts e es).length).map Sent.sender
  receivers : (a.queue (.receivers e)).map Fin.val =
    ((receipts e es).drop (sends e es).length).map Receipt.receiver
  parked : ∀ s ∈ (sends e es).drop (receipts e es).length, Parked es a e s
  listening : ∀ r ∈ (receipts e es).drop (sends e es).length, Listening es e r
  exchanged : ∀ p ∈ (sends e es).zip (receipts e es), Exchange es p.1 p.2
  delivered : ∀ k, At es k (DeliversOn e) →
    ∃ p ∈ (sends e es).zip (receipts e es), max p.1.time p.2.time = k

section Step

variable {es : List (IpcEvent THREADS ENDPOINTS)} {a a' : IpcSpec THREADS ENDPOINTS}
  {e : Fin ENDPOINTS} {op : IpcOp} {r : IpcResult} {ipc ipc' : RendezvousIpc THREADS ENDPOINTS}

theorem Exchange.snoc {s : Sent} {t : Receipt} {ev : IpcEvent THREADS ENDPOINTS}
    (h : Exchange es s t) : Exchange (es ++ [ev]) s t :=
  At.snoc h

theorem Parked.snoc {s : Sent} (h : Parked es a e s) (htrans : a.Transition op r a')
    (ref' : Refines ipc' a')
    (still : s.sender ∈ (a'.queue (.senders e)).map Fin.val) :
    Parked (es ++ [⟨ipc, op, r, ipc'⟩]) a' e s := by
  obtain ⟨⟨t, ht, isCall, hstatus⟩, hsince⟩ := h
  obtain ⟨u, hu, hut⟩ := List.mem_map.mp still
  obtain rfl : u = t := Fin.ext (hut.trans ht)
  have hline := (a'.waiting.mem u _).mp hu
  have hsame := htrans.status_of_line (by rw [hstatus]; rfl) hline
  refine ⟨⟨u, ht, isCall, hsame.trans hstatus⟩, hsince.snoc ?_⟩
  rw [ht, ref'.state_coe]
  exact congrArg some (toState_eq_sending.mpr hline)

theorem Listening.snoc {t : Receipt} (h : Listening es e t) (ref' : Refines ipc' a')
    (still : t.receiver ∈ (a'.queue (.receivers e)).map Fin.val) :
    Listening (es ++ [⟨ipc, op, r, ipc'⟩]) e t := by
  obtain ⟨u, hu, hut⟩ := List.mem_map.mp still
  refine Since.snoc h ?_
  rw [← hut, ref'.state_coe]
  exact congrArg some (toState_eq_receiving.mpr ((a'.waiting.mem u _).mp hu))

/-- **What keeps a ledger.**  The streams after the step have to agree with the
queues; whoever waits either waited before or has just parked; and pairs are only
added, by an exchange at this step. -/
theorem Ledger.extend (ledger : Ledger es a e) (htrans : a.Transition op r a')
    (ref' : Refines ipc' a') {ss : List Sent} {rs : List Receipt}
    (hss : sends e (es ++ [⟨ipc, op, r, ipc'⟩]) = ss)
    (hrs : receipts e (es ++ [⟨ipc, op, r, ipc'⟩]) = rs)
    (senders : (a'.queue (.senders e)).map Fin.val = (ss.drop rs.length).map Sent.sender)
    (receivers : (a'.queue (.receivers e)).map Fin.val =
      (rs.drop ss.length).map Receipt.receiver)
    (parked : ∀ s ∈ ss.drop rs.length, s ∈ (sends e es).drop (receipts e es).length ∨
      Parked (es ++ [⟨ipc, op, r, ipc'⟩]) a' e s)
    (listening : ∀ t ∈ rs.drop ss.length, t ∈ (receipts e es).drop (sends e es).length ∨
      Listening (es ++ [⟨ipc, op, r, ipc'⟩]) e t)
    (kept : ∀ p ∈ (sends e es).zip (receipts e es), p ∈ ss.zip rs)
    (exchanged : ∀ p ∈ ss.zip rs, p ∈ (sends e es).zip (receipts e es) ∨
      Exchange (es ++ [⟨ipc, op, r, ipc'⟩]) p.1 p.2)
    (delivered : DeliversOn e (⟨ipc, op, r, ipc'⟩ : IpcEvent THREADS ENDPOINTS) →
      ∃ p ∈ ss.zip rs, max p.1.time p.2.time = es.length) :
    Ledger (es ++ [⟨ipc, op, r, ipc'⟩]) a' e := by
  subst hss hrs
  refine ⟨senders, receivers, ?_, ?_, ?_, ?_⟩
  · intro s hs
    rcases parked s hs with hold | hnew
    · refine (ledger.parked s hold).snoc htrans ref' ?_
      rw [senders]
      exact List.mem_map_of_mem hs
    · exact hnew
  · intro t ht
    rcases listening t ht with hold | hnew
    · refine (ledger.listening t hold).snoc ref' ?_
      rw [receivers]
      exact List.mem_map_of_mem ht
    · exact hnew
  · intro p hp
    rcases exchanged p hp with hold | hnew
    · exact (ledger.exchanged p hold).snoc
    · exact hnew
  · intro k hk
    rcases hk.snoc_cases with hold | ⟨rfl, hnew⟩
    · obtain ⟨p, hp, hmax⟩ := ledger.delivered k hold
      exact ⟨p, kept p hp, hmax⟩
    · exact delivered hnew

/-- A step that leaves the queues of the endpoint alone and adds to neither stream
keeps the ledger. -/
theorem Ledger.quiet (ledger : Ledger es a e) (htrans : a.Transition op r a')
    (ref' : Refines ipc' a')
    (notSent : sentOn e es.length (⟨ipc, op, r, ipc'⟩ : IpcEvent THREADS ENDPOINTS) = none)
    (notReceived :
      receivedOn e es.length (⟨ipc, op, r, ipc'⟩ : IpcEvent THREADS ENDPOINTS) = none)
    (notDelivered : ¬ DeliversOn e (⟨ipc, op, r, ipc'⟩ : IpcEvent THREADS ENDPOINTS))
    (senders : a'.queue (.senders e) = a.queue (.senders e))
    (receivers : a'.queue (.receivers e) = a.queue (.receivers e)) :
    Ledger (es ++ [⟨ipc, op, r, ipc'⟩]) a' e :=
  ledger.extend htrans ref' (sends_snoc_none notSent) (receipts_snoc_none notReceived)
    (by rw [senders]; exact ledger.senders) (by rw [receivers]; exact ledger.receivers)
    (fun _ hs => .inl hs) (fun _ ht => .inl ht) (fun _ hp => hp) (fun _ hp => .inl hp)
    (fun h => absurd h notDelivered)

/-- A step that touches a line of another endpoint keeps the ledger. -/
theorem Ledger.elsewhere (ledger : Ledger es a e) (htrans : a.Transition op r a')
    (ref' : Refines ipc' a') {k : Line (Fin ENDPOINTS)} {l : List (Fin THREADS)}
    (hqueue : a'.queue = Function.update a.queue k l) (hsenders : .senders e ≠ k)
    (hreceivers : .receivers e ≠ k)
    (notSent : sentOn e es.length (⟨ipc, op, r, ipc'⟩ : IpcEvent THREADS ENDPOINTS) = none)
    (notReceived :
      receivedOn e es.length (⟨ipc, op, r, ipc'⟩ : IpcEvent THREADS ENDPOINTS) = none)
    (notDelivered : ¬ DeliversOn e (⟨ipc, op, r, ipc'⟩ : IpcEvent THREADS ENDPOINTS)) :
    Ledger (es ++ [⟨ipc, op, r, ipc'⟩]) a' e :=
  ledger.quiet htrans ref' notSent notReceived notDelivered
    (by rw [hqueue, Function.update_of_ne hsenders])
    (by rw [hqueue, Function.update_of_ne hreceivers])

/-- What a meeting does to inboxes and states. -/
theorem meet_observed (ref : Refines ipc a) {s r : Fin THREADS} {m : Message} {isCall : Bool}
    {hs : a.status s = .runnable ∨ (a.status s).line = some (.senders e)}
    {hr : a.status r = .runnable ∨ (a.status r).line = some (.receivers e)} {hne : s ≠ r}
    (ref' : Refines ipc' (a.meet s r e m isCall hs hr hne)) :
    ipc'.inbox r = some m ∧ (∀ thread ≠ r.val, ipc'.inbox thread = ipc.inbox thread) ∧
      ipc'.state r = some .runnable ∧
      (ipc'.state s = some .runnable ∨ ipc'.state s = some (.replyBlocked r)) := by
  refine ⟨?_, ?_, ?_, ?_⟩
  · rw [ref'.inbox_eq, meet_inbox, Function.update_self]
  · intro thread hthread
    refine ref.inbox_congr ref' fun t ht => ?_
    rw [meet_inbox, Function.update_of_ne]
    rintro rfl
    exact hthread ht
  · rw [ref'.state_coe, meet_status_receiver]
    rfl
  · rw [ref'.state_coe, meet_status, Function.update_self]
    cases isCall with
    | false => exact .inl rfl
    | true => exact .inr rfl

theorem sentOn_transmit (isCall : Bool) (sender : ThreadId) (endpoint : ℕ) (m : Message)
    (o : IpcOutcome) (time : ℕ) :
    sentOn e time (⟨ipc, .transmit isCall sender endpoint m, .outcome (.ok o), ipc'⟩ :
      IpcEvent THREADS ENDPOINTS) = if endpoint = e then some ⟨time, sender, m⟩ else none := by
  cases isCall <;> rfl

theorem receivedOn_transmit (isCall : Bool) (sender : ThreadId) (endpoint : ℕ) (m : Message)
    (time : ℕ) :
    receivedOn e time (⟨ipc, .transmit isCall sender endpoint m, r, ipc'⟩ :
      IpcEvent THREADS ENDPOINTS) = none := by
  cases isCall <;> rfl

/-- An operation that does not return `Delivered` delivers nothing. -/
theorem not_deliversOn (silent : ∀ peer, r ≠ .outcome (.ok (.delivered peer))) :
    ¬ DeliversOn e (⟨ipc, op, r, ipc'⟩ : IpcEvent THREADS ENDPOINTS) := by
  rintro ⟨⟨peer, hpeer⟩, -⟩
  exact silent peer hpeer

theorem deliversOn_transmit {isCall : Bool} {sender : ThreadId} {endpoint : ℕ} {m : Message}
    (h : DeliversOn e (⟨ipc, .transmit isCall sender endpoint m, r, ipc'⟩ :
      IpcEvent THREADS ENDPOINTS)) : endpoint = e := by
  obtain ⟨-, hop⟩ := h
  cases isCall with
  | false =>
      rcases hop with ⟨_, _, h⟩ | ⟨_, _, h⟩ | ⟨_, h⟩
      · cases h
        rfl
      · cases h
      · cases h
  | true =>
      rcases hop with ⟨_, _, h⟩ | ⟨_, _, h⟩ | ⟨_, h⟩
      · cases h
      · cases h
        rfl
      · cases h

theorem deliversOn_receive {receiver : ThreadId} {endpoint : ℕ}
    (h : DeliversOn e (⟨ipc, .receive receiver endpoint, r, ipc'⟩ :
      IpcEvent THREADS ENDPOINTS)) : endpoint = e := by
  obtain ⟨-, ⟨_, _, h⟩ | ⟨_, _, h⟩ | ⟨_, h⟩⟩ := h
  · cases h
  · cases h
  · injection h

theorem Ledger.nobody_listens (ledger : Ledger es a e) (h : a.queue (.receivers e) = []) :
    (receipts e es).drop (sends e es).length = [] := by
  have := ledger.receivers
  rw [h] at this
  exact List.map_eq_nil_iff.mp this.symm

theorem Ledger.first_listens (ledger : Ledger es a e) {t : Fin THREADS}
    {rest : List (Fin THREADS)} (h : a.queue (.receivers e) = t :: rest) :
    ∃ first others, (receipts e es).drop (sends e es).length = first :: others ∧
      first.receiver = t ∧ rest.map Fin.val = others.map Receipt.receiver := by
  have := ledger.receivers
  rw [h, List.map_cons] at this
  obtain ⟨first, others, hdrop, hfirst, hothers⟩ := List.map_eq_cons_iff.mp this.symm
  exact ⟨first, others, hdrop, hfirst, hothers.symm⟩

theorem Ledger.nobody_sends (ledger : Ledger es a e) (h : a.queue (.senders e) = []) :
    (sends e es).drop (receipts e es).length = [] := by
  have := ledger.senders
  rw [h] at this
  exact List.map_eq_nil_iff.mp this.symm

theorem Ledger.first_sends (ledger : Ledger es a e) {t : Fin THREADS}
    {rest : List (Fin THREADS)} (h : a.queue (.senders e) = t :: rest) :
    ∃ first others, (sends e es).drop (receipts e es).length = first :: others ∧
      first.sender = t ∧ rest.map Fin.val = others.map Sent.sender := by
  have := ledger.senders
  rw [h, List.map_cons] at this
  obtain ⟨first, others, hdrop, hfirst, hothers⟩ := List.map_eq_cons_iff.mp this.symm
  exact ⟨first, others, hdrop, hfirst, hothers.symm⟩

/-- A sender parks at the endpoint. -/
theorem Ledger.parkedSender (ledger : Ledger es a e) {s : Fin THREADS} {m : Message}
    {isCall : Bool} {hs : a.status s = .runnable} {hq : a.queue (.receivers e) = []}
    (ref' : Refines ipc' (a.parkSender m isCall hs hq)) :
    Ledger (es ++ [⟨ipc, .transmit isCall s e m, .outcome (.ok .blocked), ipc'⟩])
      (a.parkSender m isCall hs hq) e := by
  obtain ⟨hdrop, hnone, hzip⟩ :=
    waiting_concat (ledger.nobody_listens hq) (⟨es.length, s, m⟩ : Sent)
  have hstate : ipc'.state s = some (.sending e) := by
    rw [ref'.state_coe, IpcSpec.parkSender_status, Function.update_self]
    rfl
  refine ledger.extend (.parkedSender m isCall hs hq) ref'
    (sends_snoc_some (by rw [sentOn_transmit, if_pos rfl]))
    (receipts_snoc_none (receivedOn_transmit ..)) ?_ ?_ ?_ ?_ ?_ ?_ ?_
  · rw [IpcSpec.parkSender_queue, Function.update_self, hdrop, List.map_append, List.map_append,
      ledger.senders]
    rfl
  · rw [IpcSpec.parkSender_queue, Function.update_of_ne (by exact nofun), hq, hnone]
    rfl
  · rw [hdrop]
    intro x hx
    refine (List.mem_append.mp hx).imp id fun hx => ?_
    rw [List.mem_singleton.mp hx]
    refine ⟨⟨s, rfl, isCall, ?_⟩, since_length hstate⟩
    rw [IpcSpec.parkSender_status, Function.update_self]
  · rw [hnone]
    exact nofun
  · rw [hzip]
    exact fun p hp => hp
  · rw [hzip]
    exact fun p hp => .inl hp
  · exact fun h => absurd h (not_deliversOn nofun)

/-- A receiver parks at the endpoint. -/
theorem Ledger.parkedReceiver (ledger : Ledger es a e) {t : Fin THREADS}
    {ht : a.status t = .runnable} {hq : a.queue (.senders e) = []}
    (ref' : Refines ipc' (a.parkReceiver ht hq)) :
    Ledger (es ++ [⟨ipc, .receive t e, .outcome (.ok .blocked), ipc'⟩])
      (a.parkReceiver ht hq) e := by
  obtain ⟨hdrop, hnone, hzip⟩ :=
    waiting_concat (ledger.nobody_sends hq) (⟨es.length, t⟩ : Receipt)
  have hstate : ipc'.state t = some (.receiving e) := by
    rw [ref'.state_coe, IpcSpec.parkReceiver_status, Function.update_self]
    rfl
  -- `waiting_concat` is about the left stream; here the right one grows
  have hpairs : (sends e es).zip (receipts e es ++ [⟨es.length, t⟩]) =
      (sends e es).zip (receipts e es) := by
    rw [← List.zip_swap, hzip, List.zip_swap]
  refine ledger.extend (.parkedReceiver ht hq) ref' (sends_snoc_none rfl)
    (receipts_snoc_some (if_pos rfl)) ?_ ?_ ?_ ?_ ?_ ?_ ?_
  · rw [IpcSpec.parkReceiver_queue, Function.update_of_ne (by exact nofun), hq, hnone]
    rfl
  · rw [IpcSpec.parkReceiver_queue, Function.update_self, hdrop, List.map_append,
      List.map_append, ledger.receivers]
    rfl
  · rw [hnone]
    exact nofun
  · rw [hdrop]
    intro x hx
    refine (List.mem_append.mp hx).imp id fun hx => ?_
    rw [List.mem_singleton.mp hx]
    exact since_length hstate
  · rw [hpairs]
    exact fun p hp => hp
  · rw [hpairs]
    exact fun p hp => .inl hp
  · exact fun h => absurd h (not_deliversOn nofun)

/-- A sender meets the first waiting receiver. -/
theorem Ledger.metReceiver (ledger : Ledger es a e) (ref : Refines ipc a) {s t : Fin THREADS}
    {rest : List (Fin THREADS)} {m : Message} {isCall : Bool} {hs : a.status s = .runnable}
    {hq : a.queue (.receivers e) = t :: rest}
    (ref' : Refines ipc' (a.meetReceiver m isCall hs hq)) :
    Ledger (es ++ [⟨ipc, .transmit isCall s e m, .outcome (.ok (.delivered t)), ipc'⟩])
      (a.meetReceiver m isCall hs hq) e := by
  obtain ⟨first, others, hfirst, hreceiver, hothers⟩ := ledger.first_listens hq
  obtain ⟨hnone, hdrop, hzip⟩ := matched_concat hfirst (⟨es.length, s, m⟩ : Sent)
  have hbefore : first.time < es.length :=
    received_before (List.mem_of_mem_drop (by rw [hfirst]; exact List.mem_cons_self))
  have htime : max es.length first.time = es.length := max_eq_left hbefore.le
  refine ledger.extend (.metReceiver m isCall hs hq) ref'
    (sends_snoc_some (by rw [sentOn_transmit, if_pos rfl]))
    (receipts_snoc_none (receivedOn_transmit ..)) ?_ ?_ ?_ ?_ ?_ ?_ ?_
  · have hempty : a.queue (.senders e) = [] := a.opposite_eq_nil hq
    rw [IpcSpec.meetReceiver_queue, Function.update_of_ne (by exact nofun), hempty, hnone]
    rfl
  · rw [IpcSpec.meetReceiver_queue, Function.update_self, hdrop, hothers]
  · rw [hnone]
    exact nofun
  · rw [hdrop, hfirst]
    exact fun x hx => .inl (List.mem_cons_of_mem _ hx)
  · rw [hzip]
    exact fun p hp => List.mem_append_left _ hp
  · rw [hzip]
    intro p hp
    refine (List.mem_append.mp hp).imp id fun hp => ?_
    rw [List.mem_singleton.mp hp]
    show At _ (max es.length first.time) _
    rw [htime, hreceiver]
    refine at_length ⟨?_, meet_observed ref ref'⟩
    rw [if_neg (Nat.not_lt.mpr hbefore.le)]
  · intro _
    rw [hzip]
    exact ⟨_, List.mem_append_right _ (List.mem_singleton_self _), htime⟩

/-- A receiver meets the first waiting sender. -/
theorem Ledger.metSender (ledger : Ledger es a e) (ref : Refines ipc a) {s t : Fin THREADS}
    {rest : List (Fin THREADS)} {m : Message} {isCall : Bool} {ht : a.status t = .runnable}
    {hs : a.status s = .sending e m isCall} (hq : a.queue (.senders e) = s :: rest)
    (ref' : Refines ipc' (a.meetSender ht hs)) :
    Ledger (es ++ [⟨ipc, .receive t e, .outcome (.ok (.delivered s)), ipc'⟩])
      (a.meetSender ht hs) e := by
  obtain ⟨first, others, hfirst, hsender, hothers⟩ := ledger.first_sends hq
  have hmem : first ∈ (sends e es).drop (receipts e es).length := by
    rw [hfirst]
    exact List.mem_cons_self
  -- the message read from the sender's thread is the one its send was called with
  have hmessage : first.message = m := by
    obtain ⟨⟨u, hu, isCall', hstatus⟩, -⟩ := ledger.parked first hmem
    obtain rfl : u = s := Fin.ext (hu.symm.trans hsender)
    rw [hs, Status.sending.injEq] at hstatus
    exact hstatus.2.1.symm
  obtain ⟨hnone, hdrop, hzip⟩ := matched_concat hfirst (⟨es.length, t⟩ : Receipt)
  have hbefore : first.time < es.length := sent_before (List.mem_of_mem_drop hmem)
  have htime : max first.time es.length = es.length := max_eq_right hbefore.le
  have hpairs : (sends e es).zip (receipts e es ++ [⟨es.length, t⟩]) =
      (sends e es).zip (receipts e es) ++ [(first, ⟨es.length, t⟩)] := by
    rw [← List.zip_swap, hzip, List.map_append, List.zip_swap]
    rfl
  refine ledger.extend (.metSender ht hq hs) ref' (sends_snoc_none rfl)
    (receipts_snoc_some (if_pos rfl)) ?_ ?_ ?_ ?_ ?_ ?_ ?_
  · rw [IpcSpec.meetSender_queue ht hs hq, Function.update_self, hdrop, hothers]
  · have hempty : a.queue (.receivers e) = [] := a.opposite_eq_nil hq
    rw [IpcSpec.meetSender_queue ht hs hq, Function.update_of_ne (by exact nofun), hempty, hnone]
    rfl
  · rw [hdrop, hfirst]
    exact fun x hx => .inl (List.mem_cons_of_mem _ hx)
  · rw [hnone]
    exact nofun
  · rw [hpairs]
    exact fun p hp => List.mem_append_left _ hp
  · rw [hpairs]
    intro p hp
    refine (List.mem_append.mp hp).imp id fun hp => ?_
    rw [List.mem_singleton.mp hp]
    show At _ (max first.time es.length) _
    rw [htime, hsender, hmessage]
    refine at_length ⟨?_, meet_observed ref ref'⟩
    rw [if_pos hbefore]
  · intro _
    rw [hpairs]
    exact ⟨_, List.mem_append_right _ (List.mem_singleton_self _), htime⟩

/-- **One step keeps the ledger of every endpoint.** -/
theorem Ledger.step (ledger : Ledger es a e) (ref : Refines ipc a)
    (htrans : a.Transition op r a') (ref' : Refines ipc' a') :
    Ledger (es ++ [⟨ipc, op, r, ipc'⟩]) a' e := by
  cases htrans with
  | @rejected op error notFull =>
      refine ledger.quiet (.rejected notFull) ref' ?_ ?_ (not_deliversOn nofun) rfl rfl
      · cases op <;> rfl
      · cases op <;> rfl
  | observed thread =>
      exact ledger.quiet (.observed thread) ref' rfl rfl (not_deliversOn nofun) rfl rfl
  | absent h => exact ledger.quiet (.absent h) ref' rfl rfl (not_deliversOn nofun) rfl rfl
  | taken t => exact ledger.quiet (.taken t) ref' rfl rfl (not_deliversOn nofun) rfl rfl
  | answered m hs hc =>
      refine ledger.quiet (.answered m hs hc) ref' rfl rfl ?_ rfl rfl
      rintro ⟨-, ⟨_, _, h⟩ | ⟨_, _, h⟩ | ⟨_, h⟩⟩ <;> cases h
  | @parkedSender s e' m isCall hs hq =>
      rcases eq_or_ne e' e with rfl | he
      · exact ledger.parkedSender ref'
      · have hval : (e' : ℕ) ≠ e := fun h => he (Fin.ext h)
        refine ledger.elsewhere (.parkedSender m isCall hs hq) ref'
          (IpcSpec.parkSender_queue hs hq) (by simp [he.symm]) (by simp) ?_
          (receivedOn_transmit ..) fun h => hval (deliversOn_transmit h)
        rw [sentOn_transmit, if_neg hval]
  | @metReceiver s t e' rest m isCall hs hq =>
      rcases eq_or_ne e' e with rfl | he
      · exact ledger.metReceiver ref ref'
      · have hval : (e' : ℕ) ≠ e := fun h => he (Fin.ext h)
        refine ledger.elsewhere (.metReceiver m isCall hs hq) ref'
          (IpcSpec.meetReceiver_queue hs hq) (by simp) (by simp [he.symm]) ?_
          (receivedOn_transmit ..) fun h => hval (deliversOn_transmit h)
        rw [sentOn_transmit, if_neg hval]
  | @parkedReceiver t e' ht hq =>
      rcases eq_or_ne e' e with rfl | he
      · exact ledger.parkedReceiver ref'
      · have hval : (e' : ℕ) ≠ e := fun h => he (Fin.ext h)
        exact ledger.elsewhere (.parkedReceiver ht hq) ref' (IpcSpec.parkReceiver_queue ht hq)
          (by simp) (by simp [he.symm]) rfl (if_neg hval) fun h => hval (deliversOn_receive h)
  | @metSender s t e' rest m isCall ht hq hs =>
      rcases eq_or_ne e' e with rfl | he
      · exact ledger.metSender ref hq ref'
      · have hval : (e' : ℕ) ≠ e := fun h => he (Fin.ext h)
        exact ledger.elsewhere (.metSender ht hq hs) ref' (IpcSpec.meetSender_queue ht hs hq)
          (by simp [he.symm]) (by simp) rfl (if_neg hval) fun h => hval (deliversOn_receive h)

/-- Where an inbox can change. -/
theorem inbox_changed (ref : Refines ipc a) (htrans : a.Transition op r a')
    (ref' : Refines ipc' a') {thread : ThreadId} (h : ipc'.inbox thread ≠ ipc.inbox thread) :
    (op = .takeMessage thread ∧ ipc'.inbox thread = none) ∨
      (∃ server m, op = .reply server m ∧ r = .outcome (.ok (.delivered thread)) ∧
        ipc'.inbox thread = some m) ∨
      ∃ e : Fin ENDPOINTS,
        DeliversOn e (⟨ipc, op, r, ipc'⟩ : IpcEvent THREADS ENDPOINTS) := by
  obtain ⟨t, rfl, hne⟩ : ∃ t : Fin THREADS, thread = t ∧ a'.inbox t ≠ a.inbox t := by
    by_contra hsame
    refine h (ref.inbox_congr ref' fun t ht => ?_)
    by_contra hne
    exact hsame ⟨t, ht, hne⟩
  rw [ref'.inbox_eq]
  rcases htrans.inbox_cases t with hkept | htaken | hreplied | ⟨isCall, s, m, e, rfl, rfl⟩ |
    ⟨s, e, rfl, rfl⟩
  · exact absurd hkept hne
  · exact .inl htaken
  · exact .inr (.inl hreplied)
  · refine .inr (.inr ⟨e, ⟨t, rfl⟩, ?_⟩)
    cases isCall with
    | false => exact .inl ⟨s, m, rfl⟩
    | true => exact .inr (.inl ⟨s, m, rfl⟩)
  · exact .inr (.inr ⟨e, ⟨s, rfl⟩, .inr (.inr ⟨t, rfl⟩)⟩)

end Step

/-! ## What the ledger says -/

section Consequences

variable {es : List (IpcEvent THREADS ENDPOINTS)} {a : IpcSpec THREADS ENDPOINTS}
  {e : Fin ENDPOINTS} {ipc : RendezvousIpc THREADS ENDPOINTS} {i : ℕ} {s : Sent} {r : Receipt}

theorem Ledger.empty : Ledger ([] : List (IpcEvent THREADS ENDPOINTS)) Rendezvous.idle e where
  senders := rfl
  receivers := rfl
  parked := nofun
  listening := nofun
  exchanged := nofun
  delivered k h := absurd h.lt_length (Nat.not_lt_zero k)

theorem Ledger.exchange (ledger : Ledger es a e) (hs : (sends e es)[i]? = some s)
    (hr : (receipts e es)[i]? = some r) : Exchange es s r :=
  ledger.exchanged (s, r) (List.mem_of_getElem? (List.getElem?_zip_eq_some.mpr ⟨hs, hr⟩))

/-- An accepted send has no partner exactly while its thread is still sending. -/
theorem Ledger.unmatched_send (ledger : Ledger es a e) (hs : (sends e es)[i]? = some s) :
    (receipts e es).length ≤ i ↔
      Since es s.time fun ipc => ipc.state s.sender = some (.sending e) := by
  constructor
  · intro hi
    exact (ledger.parked s (mem_drop_iff.mpr ⟨i, hi, hs⟩)).2
  · intro hsince
    by_contra hi
    have hr := List.getElem?_eq_getElem (Nat.lt_of_not_le hi)
    -- a partner would have taken the sender out of its queue
    obtain ⟨ev, ⟨-, -, -, -, hleft⟩, hstill⟩ :=
      hsince.after_at (ledger.exchange hs hr) (le_max_left _ _)
    rw [hstill] at hleft
    rcases hleft with hleft | hleft <;> cases hleft

/-- An accepted receive has no partner exactly while its thread is still receiving. -/
theorem Ledger.unmatched_receipt (ledger : Ledger es a e) (hr : (receipts e es)[i]? = some r) :
    (sends e es).length ≤ i ↔
      Since es r.time fun ipc => ipc.state r.receiver = some (.receiving e) := by
  constructor
  · intro hi
    exact ledger.listening r (mem_drop_iff.mpr ⟨i, hi, hr⟩)
  · intro hsince
    by_contra hi
    have hs := List.getElem?_eq_getElem (Nat.lt_of_not_le hi)
    obtain ⟨ev, ⟨-, -, -, hleft, -⟩, hstill⟩ :=
      hsince.after_at (ledger.exchange hs hr) (le_max_right _ _)
    rw [hstill] at hleft
    cases hleft

/-- A thread that is sending has an accepted send without a partner. -/
theorem Ledger.exists_send (ledger : Ledger es a e) (ref : Refines ipc a) {thread : ThreadId}
    (h : ipc.state thread = some (.sending e)) :
    ∃ (i : ℕ) (s : Sent), (sends e es)[i]? = some s ∧ (receipts e es).length ≤ i ∧
      s.sender = thread := by
  obtain ⟨t, rfl, hstate⟩ := ref.state_eq_some.mp h
  have hmem : t.val ∈ (a.queue (.senders e)).map Fin.val :=
    List.mem_map_of_mem ((a.waiting.mem t _).mpr (toState_eq_sending.mp hstate))
  rw [ledger.senders, List.mem_map] at hmem
  obtain ⟨s, hs, hsender⟩ := hmem
  obtain ⟨i, hi, hget⟩ := mem_drop_iff.mp hs
  exact ⟨i, s, hget, hi, hsender⟩

/-- A thread that is receiving has an accepted receive without a partner. -/
theorem Ledger.exists_receipt (ledger : Ledger es a e) (ref : Refines ipc a)
    {thread : ThreadId} (h : ipc.state thread = some (.receiving e)) :
    ∃ (i : ℕ) (r : Receipt), (receipts e es)[i]? = some r ∧ (sends e es).length ≤ i ∧
      r.receiver = thread := by
  obtain ⟨t, rfl, hstate⟩ := ref.state_eq_some.mp h
  have hmem : t.val ∈ (a.queue (.receivers e)).map Fin.val :=
    List.mem_map_of_mem ((a.waiting.mem t _).mpr (toState_eq_receiving.mp hstate))
  rw [ledger.receivers, List.mem_map] at hmem
  obtain ⟨r, hr, hreceiver⟩ := hmem
  obtain ⟨i, hi, hget⟩ := mem_drop_iff.mp hr
  exact ⟨i, r, hget, hi, hreceiver⟩

/-- Later pairs are exchanged later. -/
theorem exchange_time_lt {j : ℕ} {s' : Sent} {r' : Receipt} (hs : (sends e es)[i]? = some s)
    (hr : (receipts e es)[i]? = some r) (hs' : (sends e es)[j]? = some s')
    (hr' : (receipts e es)[j]? = some r') (hij : i < j) :
    max s.time r.time < max s'.time r'.time := by
  have hsent : s.time < s'.time :=
    time_lt_of_lt (stamped_pairwise fun _ _ _ => sentOn_time) hs hs' hij
  have hreceived : r.time < r'.time :=
    time_lt_of_lt (stamped_pairwise fun _ _ _ => receivedOn_time) hr hr' hij
  exact max_lt_max hsent hreceived

/-- Every delivery on the endpoint is the exchange of one pair, and of no other. -/
theorem Ledger.exists_unique_pair (ledger : Ledger es a e) {k : ℕ}
    (h : At es k (DeliversOn e)) :
    ∃! i : ℕ, ∃ (s : Sent) (r : Receipt), (sends e es)[i]? = some s ∧
      (receipts e es)[i]? = some r ∧ max s.time r.time = k := by
  obtain ⟨⟨s, r⟩, hmem, hk⟩ := ledger.delivered k h
  obtain ⟨i, hi⟩ := List.mem_iff_getElem?.mp hmem
  obtain ⟨hs, hr⟩ := List.getElem?_zip_eq_some.mp hi
  refine ⟨i, ⟨s, r, hs, hr, hk⟩, ?_⟩
  rintro j ⟨s', r', hs', hr', hk'⟩
  rcases Nat.lt_trichotomy j i with hlt | heq | hgt
  · have := exchange_time_lt hs' hr' hs hr hlt
    omega
  · exact heq
  · have := exchange_time_lt hs hr hs' hr' hgt
    omega

end Consequences

/-- **Exactly-once delivery, first in, first out.**  After every run, at every
endpoint, the `i`-th accepted send or call and the `i`-th accepted receive have been
exchanged with each other at the later of the two; those without a partner are those
whose threads have been sending or receiving there ever since; every delivery at the
endpoint is the exchange of exactly one pair; and besides these exchanges only
replies put messages into inboxes. -/
theorem exactly_once_fifo (THREADS ENDPOINTS : ℕ) (ops : List IpcOp) :
    ∃ es ipc, (ipcMachine THREADS ENDPOINTS).exec RendezvousIpc.new ops = some (es, ipc) ∧
      (∀ e : Fin ENDPOINTS,
        (∀ (i : ℕ) s r, (sends e es)[i]? = some s → (receipts e es)[i]? = some r →
          Exchange es s r) ∧
        (∀ (i : ℕ) s, (sends e es)[i]? = some s →
          ((receipts e es).length ≤ i ↔
            Since es s.time fun ipc => ipc.state s.sender = some (.sending e))) ∧
        (∀ (i : ℕ) r, (receipts e es)[i]? = some r →
          ((sends e es).length ≤ i ↔
            Since es r.time fun ipc => ipc.state r.receiver = some (.receiving e))) ∧
        (∀ thread, ipc.state thread = some (.sending e) →
          ∃ (i : ℕ) (s : Sent), (sends e es)[i]? = some s ∧
            (receipts e es).length ≤ i ∧ s.sender = thread) ∧
        (∀ thread, ipc.state thread = some (.receiving e) →
          ∃ (i : ℕ) (r : Receipt), (receipts e es)[i]? = some r ∧
            (sends e es).length ≤ i ∧ r.receiver = thread) ∧
        ∀ k, At es k (DeliversOn e) →
          ∃! i : ℕ, ∃ (s : Sent) (r : Receipt), (sends e es)[i]? = some s ∧
            (receipts e es)[i]? = some r ∧ max s.time r.time = k) ∧
      ∀ ev ∈ es, ∀ thread, ev.after.inbox thread ≠ ev.before.inbox thread →
        (ev.op = .takeMessage thread ∧ ev.after.inbox thread = none) ∨
          (∃ server m, ev.op = .reply server m ∧
            ev.result = .outcome (.ok (.delivered thread)) ∧
            ev.after.inbox thread = some m) ∨
          ∃ e : Fin ENDPOINTS, DeliversOn e ev := by
  obtain ⟨es, ipc, hexec, a, ref, ledgers, hinbox⟩ := refines_new.exec_of_transition
    (fun (es : List (IpcEvent THREADS ENDPOINTS)) a =>
      (∀ e, Ledger es a e) ∧
      ∀ ev ∈ es, ∀ thread, ev.after.inbox thread ≠ ev.before.inbox thread →
        (ev.op = .takeMessage thread ∧ ev.after.inbox thread = none) ∨
          (∃ server m, ev.op = .reply server m ∧
            ev.result = .outcome (.ok (.delivered thread)) ∧
            ev.after.inbox thread = some m) ∨
          ∃ e : Fin ENDPOINTS, DeliversOn e ev)
    ⟨fun _ => Ledger.empty, List.forall_mem_nil _⟩
    (fun ⟨ledgers, hinbox⟩ ref _ htrans ref' =>
      ⟨fun e => (ledgers e).step ref htrans ref', List.forall_mem_append.mpr
        ⟨hinbox, List.forall_mem_singleton.mpr fun _ h => inbox_changed ref htrans ref' h⟩⟩) ops
  refine ⟨es, ipc, hexec, fun e => ⟨?_, ?_, ?_, ?_, ?_, ?_⟩, hinbox⟩
  · exact fun i s r hs hr => (ledgers e).exchange hs hr
  · exact fun i s hs => (ledgers e).unmatched_send hs
  · exact fun i r hr => (ledgers e).unmatched_receipt hr
  · exact fun thread h => (ledgers e).exists_send ref h
  · exact fun thread h => (ledgers e).exists_receipt ref h
  · exact fun k h => (ledgers e).exists_unique_pair h

end Aegis.Ipc
