import Mathlib
import Aegis.Foundation.Cell
import Aegis.Foundation.History
import Aegis.Ipc.Answerable

/-!
# What becomes of a delivered message

A thread's inbox is a cell with one place.  `send`, `call`, `receive` and `reply` all
write it without looking at what it holds, and only `take_message` empties it.
`inboxLog` reads the accesses to the inbox of a thread off the history of a run.

Every delivered message meets exactly one fate: it is taken, or it still waits, or the
next delivery to the same thread replaces it.  A delivery reaches a thread that waits
for a message, and a thread waits because it has received or called.  So a message is
replaced only if its recipient received or called again without having taken it.
-/

namespace Aegis.Ipc

open Foundation Foundation.Rendezvous Foundation.Access

variable {THREADS ENDPOINTS : ℕ}

/-! ## The log of an inbox -/

/-- The message parked in a thread. -/
def RendezvousIpc.outgoing (thread : ThreadId) (ipc : RendezvousIpc THREADS ENDPOINTS) :
    Option Message :=
  ipc.threads[thread]?.map Thread.outgoing

/-- The message that the event delivers to a thread: the one passed to `send`, `call`
or `reply`, or the one parked in the sender that `receive` met. -/
def delivery (thread : ThreadId) (ev : IpcEvent THREADS ENDPOINTS) : Option Message :=
  match ev.op, ev.result with
  | .send _ _ message, .outcome (.ok (.delivered peer)) =>
      if peer = thread then some message else none
  | .call _ _ message, .outcome (.ok (.delivered peer)) =>
      if peer = thread then some message else none
  | .reply _ message, .outcome (.ok (.delivered peer)) =>
      if peer = thread then some message else none
  | .receive receiver _, .outcome (.ok (.delivered peer)) =>
      if receiver = thread then ev.before.outgoing peer else none
  | _, _ => none

/-- The message that the event returns to a thread that takes its message. -/
def removal (thread : ThreadId) (ev : IpcEvent THREADS ENDPOINTS) : Option Message :=
  match ev.op, ev.result with
  | .takeMessage taker, .message found => if taker = thread then found else none
  | _, _ => none

/-- The event as an access to the inbox of a thread. -/
def inboxAccess (thread : ThreadId) (time : ℕ) (ev : IpcEvent THREADS ENDPOINTS) :
    Option (Access Message) :=
  ((delivery thread ev).map (put time)).or ((removal thread ev).map (take time))

/-- The accesses to the inbox of a thread, in order. -/
def inboxLog (thread : ThreadId) (es : List (IpcEvent THREADS ENDPOINTS)) :
    List (Access Message) :=
  stamped (inboxAccess thread) es

/-- The event is an accepted `receive` or `call` of the thread. -/
def Waits (thread : ThreadId) (ev : IpcEvent THREADS ENDPOINTS) : Prop :=
  ((∃ endpoint, ev.op = .receive thread endpoint) ∨
      ∃ endpoint message, ev.op = .call thread endpoint message) ∧
    ∃ outcome, ev.result = .outcome (.ok outcome)

/-- What the history of a run says about the inbox of a thread. -/
structure Accounted (thread : ThreadId) (es : List (IpcEvent THREADS ENDPOINTS)) : Prop where
  /-- Every message delivered to the thread has been taken by one later event, has been
  replaced by one later delivery, or is still waiting. -/
  fate : ∀ i m, put i m ∈ inboxLog thread es → ∃! fate, Meets (inboxLog thread es) i m fate
  /-- Every message that the thread has taken was delivered to it once before. -/
  returned : ∀ j m, take j m ∈ inboxLog thread es →
    ∃! i, [put i m, take j m] <:+: inboxLog thread es
  /-- A delivery finds the inbox empty, or a message that it replaces. -/
  found : ∀ j m, put j m ∈ inboxLog thread es →
    At es j (fun ev => ev.before.inbox thread = none) ∨
      ∃ i m', [put i m', put j m] <:+: inboxLog thread es ∧
        At es j fun ev => ev.before.inbox thread = some m'
  /-- A message is replaced only after its recipient has received or called while the
  message was in its inbox. -/
  replaced : ∀ i m j m', [put i m, put j m'] <:+: inboxLog thread es →
    ∃ k, i < k ∧ k ≤ j ∧ At es k fun ev => Waits thread ev ∧ ev.before.inbox thread = some m

section Log

variable {thread : ThreadId} {time : ℕ} {es : List (IpcEvent THREADS ENDPOINTS)}
  {ev : IpcEvent THREADS ENDPOINTS} {m : Message}

theorem inboxAccess_delivery (h : delivery thread ev = some m) :
    inboxAccess thread time ev = some (put time m) := by
  rw [inboxAccess, h, Option.map_some, Option.some_or]

theorem inboxAccess_removal (hnone : delivery thread ev = none)
    (h : removal thread ev = some m) : inboxAccess thread time ev = some (take time m) := by
  rw [inboxAccess, hnone, h, Option.map_none, Option.none_or, Option.map_some]

theorem inboxAccess_none (hnone : delivery thread ev = none) (h : removal thread ev = none) :
    inboxAccess thread time ev = none := by
  rw [inboxAccess, hnone, h, Option.map_none, Option.none_or, Option.map_none]

theorem inboxAccess_time {x : Access Message} (h : inboxAccess thread time ev = some x) :
    x.time = time := by
  rw [inboxAccess, Option.or_eq_some_iff, Option.map_eq_some_iff, Option.map_eq_some_iff] at h
  rcases h with ⟨m, -, rfl⟩ | ⟨-, m, -, rfl⟩ <;> rfl

theorem inboxLog_nodup : (inboxLog thread es).Nodup := by
  refine (stamped_pairwise fun _ _ _ => inboxAccess_time).imp fun hlt heq => ?_
  rw [heq] at hlt
  exact lt_irrefl _ hlt

theorem inboxLog_prefix : inboxLog thread es <+: inboxLog thread (es ++ [ev]) := by
  rw [inboxLog, inboxLog, stamped_snoc]
  exact List.prefix_append _ _

theorem inboxLog_time {x : Access Message} (h : x ∈ inboxLog thread es) :
    x.time < es.length :=
  time_lt_length (fun _ _ _ => inboxAccess_time) h

end Log

/-! ## What one event does to an inbox -/

/-- A thread that a message can reach: it receives, or it has called and not been
answered. -/
def IpcSpec.Awaits (a : IpcSpec THREADS ENDPOINTS) (t : Fin THREADS) : Prop :=
  match a.status t with
  | .runnable => False
  | .sending _ _ isCall => isCall
  | .receiving _ => True
  | .replyBlocked _ => True

/-- An event leaves an inbox alone, empties it for its thread, or delivers a message to
a thread that awaits one. -/
inductive InboxStep (t : Fin THREADS) (ev : IpcEvent THREADS ENDPOINTS)
    (a a' : IpcSpec THREADS ENDPOINTS) : Prop
  | untouched (notDelivered : delivery t ev = none) (notTaken : removal t ev = none)
      (inbox : a'.inbox t = a.inbox t) (awaits : a'.Awaits t → a.Awaits t ∨ Waits t ev)
  | taken {m : Message} (notDelivered : delivery t ev = none) (taken : removal t ev = some m)
      (held : a.inbox t = some m) (emptied : a'.inbox t = none)
  | delivered {m : Message} (delivered : delivery t ev = some m) (filled : a'.inbox t = some m)
      (awaited : a.Awaits t ∨ Waits t ev) (ready : ¬ a'.Awaits t)

section Step

variable {t : Fin THREADS} {a a' : IpcSpec THREADS ENDPOINTS} {op : IpcOp} {r : IpcResult}
  {ipc ipc' : RendezvousIpc THREADS ENDPOINTS}

theorem Refines.outgoing_eq (ref : Refines ipc a) {s : Fin THREADS} {e : Fin ENDPOINTS}
    {m : Message} {isCall : Bool} (hs : a.status s = .sending e m isCall) :
    ipc.outgoing s = some m := by
  rw [RendezvousIpc.outgoing, Vector.getElem?_eq_getElem s.isLt, Option.map_some,
    Option.some.injEq]
  exact ((ref.threads s).parked e m isCall hs).1

theorem delivery_transmit (isCall : Bool) (sender peer : ThreadId) (endpoint : ℕ)
    (m : Message) (thread : ThreadId) :
    delivery thread (⟨ipc, .transmit isCall sender endpoint m,
      .outcome (.ok (.delivered peer)), ipc'⟩ : IpcEvent THREADS ENDPOINTS) =
        if peer = thread then some m else none := by
  cases isCall <;> rfl

/-- An operation that does not return `Delivered` delivers nothing. -/
theorem delivery_eq_none (silent : ∀ peer, r ≠ .outcome (.ok (.delivered peer)))
    (thread : ThreadId) :
    delivery thread (⟨ipc, op, r, ipc'⟩ : IpcEvent THREADS ENDPOINTS) = none := by
  unfold delivery
  split
  · next hr => exact absurd hr (silent _)
  · next hr => exact absurd hr (silent _)
  · next hr => exact absurd hr (silent _)
  · next hr => exact absurd hr (silent _)
  · rfl

theorem removal_outcome (o : Except IpcError IpcOutcome) (thread : ThreadId) :
    removal thread (⟨ipc, op, .outcome o, ipc'⟩ : IpcEvent THREADS ENDPOINTS) = none := by
  unfold removal
  split
  · next h => cases h
  · rfl

/-- A thread whose status does not change awaits a message as before. -/
theorem IpcSpec.Awaits.of_status (h : a'.Awaits t) (hstatus : a'.status t = a.status t) :
    a.Awaits t := by
  rwa [Awaits, hstatus] at h

theorem IpcSpec.not_awaits_of_runnable (h : a.status t = .runnable) : ¬ a.Awaits t := by
  rw [Awaits, h]
  exact id

theorem waits_transmit {o : IpcOutcome} {s : ThreadId} {endpoint : ℕ} {m : Message} :
    Waits s (⟨ipc, .transmit true s endpoint m, .outcome (.ok o), ipc'⟩ :
      IpcEvent THREADS ENDPOINTS) :=
  ⟨.inr ⟨endpoint, m, rfl⟩, o, rfl⟩

theorem waits_receive {o : IpcOutcome} {s : ThreadId} {endpoint : ℕ} :
    Waits s (⟨ipc, .receive s endpoint, .outcome (.ok o), ipc'⟩ :
      IpcEvent THREADS ENDPOINTS) :=
  ⟨.inl ⟨endpoint, rfl⟩, o, rfl⟩

/-- A thread that a meeting leaves waiting was waiting before, or is the caller that
has just met its server. -/
theorem IpcSpec.awaits_meet {s u : Fin THREADS} {e : Fin ENDPOINTS} {m : Message} {isCall : Bool}
    {hs : a.status s = .runnable ∨ (a.status s).line = some (.senders e)}
    {hu : a.status u = .runnable ∨ (a.status u).line = some (.receivers e)} {hne : s ≠ u}
    (h : IpcSpec.Awaits (a.meet s u e m isCall hs hu hne) t) :
    a.Awaits t ∨ t = s ∧ isCall := by
  rcases eq_or_ne t s with rfl | hts
  · rw [Awaits, meet_status, Function.update_self] at h
    cases isCall with
    | true => exact .inr ⟨rfl, rfl⟩
    | false => exact h.elim
  · rcases eq_or_ne t u with rfl | htu
    · exact absurd h (not_awaits_of_runnable meet_status_receiver)
    · refine .inl (h.of_status ?_)
      rw [meet_status, Function.update_of_ne hts, Function.update_of_ne htu]

/-- **What one event does to an inbox.** -/
theorem inboxStep (ref : Refines ipc a) (htrans : a.Transition op r a') (t : Fin THREADS) :
    InboxStep t (⟨ipc, op, r, ipc'⟩ : IpcEvent THREADS ENDPOINTS) a a' := by
  cases htrans with
  | rejected =>
      exact .untouched (delivery_eq_none (by exact nofun) _) (removal_outcome _ _) rfl .inl
  | observed => exact .untouched rfl rfl rfl .inl
  | absent h =>
      refine .untouched rfl (if_neg ?_) rfl .inl
      rintro rfl
      exact absurd t.isLt h.not_gt
  | taken u =>
      rcases eq_or_ne t u with rfl | htu
      · cases hm : a.inbox t with
        | none =>
            refine .untouched rfl ((if_pos rfl).trans rfl) ?_ .inl
            rw [take_inbox, Function.update_self, hm]
        | some m =>
            exact .taken rfl (if_pos rfl) hm (Function.update_self ..)
      · exact .untouched rfl (if_neg fun h => htu (Fin.ext h.symm))
          (Function.update_of_ne htu ..) .inl
  | @parkedSender s e m isCall hs hq =>
      refine .untouched (delivery_eq_none (by exact nofun) _) (removal_outcome _ _) rfl fun h => ?_
      rcases eq_or_ne t s with rfl | hts
      · rw [IpcSpec.Awaits, IpcSpec.parkSender_status, Function.update_self] at h
        obtain rfl : isCall = true := h
        exact .inr waits_transmit
      · exact .inl (h.of_status (Function.update_of_ne hts ..))
  | @parkedReceiver u e hu hq =>
      refine .untouched rfl rfl rfl fun h => ?_
      rcases eq_or_ne t u with rfl | htu
      · exact .inr waits_receive
      · exact .inl (h.of_status (Function.update_of_ne htu ..))
  | @metReceiver s u e rest m isCall hs hq =>
      rcases eq_or_ne t u with rfl | htu
      · refine .delivered (by rw [delivery_transmit, if_pos rfl]) (Function.update_self ..)
          (.inl ?_) (IpcSpec.not_awaits_of_runnable meet_status_receiver)
        rw [IpcSpec.Awaits, a.receiving_of_queue hq]
        exact trivial
      · refine .untouched ?_ (removal_outcome _ _) (Function.update_of_ne htu ..) fun h => ?_
        · rw [delivery_transmit, if_neg fun h => htu (Fin.ext h.symm)]
        · refine (IpcSpec.awaits_meet h).imp_right ?_
          rintro ⟨rfl, rfl⟩
          exact waits_transmit
  | @metSender s u e rest m isCall hu hq hs =>
      rcases eq_or_ne t u with rfl | htu
      · exact .delivered ((if_pos rfl).trans (ref.outgoing_eq hs)) (Function.update_self ..)
          (.inr waits_receive) (IpcSpec.not_awaits_of_runnable meet_status_receiver)
      · refine .untouched (if_neg fun h => htu (Fin.ext h.symm)) rfl
          (Function.update_of_ne htu ..) fun h => .inl ?_
        rcases IpcSpec.awaits_meet h with hold | ⟨rfl, rfl⟩
        · exact hold
        · rw [IpcSpec.Awaits, hs]
  | @answered s c m hs hc =>
      rcases eq_or_ne t c with rfl | htc
      · refine .delivered (if_pos rfl) (Function.update_self ..) (.inl ?_)
          (IpcSpec.not_awaits_of_runnable (Function.update_self ..))
        rw [IpcSpec.Awaits, a.reply_blocked s t hc]
        exact trivial
      · exact .untouched (if_neg fun h => htc (Fin.ext h.symm)) rfl
          (Function.update_of_ne htc ..) fun h =>
            .inl (h.of_status (Function.update_of_ne htc ..))

end Step

/-! ## Runs -/

/-- The log of an inbox against the abstract state: the log says what the inbox holds,
and if the thread awaits a message while it holds one, it began to wait with that
message in its inbox. -/
structure Logged (t : Fin THREADS) (es : List (IpcEvent THREADS ENDPOINTS))
    (a : IpcSpec THREADS ENDPOINTS) : Prop where
  faithful : Faithful (inboxLog t es)
  holds : a.inbox t = content (inboxLog t es)
  found : ∀ j m, put j m ∈ inboxLog t es →
    At es j (fun ev => ev.before.inbox t = none) ∨
      ∃ i m', [put i m', put j m] <:+: inboxLog t es ∧
        At es j fun ev => ev.before.inbox t = some m'
  replaced : ∀ i m j m', [put i m, put j m'] <:+: inboxLog t es →
    ∃ k, i < k ∧ k ≤ j ∧ At es k fun ev => Waits t ev ∧ ev.before.inbox t = some m
  began : ∀ i m, [put i m] <:+ inboxLog t es → a.Awaits t →
    ∃ k, i < k ∧ At es k fun ev => Waits t ev ∧ ev.before.inbox t = some m

namespace Logged

variable {t : Fin THREADS} {es : List (IpcEvent THREADS ENDPOINTS)}
  {ev : IpcEvent THREADS ENDPOINTS} {a a' : IpcSpec THREADS ENDPOINTS}

theorem start : Logged t ([] : List (IpcEvent THREADS ENDPOINTS)) Rendezvous.idle where
  faithful := faithful_nil
  holds := rfl
  found j m h := by cases h
  replaced _ _ _ _ h := absurd h.length_le (Nat.not_succ_le_zero 1)
  began _ _ h := absurd h.length_le (Nat.not_succ_le_zero 0)

theorem accounted (h : Logged t es a) : Accounted t es where
  fate _ _ hput := h.faithful.existsUnique_fate inboxLog_nodup hput
  returned _ _ htake := h.faithful.existsUnique_put inboxLog_nodup htake
  found := h.found
  replaced := h.replaced

/-- What a delivery found is a fact of the past. -/
theorem found_snoc (h : Logged t es a) {j : ℕ} {m : Message} (hput : put j m ∈ inboxLog t es) :
    At (es ++ [ev]) j (fun ev => ev.before.inbox t = none) ∨
      ∃ i m', [put i m', put j m] <:+: inboxLog t (es ++ [ev]) ∧
        At (es ++ [ev]) j fun ev => ev.before.inbox t = some m' := by
  refine (h.found j m hput).imp At.snoc ?_
  rintro ⟨i, m', hpair, hat⟩
  exact ⟨i, m', hpair.trans inboxLog_prefix.isInfix, hat.snoc⟩

/-- Why a message was replaced is a fact of the past. -/
theorem replaced_snoc (h : Logged t es a) {i j : ℕ} {m m' : Message}
    (hpair : [put i m, put j m'] <:+: inboxLog t es) :
    ∃ k, i < k ∧ k ≤ j ∧
      At (es ++ [ev]) k fun ev => Waits t ev ∧ ev.before.inbox t = some m := by
  obtain ⟨k, hik, hkj, hk⟩ := h.replaced i m j m' hpair
  exact ⟨k, hik, hkj, hk.snoc⟩

/-- A message that the thread has been holding since it was delivered, when the thread
awaits the next one. -/
theorem began_snoc (h : Logged t es a) (hbefore : ev.before.inbox t = a.inbox t)
    (awaits : a.Awaits t ∨ Waits t ev) {i : ℕ} {m : Message}
    (hlast : [put i m] <:+ inboxLog t es) :
    ∃ k, i < k ∧ k ≤ es.length ∧
      At (es ++ [ev]) k fun ev => Waits t ev ∧ ev.before.inbox t = some m := by
  rcases awaits with hold | hnew
  · obtain ⟨k, hik, hk⟩ := h.began i m hlast hold
    exact ⟨k, hik, hk.lt_length.le, hk.snoc⟩
  · have hheld : ev.before.inbox t = some m := by
      rw [hbefore, h.holds]
      exact content_eq_some.mpr ⟨i, hlast⟩
    have hi : i < es.length := inboxLog_time (hlast.subset (List.mem_singleton_self _))
    exact ⟨es.length, hi, le_rfl, at_length ⟨hnew, hheld⟩⟩

theorem untouched (h : Logged t es a) (hbefore : ev.before.inbox t = a.inbox t)
    (hlog : inboxLog t (es ++ [ev]) = inboxLog t es) (inbox : a'.inbox t = a.inbox t)
    (awaits : a'.Awaits t → a.Awaits t ∨ Waits t ev) : Logged t (es ++ [ev]) a' where
  faithful := hlog ▸ h.faithful
  holds := by rw [hlog, inbox, h.holds]
  found j m hput := h.found_snoc (hlog ▸ hput)
  replaced i m j m' hpair := h.replaced_snoc (hlog ▸ hpair)
  began i m hlast hawaits := by
    obtain ⟨k, hik, -, hk⟩ := h.began_snoc hbefore (awaits hawaits) (hlog ▸ hlast)
    exact ⟨k, hik, hk⟩

theorem taken (h : Logged t es a) {m : Message} (held : a.inbox t = some m)
    (hlog : inboxLog t (es ++ [ev]) = inboxLog t es ++ [take es.length m])
    (emptied : a'.inbox t = none) : Logged t (es ++ [ev]) a' where
  faithful := by
    rw [hlog]
    refine h.faithful.snoc fun j v heq => ?_
    rw [take.injEq] at heq
    rw [← heq.2, ← h.holds, held]
  holds := by rw [hlog, content_snoc_take, emptied]
  found j m' hput := by
    rw [hlog, List.mem_append, List.mem_singleton] at hput
    exact h.found_snoc (hput.resolve_right nofun)
  replaced i m' j m'' hpair := by
    rw [hlog] at hpair
    exact h.replaced_snoc ((Access.replaced_snoc hpair).resolve_right nofun)
  began i m' hlast := by
    have hcontent := content_eq_some.mpr ⟨i, hlast⟩
    rw [hlog, content_snoc_take] at hcontent
    cases hcontent

theorem delivered (h : Logged t es a) (hbefore : ev.before.inbox t = a.inbox t) {m : Message}
    (hlog : inboxLog t (es ++ [ev]) = inboxLog t es ++ [put es.length m])
    (filled : a'.inbox t = some m) (awaited : a.Awaits t ∨ Waits t ev)
    (ready : ¬ a'.Awaits t) : Logged t (es ++ [ev]) a' where
  faithful := by
    rw [hlog]
    exact h.faithful.snoc nofun
  holds := by rw [hlog, content_snoc_put, filled]
  found j m' hput := by
    rw [hlog, List.mem_append, List.mem_singleton, put.injEq] at hput
    rcases hput with hold | ⟨rfl, rfl⟩
    · exact h.found_snoc hold
    · cases hheld : a.inbox t with
      | none => exact .inl (at_length (hbefore.trans hheld))
      | some m'' =>
          obtain ⟨i, past, hpast⟩ := content_eq_some.mp (h.holds.symm.trans hheld)
          refine .inr ⟨i, m'', ⟨past, [], ?_⟩, at_length (hbefore.trans hheld)⟩
          rw [hlog, ← hpast]
          simp
  replaced i m' j m'' hpair := by
    rw [hlog] at hpair
    rcases Access.replaced_snoc hpair with hold | ⟨hlast, hnew⟩
    · exact h.replaced_snoc hold
    · rw [put.injEq] at hnew
      rw [← hnew.1]
      exact h.began_snoc hbefore awaited hlast
  began _ _ _ hawaits := absurd hawaits ready

/-- **One event** keeps the log of an inbox. -/
theorem snoc (h : Logged t es a) (hbefore : ev.before.inbox t = a.inbox t)
    (hstep : InboxStep t ev a a') : Logged t (es ++ [ev]) a' := by
  cases hstep with
  | untouched notDelivered notTaken inbox awaits =>
      exact h.untouched hbefore (stamped_snoc_none (inboxAccess_none notDelivered notTaken))
        inbox awaits
  | taken notDelivered taken held emptied =>
      exact h.taken held (stamped_snoc_some (inboxAccess_removal notDelivered taken)) emptied
  | delivered delivered filled awaited ready =>
      exact h.delivered hbefore (stamped_snoc_some (inboxAccess_delivery delivered)) filled
        awaited ready

end Logged

/-- **Delivered messages are accounted for.**  In every run and for every thread, each
delivered message is returned by exactly one `take_message` of its recipient, unless it
is still in the inbox at the end or the next delivery to that thread has replaced it; and
that happens only if the thread has received or called without having taken it. -/
theorem delivered_messages_accounted (ops : List IpcOp) :
    ∃ es ipc, (ipcMachine THREADS ENDPOINTS).exec RendezvousIpc.new ops = some (es, ipc) ∧
      ∀ t : Fin THREADS, Accounted t es ∧ ipc.inbox t = content (inboxLog t es) := by
  obtain ⟨es, ipc, hexec, a, ref, hlogged⟩ := refines_new.exec_of_transition
    (fun (es : List (IpcEvent THREADS ENDPOINTS)) a => ∀ t, Logged t es a)
    (fun _ => Logged.start)
    (fun h ref _ htrans _ t => (h t).snoc (ref.inbox_eq t) (inboxStep ref htrans t)) ops
  refine ⟨es, ipc, hexec, fun t => ⟨(hlogged t).accounted, ?_⟩⟩
  rw [ref.inbox_eq, (hlogged t).holds]

/-- Thread 1 receives twice without taking the first message; then it takes one. -/
def receivesTwice : List IpcOp :=
  [.receive 1 0, .send 0 0 (labelled 1), .receive 1 0, .send 0 0 (labelled 2), .takeMessage 1,
    .takeMessage 1]

/-- **A delivered message that nobody gets.**  Both sends return `Delivered` with thread 1
as the peer.  The second one finds the first message in the inbox and replaces it; the
only message that thread 1 ever takes is the second one. -/
theorem unread_message_replaced :
    ∃ es ipc, (ipcMachine 2 1).exec RendezvousIpc.new receivesTwice = some (es, ipc) ∧
      At es 1 (fun ev => ev.op = .send 0 0 (labelled 1) ∧
        ev.result = .outcome (.ok (.delivered 1))) ∧
      At es 3 (fun ev => ev.op = .send 0 0 (labelled 2) ∧
        ev.result = .outcome (.ok (.delivered 1)) ∧ ev.before.inbox 1 = some (labelled 1)) ∧
      (∀ j, ¬ At es j fun ev =>
        ev.op = .takeMessage 1 ∧ ev.result = .message (some (labelled 1))) ∧
      ipc.inbox 1 = none := by
  refine ⟨_, _, rfl, ⟨_, rfl, rfl, rfl⟩, ⟨_, rfl, rfl, rfl, rfl⟩, ?_, rfl⟩
  rintro j ⟨ev, hev, hop, hresult⟩
  have hmem := List.mem_of_getElem? hev
  simp only [List.mem_cons, List.not_mem_nil, or_false] at hmem
  rcases hmem with rfl | rfl | rfl | rfl | rfl | rfl
  · cases hop
  · cases hop
  · cases hop
  · cases hop
  · exact absurd hresult (by decide)
  · cases hresult

end Aegis.Ipc
