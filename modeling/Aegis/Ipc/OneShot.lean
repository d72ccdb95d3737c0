import Mathlib
import Aegis.Foundation.History
import Aegis.Ipc.Answerable

/-!
# One-shot reply authority

A server that receives a call gets the authority to reply to it once.  The statement
is about the history of a run alone: `CallMet` says that an event is the rendezvous of
a call with its server, whichever of the two came first, and `Pending` that a
rendezvous is the latest one of its server, has not been answered, and that nothing
has happened to the caller since.

The reply target of a server is the caller of a pending rendezvous; a reply consumes
it, so it answers a rendezvous that no other reply answers.  While it is pending, and
also when its server has received another call, the caller is woken by nothing but a
reply of that server.
-/

namespace Aegis.Ipc

open Foundation Foundation.Rendezvous

variable {THREADS ENDPOINTS : ℕ}

/-! ## Calls and replies in a history -/

/-- The `send` or `call` of a thread has blocked, and the thread has been sending ever
since. -/
def WaitsToSend (es : List (IpcEvent THREADS ENDPOINTS)) (isCall : Bool) (thread : ThreadId)
    (endpoint : ℕ) (message : Message) : Prop :=
  ∃ j, At es j (fun ev => ev.op = .transmit isCall thread endpoint message ∧
      ev.result = .outcome (.ok .blocked)) ∧
    Since es j fun ipc => ipc.state thread = some (.sending endpoint)

/-- After `past`, the event is the rendezvous of a call: the caller finds the server
receiving, or the server receives from the caller, whose call has been waiting. -/
def MeetsCall (past : List (IpcEvent THREADS ENDPOINTS)) (ev : IpcEvent THREADS ENDPOINTS)
    (server caller : ThreadId) : Prop :=
  (∃ endpoint message, ev.op = .call caller endpoint message ∧
    ev.result = .outcome (.ok (.delivered server))) ∨
  ∃ endpoint message, ev.op = .receive server endpoint ∧
    ev.result = .outcome (.ok (.delivered caller)) ∧
    WaitsToSend past true caller endpoint message

/-- At time `k` a call of `caller` met `server` as the receiving side. -/
def CallMet (es : List (IpcEvent THREADS ENDPOINTS)) (k : ℕ) (server caller : ThreadId) : Prop :=
  At es k fun ev => MeetsCall (es.take k) ev server caller

/-- A successful reply by `server`. -/
def RepliedBy (server : ThreadId) (ev : IpcEvent THREADS ENDPOINTS) : Prop :=
  ∃ message outcome, ev.op = .reply server message ∧ ev.result = .outcome (.ok outcome)

/-- The thread an operation puts a message into the inbox of. -/
def recipient : IpcOp → IpcResult → Option ThreadId
  | .send _ _ _, .outcome (.ok (.delivered peer)) => some peer
  | .call _ _ _, .outcome (.ok (.delivered peer)) => some peer
  | .receive receiver _, .outcome (.ok (.delivered _)) => some receiver
  | .reply _ _, .outcome (.ok (.delivered peer)) => some peer
  | _, _ => none

/-- The event leaves the caller waiting for the server and puts nothing into its
inbox; what is there can only be taken. -/
structure LeftWaiting (server caller : ThreadId) (ev : IpcEvent THREADS ENDPOINTS) : Prop where
  state : ev.after.state caller = some (.replyBlocked server)
  notRecipient : recipient ev.op ev.result ≠ some caller
  inbox : ev.after.inbox caller = ev.before.inbox caller ∨ ev.after.inbox caller = none

/-- The rendezvous at time `k` is waiting for its reply: it is the latest call its
server has received, the server has not replied since, and the caller has been left
waiting. -/
structure Pending (es : List (IpcEvent THREADS ENDPOINTS)) (k : ℕ) (server caller : ThreadId) :
    Prop where
  met : CallMet es k server caller
  latest : ∀ i caller', k < i → ¬ CallMet es i server caller'
  unanswered : ∀ i, k < i → ¬ At es i (RepliedBy server)
  waiting : Throughout es k (LeftWaiting server caller)

/-- The event is a reply of the server to the caller: it wakes the caller, whose inbox
becomes exactly the message of the reply, and changes no other inbox. -/
def Answers (server caller : ThreadId) (ev : IpcEvent THREADS ENDPOINTS) : Prop :=
  ∃ message, ev.op = .reply server message ∧ ev.result = .outcome (.ok (.delivered caller)) ∧
    ev.before.state caller = some (.replyBlocked server) ∧
    ev.after.state caller = some .runnable ∧ ev.after.inbox caller = some message ∧
    ∀ thread ≠ caller, ev.after.inbox thread = ev.before.inbox thread

section History

variable {es : List (IpcEvent THREADS ENDPOINTS)} {ev : IpcEvent THREADS ENDPOINTS} {k : ℕ}
  {server caller : ThreadId}

theorem CallMet.snoc (h : CallMet es k server caller) :
    CallMet (es ++ [ev]) k server caller := by
  have hk := At.lt_length h
  unfold CallMet
  rw [List.take_append_of_le_length hk.le]
  exact At.snoc h

theorem callMet_length (h : MeetsCall es ev server caller) :
    CallMet (es ++ [ev]) es.length server caller := by
  unfold CallMet
  rw [List.take_left]
  exact at_length h

theorem CallMet.snoc_cases (h : CallMet (es ++ [ev]) k server caller) :
    CallMet es k server caller ∨ k = es.length ∧ MeetsCall es ev server caller := by
  rcases At.snoc_cases h with hold | ⟨rfl, hnew⟩
  · have hk := hold.lt_length
    rw [List.take_append_of_le_length hk.le] at hold
    exact .inl hold
  · rw [List.take_left] at hnew
    exact .inr ⟨rfl, hnew⟩

/-- A pending rendezvous stays pending if its server receives no call and gives no
reply. -/
theorem Pending.snoc (h : Pending es k server caller)
    (notMet : ∀ caller', ¬ MeetsCall es ev server caller') (notReplied : ¬ RepliedBy server ev)
    (left : LeftWaiting server caller ev) : Pending (es ++ [ev]) k server caller where
  met := h.met.snoc
  latest i caller' hi hmet := by
    rcases hmet.snoc_cases with hold | ⟨-, hnew⟩
    · exact h.latest i caller' hi hold
    · exact notMet caller' hnew
  unanswered i hi hrep := by
    rcases hrep.snoc_cases with hold | ⟨-, hnew⟩
    · exact h.unanswered i hi hold
    · exact notReplied hnew
  waiting := h.waiting.snoc left

/-- A rendezvous that has just happened is pending. -/
theorem Pending.start (met : MeetsCall es ev server caller)
    (left : LeftWaiting server caller ev) : Pending (es ++ [ev]) es.length server caller where
  met := callMet_length met
  latest i caller' hi hmet := by
    have := At.lt_length hmet
    simp only [List.length_append, List.length_singleton] at this
    omega
  unanswered i hi hrep := by
    have := hrep.lt_length
    simp only [List.length_append, List.length_singleton] at this
    omega
  waiting := throughout_length left

/-- An event is the rendezvous of one server at most. -/
theorem MeetsCall.server_unique {past past' : List (IpcEvent THREADS ENDPOINTS)}
    {server' caller' : ThreadId} (h : MeetsCall past ev server caller)
    (h' : MeetsCall past' ev server' caller') : server = server' := by
  rcases h with ⟨_, _, hop, hr⟩ | ⟨_, _, hop, -⟩
  · rcases h' with ⟨_, _, -, hr'⟩ | ⟨_, _, hop', -⟩
    · have := hr.symm.trans hr'
      injection this with this
      injection this with this
      injection this
    · cases hop.symm.trans hop'
  · rcases h' with ⟨_, _, hop', -⟩ | ⟨_, _, hop', -⟩
    · cases hop.symm.trans hop'
    · have := hop.symm.trans hop'
      injection this

/-- Two replies never answer the same rendezvous. -/
theorem Pending.reply_unique {i j : ℕ} {server' caller' : ThreadId}
    (hi : Pending (es.take i) k server caller) (hj : Pending (es.take j) k server' caller')
    (ri : At es i (RepliedBy server)) (rj : At es j (RepliedBy server')) : i = j := by
  have hki := At.lt_length hi.met
  have hkj := At.lt_length hj.met
  rw [List.length_take] at hki hkj
  obtain ⟨ev, hev, hev'⟩ := ((at_take (by omega)).mp hi.met).and ((at_take (by omega)).mp hj.met)
  obtain rfl := hev.server_unique hev'
  -- the earlier of two replies would lie between the rendezvous and the later one
  rcases Nat.lt_trichotomy i j with hlt | heq | hgt
  · exact absurd ((at_take hlt).mpr ri) (hj.unanswered i (by omega))
  · exact heq
  · exact absurd ((at_take hgt).mpr rj) (hi.unanswered j (by omega))

end History

/-! ## Histories and abstract states -/

/-- The abstract state knows who waits to send. -/
def SendersKnown (es : List (IpcEvent THREADS ENDPOINTS)) (a : IpcSpec THREADS ENDPOINTS) :
    Prop :=
  ∀ (t : Fin THREADS) (e : Fin ENDPOINTS) (m : Message) (isCall : Bool),
    a.status t = .sending e m isCall ↔ WaitsToSend es isCall t e m

/-- The reply target of a server is the caller of a pending rendezvous. -/
def TargetsPending (es : List (IpcEvent THREADS ENDPOINTS)) (a : IpcSpec THREADS ENDPOINTS) :
    Prop :=
  ∀ s c : Fin THREADS, a.replyTarget s = some c → ∃ k, Pending es k s c

section Step

variable {es : List (IpcEvent THREADS ENDPOINTS)} {a a' : IpcSpec THREADS ENDPOINTS}
  {op : IpcOp} {r : IpcResult} {ipc ipc' : RendezvousIpc THREADS ENDPOINTS}

theorem SendersKnown.step (known : SendersKnown es a) (htrans : a.Transition op r a')
    (ref' : Refines ipc' a') : SendersKnown (es ++ [⟨ipc, op, r, ipc'⟩]) a' := by
  intro t e m isCall
  constructor
  · intro ht
    have hstate : ipc'.state t = some (.sending e) := by
      rw [ref'.state_coe, ht]
      rfl
    rcases htrans.sending_cases ht with hold | ⟨hop, hr⟩
    · obtain ⟨j, hj, hsince⟩ := (known t e m isCall).mp hold
      exact ⟨j, hj.snoc, hsince.snoc hstate⟩
    · exact ⟨es.length, at_length ⟨hop, hr⟩, since_length hstate⟩
  · rintro ⟨j, hj, hsince⟩
    rcases hj.snoc_cases with hold | ⟨rfl, hop, hr⟩
    · -- it was sending before the step and is sending after it, so it was not met
      obtain ⟨hsince, hlast⟩ := hsince.of_snoc hold.lt_length.le
      have ht := (known t e m isCall).mpr ⟨j, hold, hsince⟩
      rw [ref'.state_coe, Option.some.injEq, toState_eq_sending] at hlast
      exact (htrans.status_of_line (by rw [ht]; rfl) hlast).trans ht
    · exact htrans.of_blocked hop hr

/-- The rendezvous of a call, read off the history, is that of the abstract state. -/
theorem SendersKnown.meetsCall_iff (known : SendersKnown es a) (htrans : a.Transition op r a')
    {server caller : ThreadId} :
    MeetsCall es (⟨ipc, op, r, ipc'⟩ : IpcEvent THREADS ENDPOINTS) server caller ↔
      ∃ s c : Fin THREADS, server = s ∧ caller = c ∧ a.CallReceived op r c s := by
  constructor
  · rintro (⟨endpoint, m, hop, hr⟩ | ⟨endpoint, m, hop, hr, hwaits⟩)
    · have hop' : op = .transmit true caller endpoint m := hop
      obtain ⟨c, s, e, rest, rfl, rfl, rfl, hc, hq⟩ := htrans.of_transmit_delivered hop' hr
      exact ⟨s, c, rfl, rfl, .inl ⟨e, m, rest, hop, hr, hc, hq⟩⟩
    · obtain ⟨c, s, e, rest, m', isCall, rfl, rfl, rfl, hs, hq, hc⟩ :=
        htrans.of_receive_delivered hop hr
      exact ⟨s, c, rfl, rfl, .inr ⟨e, m, rest, hop, hr, hs, hq, (known c e m true).mpr hwaits⟩⟩
  · rintro ⟨s, c, rfl, rfl, ⟨e, m, rest, hop, hr, -⟩ | ⟨e, m, rest, hop, hr, -, -, hc⟩⟩
    · exact .inl ⟨e, m, hop, hr⟩
    · exact .inr ⟨e, m, hop, hr, (known c e m true).mp hc⟩

/-- Whoever gets a message can run afterwards. -/
theorem recipient_runnable (h : a.Transition op r a') {t : Fin THREADS}
    (ht : recipient op r = some t.val) : a'.status t = .runnable := by
  cases h with
  | @rejected op => cases op <;> cases ht
  | observed => cases ht
  | absent => cases ht
  | taken => cases ht
  | @parkedSender _ _ _ isCall => cases isCall <;> cases ht
  | parkedReceiver => cases ht
  | @metReceiver s u e rest m isCall hs hq =>
      obtain rfl : u = t := by
        cases isCall <;> exact Fin.ext (Option.some.inj ht)
      exact meet_status_receiver
  | @metSender s u e rest m isCall hu hq hs =>
      obtain rfl : u = t := Fin.ext (Option.some.inj ht)
      exact meet_status_receiver
  | @answered s c m hs hc =>
      obtain rfl : c = t := Fin.ext (Option.some.inj ht)
      rw [answer_status, Function.update_self]

/-- An inbox is left alone, or taken, or its thread is the recipient. -/
theorem inbox_of_not_recipient (h : a.Transition op r a') {t : Fin THREADS}
    (ht : recipient op r ≠ some t.val) : a'.inbox t = a.inbox t ∨ a'.inbox t = none := by
  rcases h.inbox_cases t with hkept | ⟨-, hnone⟩ | ⟨_, _, rfl, rfl, -⟩ |
    ⟨isCall, _, _, _, rfl, rfl⟩ | ⟨_, _, rfl, rfl⟩
  · exact .inl hkept
  · exact .inr hnone
  · exact absurd rfl ht
  · cases isCall <;> exact absurd rfl ht
  · exact absurd rfl ht

/-- A caller that waits after a step has been left waiting by it. -/
theorem leftWaiting_of_blocked (ref : Refines ipc a) (htrans : a.Transition op r a')
    (ref' : Refines ipc' a') {s c : Fin THREADS} (hc : a'.status c = .replyBlocked s) :
    LeftWaiting s c (⟨ipc, op, r, ipc'⟩ : IpcEvent THREADS ENDPOINTS) := by
  have hnot : recipient op r ≠ some c.val := by
    intro h
    rw [recipient_runnable htrans h] at hc
    cases hc
  refine ⟨?_, hnot, ?_⟩
  · rw [ref'.state_coe, hc]
    rfl
  · rw [ref'.inbox_eq, ref.inbox_eq]
    exact inbox_of_not_recipient htrans hnot

/-- **The reply target of a server is the caller of a pending rendezvous**, after every
step. -/
theorem TargetsPending.step (pending : TargetsPending es a) (known : SendersKnown es a)
    (ref : Refines ipc a) (htrans : a.Transition op r a') (ref' : Refines ipc' a') :
    TargetsPending (es ++ [⟨ipc, op, r, ipc'⟩]) a' := by
  intro s c hc
  have left := leftWaiting_of_blocked ref htrans ref' (a'.reply_blocked s c hc)
  rcases htrans.replyStep.target_cases hc with hnew | ⟨hold, hnot⟩
  · exact ⟨es.length, .start ((known.meetsCall_iff htrans).mpr ⟨s, c, rfl, rfl, hnew⟩) left⟩
  · obtain ⟨k, hk⟩ := pending s c hold
    refine ⟨k, hk.snoc ?_ ?_ left⟩
    · intro caller hmet
      obtain ⟨s', c', hs, -, hcall⟩ := (known.meetsCall_iff htrans).mp hmet
      obtain rfl : s = s' := Fin.ext hs
      exact hnot c' hcall
    · -- a reply would have used the target up
      rintro ⟨m, outcome, hop, hr⟩
      obtain ⟨s', c', hc', hs, -, rfl⟩ := htrans.of_reply hop hr
      obtain rfl : s = s' := Fin.ext hs
      rw [answer_replyTarget, Function.update_self] at hc
      cases hc

/-- A successful reply answers the reply target of its server. -/
theorem answers_of_reply (ref : Refines ipc a) (htrans : a.Transition op r a')
    (ref' : Refines ipc' a') {server : ThreadId} {m : Message} {outcome : IpcOutcome}
    (hop : op = .reply server m) (hr : r = .outcome (.ok outcome)) :
    ∃ s c : Fin THREADS, server = s ∧ a.replyTarget s = some c ∧
      Answers s c (⟨ipc, op, r, ipc'⟩ : IpcEvent THREADS ENDPOINTS) := by
  obtain ⟨s, c, hc, rfl, rfl, rfl⟩ := htrans.of_reply hop hr
  refine ⟨s, c, rfl, hc, m, hop, hr, ?_, ?_, ?_, ?_⟩
  · rw [ref.state_coe, a.reply_blocked s c hc]
    rfl
  · rw [ref'.state_coe, answer_status, Function.update_self]
    rfl
  · rw [ref'.inbox_eq, answer_inbox, Function.update_self]
  · intro thread hthread
    refine ref.inbox_congr ref' fun t ht => ?_
    rw [answer_inbox, Function.update_of_ne]
    rintro rfl
    exact hthread ht

/-- A waiting caller is woken by nothing but a reply of its server. -/
theorem answers_of_woken (ref : Refines ipc a) (htrans : a.Transition op r a')
    (ref' : Refines ipc' a') {caller server : ThreadId}
    (hbefore : ipc.state caller = some (.replyBlocked server))
    (hafter : ipc'.state caller ≠ ipc.state caller) :
    Answers server caller (⟨ipc, op, r, ipc'⟩ : IpcEvent THREADS ENDPOINTS) := by
  obtain ⟨c, s, rfl, rfl, hc⟩ := ref.state_eq_replyBlocked.mp hbefore
  rcases htrans.replyStep.blocked_cases hc with hstill | ⟨htarget, m, hop, hr⟩
  · refine absurd ?_ hafter
    rw [ref.state_coe, ref'.state_coe, hc, hstill]
  · obtain ⟨s', c', hs, htarget', hans⟩ := answers_of_reply ref htrans ref' hop hr
    obtain rfl : s = s' := Fin.ext hs
    obtain rfl : c = c' := Option.some.inj (htarget.symm.trans htarget')
    exact hans

end Step

/-! ## Runs -/

/-- Every successful reply answers the caller of a rendezvous that was pending. -/
def RepliesMatched (es : List (IpcEvent THREADS ENDPOINTS)) : Prop :=
  ∀ j server, At es j (RepliedBy server) →
    ∃ k caller, Pending (es.take j) k server caller ∧ At es j (Answers server caller)

/-- Every caller that stops waiting has been answered by its server. -/
def WokenByReply (ev : IpcEvent THREADS ENDPOINTS) : Prop :=
  ∀ caller server, ev.before.state caller = some (.replyBlocked server) →
    ev.after.state caller ≠ ev.before.state caller → Answers server caller ev

theorem RepliesMatched.step {es : List (IpcEvent THREADS ENDPOINTS)}
    {a a' : IpcSpec THREADS ENDPOINTS} {op : IpcOp} {r : IpcResult}
    {ipc ipc' : RendezvousIpc THREADS ENDPOINTS} (matched : RepliesMatched es)
    (pending : TargetsPending es a) (ref : Refines ipc a) (htrans : a.Transition op r a')
    (ref' : Refines ipc' a') : RepliesMatched (es ++ [⟨ipc, op, r, ipc'⟩]) := by
  intro j server hj
  rcases hj.snoc_cases with hold | ⟨rfl, m, outcome, hop, hr⟩
  · obtain ⟨k, caller, hk, hans⟩ := matched j server hold
    rw [List.take_append_of_le_length hold.lt_length.le]
    exact ⟨k, caller, hk, hans.snoc⟩
  · obtain ⟨s, c, rfl, hc, hans⟩ := answers_of_reply ref htrans ref' hop hr
    obtain ⟨k, hk⟩ := pending s c hc
    rw [List.take_left]
    exact ⟨k, c, hk, at_length hans⟩

/-- What a history says about calls and replies, and what the abstract state has to do
with it. -/
structure ReplyHistory (es : List (IpcEvent THREADS ENDPOINTS))
    (a : IpcSpec THREADS ENDPOINTS) : Prop where
  senders : SendersKnown es a
  targets : TargetsPending es a
  replies : RepliesMatched es
  woken : ∀ ev ∈ es, WokenByReply ev

theorem ReplyHistory.empty :
    ReplyHistory ([] : List (IpcEvent THREADS ENDPOINTS)) Rendezvous.idle where
  senders t e m isCall := by
    constructor
    · exact nofun
    · rintro ⟨j, hj, -⟩
      exact absurd hj.lt_length (Nat.not_lt_zero j)
  targets := nofun
  replies j server hj := absurd hj.lt_length (Nat.not_lt_zero j)
  woken := List.forall_mem_nil _

theorem ReplyHistory.step {es : List (IpcEvent THREADS ENDPOINTS)}
    {a a' : IpcSpec THREADS ENDPOINTS} {op : IpcOp} {r : IpcResult}
    {ipc ipc' : RendezvousIpc THREADS ENDPOINTS} (history : ReplyHistory es a)
    (ref : Refines ipc a) (htrans : a.Transition op r a') (ref' : Refines ipc' a') :
    ReplyHistory (es ++ [⟨ipc, op, r, ipc'⟩]) a' where
  senders := history.senders.step htrans ref'
  targets := history.targets.step history.senders ref htrans ref'
  replies := history.replies.step history.targets ref htrans ref'
  woken := by
    rw [List.forall_mem_append, List.forall_mem_singleton]
    exact ⟨history.woken, fun _ _ => answers_of_woken ref htrans ref'⟩

/-- The replies of a run are matched with distinct rendezvous. -/
theorem RepliesMatched.exists_meeting {es : List (IpcEvent THREADS ENDPOINTS)}
    (matched : RepliesMatched es) :
    ∃ meeting : ℕ → ℕ,
      (∀ j server, At es j (RepliedBy server) →
        ∃ caller, Pending (es.take j) (meeting j) server caller ∧
          At es j (Answers server caller)) ∧
      ∀ i j server server', At es i (RepliedBy server) → At es j (RepliedBy server') →
        meeting i = meeting j → i = j := by
  have hex : ∀ j, ∃ k, ∀ server, At es j (RepliedBy server) →
      ∃ caller, Pending (es.take j) k server caller ∧ At es j (Answers server caller) := by
    intro j
    -- the server of a reply is part of the operation, so one rendezvous serves for all
    by_cases h : ∃ server, At es j (RepliedBy server)
    · obtain ⟨server, hj⟩ := h
      obtain ⟨k, caller, hk⟩ := matched j server hj
      refine ⟨k, fun server' hj' => ⟨caller, ?_⟩⟩
      obtain ⟨ev, ⟨_, _, hop, -⟩, ⟨_, _, hop', -⟩⟩ := hj.and hj'
      have hserver := hop.symm.trans hop'
      injection hserver with hserver
      exact hserver ▸ hk
    · exact ⟨0, fun server hj => absurd ⟨server, hj⟩ h⟩
  choose meeting hmeeting using hex
  refine ⟨meeting, hmeeting, fun i j server server' hi hj heq => ?_⟩
  obtain ⟨_, hpi, -⟩ := hmeeting i server hi
  obtain ⟨_, hpj, -⟩ := hmeeting j server' hj
  rw [heq] at hpi
  exact hpi.reply_unique hpj hi hj

/-- **One-shot reply authority.**  In every run, each successful reply is matched with a
rendezvous of its own: a call that its server received, the latest one, with no reply
by the server in between.  It is delivered to exactly the caller of that rendezvous,
which has been left waiting until then.  Conversely, a thread that waits for a server
changes its state only by a successful reply of that server. -/
theorem one_shot_reply (THREADS ENDPOINTS : ℕ) (ops : List IpcOp) :
    ∃ es ipc, (ipcMachine THREADS ENDPOINTS).exec RendezvousIpc.new ops = some (es, ipc) ∧
      (∃ meeting : ℕ → ℕ,
        (∀ j server, At es j (RepliedBy server) →
          ∃ caller, Pending (es.take j) (meeting j) server caller ∧
            At es j (Answers server caller)) ∧
        ∀ i j server server', At es i (RepliedBy server) → At es j (RepliedBy server') →
          meeting i = meeting j → i = j) ∧
      ∀ ev ∈ es, WokenByReply ev := by
  obtain ⟨es, ipc, hexec, a, ref, history⟩ := refines_new.exec_of_transition
    (fun (es : List (IpcEvent THREADS ENDPOINTS)) a => ReplyHistory es a) .empty
    (fun history ref _ htrans ref' => history.step ref htrans ref') ops
  exact ⟨es, ipc, hexec, history.replies.exists_meeting, history.woken⟩

end Aegis.Ipc
