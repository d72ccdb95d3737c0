import Mathlib
import Aegis.Ipc.Coherence

/-!
# Which callers can be answered

A caller whose call has been received waits for a reply, and the receiving server
holds the authority to give it in a single field, its reply target.  Nothing keeps
a server from receiving another call before it has replied: the field is then
overwritten, and the first caller waits for a reply that no thread can give any more
(`stranded_forever`).

That is also the only way to lose a caller.  `Overwrites` says, of a state and an
operation, that the operation lets a call meet a server that still owes a reply; the
callers of a run stay answerable exactly as long as no operation of the run does
that.
-/

namespace Aegis.Ipc

open Foundation Foundation.Rendezvous

variable {THREADS ENDPOINTS : ℕ}

/-- Every caller that waits for a reply is the reply target of the server it waits
for. -/
def RendezvousIpc.Answerable (ipc : RendezvousIpc THREADS ENDPOINTS) : Prop :=
  ∀ client server, ipc.state client = some (.replyBlocked server) →
    ipc.replyTarget server = some client

/-- The operation lets a call meet a server that still owes a reply: a runnable
caller finds such a server first in line, or a runnable server that owes a reply
finds a caller first in line. -/
def RendezvousIpc.Overwrites (ipc : RendezvousIpc THREADS ENDPOINTS) : IpcOp → Prop
  | .call caller endpoint _ =>
      ipc.state caller = some .runnable ∧
        ∃ (e : Fin ENDPOINTS) (server client : ThreadId), endpoint = e ∧
          (ipc.queueAt (.receivers e)).waiting.head? = some (some server) ∧
          ipc.replyTarget server = some client
  | .receive server endpoint =>
      ipc.state server = some .runnable ∧
        ∃ (e : Fin ENDPOINTS) (caller client : ThreadId), endpoint = e ∧
          (ipc.queueAt (.senders e)).waiting.head? = some (some caller) ∧
          (ipc.threads[caller]?).map Thread.isCall = some true ∧
          ipc.replyTarget server = some client
  | _ => False

/-- Every caller that waits for a reply can be answered, abstractly. -/
def IpcSpec.Answerable (a : IpcSpec THREADS ENDPOINTS) : Prop :=
  ∀ c s, a.status c = .replyBlocked s → a.replyTarget s = some c

theorem Refines.answerable_iff {ipc : RendezvousIpc THREADS ENDPOINTS}
    {a : IpcSpec THREADS ENDPOINTS} (ref : Refines ipc a) : ipc.Answerable ↔ a.Answerable := by
  constructor
  · intro h c s hc
    have htarget := h c s (ref.state_eq_replyBlocked.mpr ⟨c, s, rfl, rfl, hc⟩)
    obtain ⟨s', c', hs, hc', htarget⟩ := ref.replyTarget_eq_some.mp htarget
    rwa [Fin.ext hs, Fin.ext hc']
  · intro h client server hclient
    obtain ⟨c, s, rfl, rfl, hc⟩ := ref.state_eq_replyBlocked.mp hclient
    exact ref.replyTarget_eq_some.mpr ⟨s, c, rfl, rfl, h c s hc⟩

/-! ## Steps -/

namespace IpcSpec

variable {a a' : IpcSpec THREADS ENDPOINTS} {op : IpcOp} {r : IpcResult}

/-- A call has been received: `s` has taken the call of `c`. -/
def CallReceived (a : IpcSpec THREADS ENDPOINTS) (op : IpcOp) (r : IpcResult)
    (c s : Fin THREADS) : Prop :=
  (∃ (e : Fin ENDPOINTS) (m : Message) (rest : List (Fin THREADS)), op = .call c e m ∧
    r = .outcome (.ok (.delivered s)) ∧ a.status c = .runnable ∧
    a.queue (.receivers e) = s :: rest) ∨
  ∃ (e : Fin ENDPOINTS) (m : Message) (rest : List (Fin THREADS)), op = .receive s e ∧
    r = .outcome (.ok (.delivered c)) ∧ a.status s = .runnable ∧
    a.queue (.senders e) = c :: rest ∧ a.status c = .sending e m true

/-- **What a step does to callers and their servers**: nothing, or a call is received
and its caller waits from now on, or a caller gets its reply. -/
inductive ReplyStep (a : IpcSpec THREADS ENDPOINTS) (op : IpcOp) (r : IpcResult)
    (a' : IpcSpec THREADS ENDPOINTS) : Prop
  | kept (blocked : ∀ x y, a'.status x = .replyBlocked y ↔ a.status x = .replyBlocked y)
      (target : a'.replyTarget = a.replyTarget)
      (notCall : ∀ c s, ¬ a.CallReceived op r c s)
  | received {c s : Fin THREADS} (call : a.CallReceived op r c s)
      (caller : ∀ y, a.status c ≠ .replyBlocked y)
      (server : ∀ y, a.status s ≠ .replyBlocked y)
      (blocked : ∀ x y, a'.status x = .replyBlocked y ↔
        x = c ∧ y = s ∨ a.status x = .replyBlocked y)
      (target : a'.replyTarget = Function.update a.replyTarget s (some c))
  | replied {s c : Fin THREADS} {m : Message} (hop : op = .reply s m)
      (hr : r = .outcome (.ok (.delivered c))) (htarget : a.replyTarget s = some c)
      (blocked : ∀ x y, a'.status x = .replyBlocked y ↔ x ≠ c ∧ a.status x = .replyBlocked y)
      (target : a'.replyTarget = Function.update a.replyTarget s none)

/-- Writing a status that does not wait over one that does not wait changes no
waits. -/
theorem blocked_update {status : Fin THREADS → Status (Fin THREADS) (Fin ENDPOINTS) Message}
    {t : Fin THREADS} {st : Status (Fin THREADS) (Fin ENDPOINTS) Message}
    (before : (status t).server = none) (after : st.server = none) (x y : Fin THREADS) :
    Function.update status t st x = .replyBlocked y ↔ status x = .replyBlocked y := by
  rcases eq_or_ne x t with rfl | hx
  · rw [Function.update_self]
    constructor
    · rintro rfl
      cases after
    · intro h
      rw [h] at before
      cases before
  · rw [Function.update_of_ne hx]

/-- A meeting in which no reply is asked for changes no waits. -/
theorem blocked_meet_send {s t : Fin THREADS} {e : Fin ENDPOINTS} {m : Message}
    {hs : a.status s = .runnable ∨ (a.status s).line = some (.senders e)}
    {ht : a.status t = .runnable ∨ (a.status t).line = some (.receivers e)} {hne : s ≠ t}
    (x y : Fin THREADS) :
    (a.meet s t e m false hs ht hne).status x = .replyBlocked y ↔
      a.status x = .replyBlocked y := by
  have hs' := Status.server_of_meeting hs
  rw [meet_status, blocked_update (by rwa [Function.update_of_ne hne]) rfl,
    blocked_update (Status.server_of_meeting ht) rfl]

/-- A meeting in which a reply is asked for makes the sender wait for the receiver. -/
theorem blocked_meet_call {s t : Fin THREADS} {e : Fin ENDPOINTS} {m : Message}
    {hs : a.status s = .runnable ∨ (a.status s).line = some (.senders e)}
    {ht : a.status t = .runnable ∨ (a.status t).line = some (.receivers e)} {hne : s ≠ t}
    (x y : Fin THREADS) :
    (a.meet s t e m true hs ht hne).status x = .replyBlocked y ↔
      x = s ∧ y = t ∨ a.status x = .replyBlocked y := by
  have hs' := Status.server_of_meeting hs
  rw [meet_status]
  rcases eq_or_ne x s with rfl | hx
  · rw [Function.update_self]
    constructor
    · intro h
      injection h with h
      exact .inl ⟨rfl, h.symm⟩
    · rintro (⟨-, rfl⟩ | h)
      · rfl
      · rw [h] at hs'
        cases hs'
  · rw [Function.update_of_ne hx, blocked_update (Status.server_of_meeting ht) rfl]
    simp [hx]

theorem CallReceived.ne_reply {c s : Fin THREADS} (h : a.CallReceived op r c s)
    {server : ThreadId} {m : Message} : op ≠ .reply server m := by
  rcases h with ⟨_, _, _, rfl, -⟩ | ⟨_, _, _, rfl, -⟩
  · exact nofun
  · exact nofun

theorem CallReceived.delivered {c s : Fin THREADS} (h : a.CallReceived op r c s) :
    ∃ peer, r = .outcome (.ok (.delivered peer)) := by
  rcases h with ⟨_, _, _, -, hr, -⟩ | ⟨_, _, _, -, hr, -⟩
  · exact ⟨_, hr⟩
  · exact ⟨_, hr⟩

/-- An operation receives one call at most. -/
theorem CallReceived.unique {c s c' s' : Fin THREADS} (h : a.CallReceived op r c s)
    (h' : a.CallReceived op r c' s') : c = c' ∧ s = s' := by
  rcases h with ⟨_, _, _, hop, hr, -⟩ | ⟨_, _, _, hop, hr, -⟩
  · rcases h' with ⟨_, _, _, hop', hr', -⟩ | ⟨_, _, _, hop', -⟩
    · rw [hop] at hop'
      rw [hr] at hr'
      simp only [IpcOp.call.injEq, IpcResult.outcome.injEq, Except.ok.injEq,
        IpcOutcome.delivered.injEq] at hop' hr'
      exact ⟨Fin.ext hop'.1, Fin.ext hr'⟩
    · cases hop.symm.trans hop'
  · rcases h' with ⟨_, _, _, hop', -⟩ | ⟨_, _, _, hop', hr', -⟩
    · cases hop.symm.trans hop'
    · rw [hop] at hop'
      rw [hr] at hr'
      simp only [IpcOp.receive.injEq, IpcResult.outcome.injEq, Except.ok.injEq,
        IpcOutcome.delivered.injEq] at hop' hr'
      exact ⟨Fin.ext hr', Fin.ext hop'.1⟩

/-- A step that delivers nothing and changes no waits and no targets. -/
theorem ReplyStep.of_silent
    (silent : ∀ peer, r ≠ .outcome (.ok (.delivered peer)))
    (blocked : ∀ x y, a'.status x = .replyBlocked y ↔ a.status x = .replyBlocked y)
    (target : a'.replyTarget = a.replyTarget) : ReplyStep a op r a' := by
  refine .kept blocked target fun c s h => ?_
  obtain ⟨peer, hr⟩ := h.delivered
  exact silent peer hr

theorem Transition.replyStep (h : a.Transition op r a') : ReplyStep a op r a' := by
  cases h with
  | rejected => exact .of_silent nofun (fun _ _ => .rfl) rfl
  | observed => exact .of_silent nofun (fun _ _ => .rfl) rfl
  | absent => exact .of_silent nofun (fun _ _ => .rfl) rfl
  | taken => exact .of_silent nofun (fun _ _ => .rfl) rfl
  | parkedSender m isCall hs hq =>
      exact .of_silent nofun (blocked_update (by rw [hs]; rfl) rfl) rfl
  | parkedReceiver hr hq =>
      exact .of_silent nofun (blocked_update (by rw [hr]; rfl) rfl) rfl
  | @metReceiver s t e rest m isCall hs hq =>
      cases isCall with
      | false =>
          refine .kept blocked_meet_send rfl ?_
          rintro _ _ (⟨_, _, _, hop, -⟩ | ⟨_, _, _, hop, -⟩)
          · cases hop
          · cases hop
      | true =>
          refine .received (.inl ⟨e, m, rest, rfl, rfl, hs, hq⟩) ?_ ?_ blocked_meet_call rfl
          · rw [hs]
            exact nofun
          · rw [a.receiving_of_queue hq]
            exact nofun
  | @metSender s t e rest m isCall ht hq hs =>
      cases isCall with
      | false =>
          refine .kept blocked_meet_send rfl ?_
          rintro c _ (⟨_, _, _, hop, -⟩ | ⟨_, _, _, -, hr, -, -, hc⟩)
          · cases hop
          · obtain rfl : s = c := by simpa [Fin.ext_iff] using hr
            rw [hs] at hc
            simp at hc
      | true =>
          refine .received (.inr ⟨e, m, rest, rfl, rfl, ht, hq, hs⟩) ?_ ?_ blocked_meet_call rfl
          · rw [hs]
            exact nofun
          · rw [ht]
            exact nofun
  | @answered s c m hs hc =>
      refine .replied rfl rfl hc (fun x y => ?_) rfl
      rw [answer_status]
      rcases eq_or_ne x c with rfl | hx
      · rw [Function.update_self]
        simp
      · rw [Function.update_of_ne hx]
        simp [hx]

/-- **Callers stay answerable** unless a call is received by a server that still owes
a reply. -/
theorem ReplyStep.answerable (h : ReplyStep a op r a') (hans : a.Answerable) :
    a'.Answerable ∨ ∃ c s d, a.CallReceived op r c s ∧ a.replyTarget s = some d := by
  cases h with
  | kept blocked target =>
      left
      intro x y hx
      rw [target]
      exact hans x y ((blocked x y).mp hx)
  | @received c s call caller server blocked target =>
      cases htarget : a.replyTarget s with
      | some d => exact .inr ⟨c, s, d, call, htarget⟩
      | none =>
          left
          intro x y hx
          rw [target]
          rcases (blocked x y).mp hx with ⟨rfl, rfl⟩ | hold
          · exact Function.update_self ..
          · have hy := hans x y hold
            rw [Function.update_of_ne, hy]
            rintro rfl
            rw [htarget] at hy
            cases hy
  | @replied s c m hop hr htarget blocked target =>
      left
      intro x y hx
      obtain ⟨hxc, hold⟩ := (blocked x y).mp hx
      have hy := hans x y hold
      rw [target, Function.update_of_ne, hy]
      rintro rfl
      rw [htarget, Option.some.injEq] at hy
      exact hxc hy.symm

/-- A caller that waits for a server waits on, or gets a reply from it. -/
theorem ReplyStep.blocked_cases (h : ReplyStep a op r a') {c s : Fin THREADS}
    (hc : a.status c = .replyBlocked s) :
    a'.status c = .replyBlocked s ∨
      a.replyTarget s = some c ∧ ∃ m, op = .reply s m ∧ r = .outcome (.ok (.delivered c)) := by
  cases h with
  | kept blocked => exact .inl ((blocked c s).mpr hc)
  | received call caller server blocked => exact .inl ((blocked c s).mpr (.inr hc))
  | @replied s' c' m hop hr htarget blocked =>
      rcases eq_or_ne c c' with rfl | hne
      · obtain rfl : s = s' := by
          rw [a.reply_blocked s' c htarget, Status.replyBlocked.injEq] at hc
          exact hc.symm
        exact .inr ⟨htarget, m, hop, hr⟩
      · exact .inl ((blocked c s).mpr ⟨hne, hc⟩)

/-- A reply target is the caller of a call just received, or was there before and its
server has received no call. -/
theorem ReplyStep.target_cases (h : ReplyStep a op r a') {s c : Fin THREADS}
    (hc : a'.replyTarget s = some c) :
    a.CallReceived op r c s ∨
      a.replyTarget s = some c ∧ ∀ d, ¬ a.CallReceived op r d s := by
  cases h with
  | kept blocked target notCall =>
      rw [target] at hc
      exact .inr ⟨hc, fun d => notCall d s⟩
  | @received c' s' call caller server blocked target =>
      rw [target] at hc
      rcases eq_or_ne s s' with rfl | hs
      · rw [Function.update_self, Option.some.injEq] at hc
        exact .inl (hc ▸ call)
      · rw [Function.update_of_ne hs] at hc
        exact .inr ⟨hc, fun d hd => hs (hd.unique call).2⟩
  | @replied s' c' m hop hr htarget blocked target =>
      rw [target] at hc
      rcases eq_or_ne s s' with rfl | hs
      · rw [Function.update_self] at hc
        cases hc
      · rw [Function.update_of_ne hs] at hc
        exact .inr ⟨hc, fun d hd => hd.ne_reply hop⟩

/-- A thread waits for a server that is not going to answer it. -/
def Stranded (a : IpcSpec THREADS ENDPOINTS) (c s : Fin THREADS) : Prop :=
  a.status c = .replyBlocked s ∧ a.replyTarget s ≠ some c

/-- Receiving a call while owing a reply strands the caller owed to. -/
theorem ReplyStep.strands (h : ReplyStep a op r a') {c s d : Fin THREADS}
    (call : a.CallReceived op r c s) (owed : a.replyTarget s = some d) : a'.Stranded d s := by
  have hd := a.reply_blocked s d owed
  cases h with
  | kept _ _ notCall => exact absurd call (notCall c s)
  | @received c' s' call' caller server blocked target =>
      obtain ⟨rfl, rfl⟩ := call.unique call'
      refine ⟨(blocked d s).mpr (.inr hd), ?_⟩
      -- the new target is the new caller, which was not waiting, as `d` is
      rw [target, Function.update_self]
      rintro ⟨⟩
      exact caller s hd
  | replied hop => exact absurd hop call.ne_reply

/-- Nothing helps a stranded caller. -/
theorem ReplyStep.stranded (h : ReplyStep a op r a') {c s : Fin THREADS}
    (hc : a.Stranded c s) : a'.Stranded c s := by
  obtain ⟨hblocked, htarget⟩ := hc
  cases h with
  | kept blocked target => exact ⟨(blocked c s).mpr hblocked, by rwa [target]⟩
  | @received c' s' call caller server blocked target =>
      refine ⟨(blocked c s).mpr (.inr hblocked), ?_⟩
      rw [target]
      rcases eq_or_ne s s' with rfl | hs
      · rw [Function.update_self]
        rintro ⟨⟩
        exact caller s hblocked
      · rwa [Function.update_of_ne hs]
  | @replied s' c' m hop hr htarget' blocked target =>
      -- the one who is answered is a reply target, and `c` is not
      have hcc : c ≠ c' := by
        rintro rfl
        have := a.reply_blocked s' c htarget'
        rw [hblocked, Status.replyBlocked.injEq] at this
        exact htarget (this ▸ htarget')
      refine ⟨(blocked c s).mpr ⟨hcc, hblocked⟩, ?_⟩
      rw [target]
      rcases eq_or_ne s s' with rfl | hs
      · rw [Function.update_self]
        exact nofun
      · rwa [Function.update_of_ne hs]

end IpcSpec

section Concrete

variable {ipc ipc' : RendezvousIpc THREADS ENDPOINTS} {a a' : IpcSpec THREADS ENDPOINTS}
  {op : IpcOp} {r : IpcResult}

theorem Refines.waiting_head (ref : Refines ipc a) {k : Line (Fin ENDPOINTS)}
    {thread : ThreadId} :
    (ipc.queueAt k).waiting.head? = some (some thread) ↔
      ∃ t rest, a.queue k = t :: rest ∧ thread = t := by
  rw [(ref.queues k).waiting_eq, List.head?_map]
  cases a.queue k with
  | nil => simp
  | cons t rest =>
      simp only [List.head?_cons, Option.map_some, Option.some.injEq, List.cons.injEq]
      constructor
      · intro h
        exact ⟨t, rest, ⟨rfl, rfl⟩, h.symm⟩
      · rintro ⟨u, rest', ⟨rfl, -⟩, h⟩
        exact h.symm

/-- The call flag of a waiting sender is the flag it was parked with. -/
theorem Refines.isCall_of_sending (ref : Refines ipc a) {c : Fin THREADS} {e : Fin ENDPOINTS}
    {m : Message} {isCall : Bool} (hc : a.status c = .sending e m isCall) :
    (ipc.threads[c.val]?).map Thread.isCall = some isCall := by
  rw [Vector.getElem?_eq_getElem c.isLt, Option.map_some, Option.some.injEq]
  exact ((ref.threads c).parked e m isCall hc).2

/-- The concrete condition is the abstract one: a call is received by a server that
owes a reply. -/
theorem Refines.overwrites_iff (ref : Refines ipc a)
    (hstep : (ipcMachine THREADS ENDPOINTS).step ipc op = some (r, ipc')) :
    ipc.Overwrites op ↔ ∃ c s d, a.CallReceived op r c s ∧ a.replyTarget s = some d := by
  constructor
  · intro h
    cases op with
    | call caller endpoint m =>
        obtain ⟨hrun, e, server, client, rfl, hhead, htarget⟩ := h
        obtain ⟨c, rfl, hc⟩ := ref.state_eq_runnable.mp hrun
        obtain ⟨s, rest, hq, rfl⟩ := ref.waiting_head.mp hhead
        obtain ⟨s', d, hs', -, hd⟩ := ref.replyTarget_eq_some.mp htarget
        obtain rfl : s = s' := Fin.ext hs'
        obtain ⟨ipc₁, heval, -⟩ := RendezvousIpc.transmit_met ref true m hc hq
        cases (step_of_call (step_transmit true c e m) heval).symm.trans hstep
        exact ⟨c, s, d, .inl ⟨e, m, rest, rfl, rfl, hc, hq⟩, hd⟩
    | receive server endpoint =>
        obtain ⟨hrun, e, caller, client, rfl, hhead, hflag, htarget⟩ := h
        obtain ⟨s, rfl, hs⟩ := ref.state_eq_runnable.mp hrun
        obtain ⟨c, rest, hq, rfl⟩ := ref.waiting_head.mp hhead
        obtain ⟨s', d, hs', -, hd⟩ := ref.replyTarget_eq_some.mp htarget
        obtain rfl : s = s' := Fin.ext hs'
        obtain ⟨m, isCall, hc⟩ := a.sending_of_queue hq
        obtain rfl : isCall = true := by
          rw [ref.isCall_of_sending hc] at hflag
          exact Option.some.inj hflag
        obtain ⟨ipc₁, heval, -⟩ := RendezvousIpc.receive_met ref hs hq hc
        cases (step_of_call (step_receive s e) heval).symm.trans hstep
        exact ⟨c, s, d, .inr ⟨e, m, rest, rfl, rfl, hs, hq, hc⟩, hd⟩
    | send => exact h.elim
    | reply => exact h.elim
    | takeMessage => exact h.elim
    | state => exact h.elim
  · rintro ⟨c, s, d, ⟨e, m, rest, rfl, -, hc, hq⟩ | ⟨e, m, rest, rfl, -, hs, hq, hc⟩, hd⟩
    · exact ⟨ref.state_eq_runnable.mpr ⟨c, rfl, hc⟩, e, s, d, rfl,
        ref.waiting_head.mpr ⟨s, rest, hq, rfl⟩,
        ref.replyTarget_eq_some.mpr ⟨s, d, rfl, rfl, hd⟩⟩
    · exact ⟨ref.state_eq_runnable.mpr ⟨s, rfl, hs⟩, e, c, d, rfl,
        ref.waiting_head.mpr ⟨c, rest, hq, rfl⟩, ref.isCall_of_sending hc,
        ref.replyTarget_eq_some.mpr ⟨s, d, rfl, rfl, hd⟩⟩

/-- **One step**: while every waiting caller can be answered, this stays so exactly if
the operation does not overwrite a reply target. -/
theorem Refines.answerable_step (ref : Refines ipc a)
    (hstep : (ipcMachine THREADS ENDPOINTS).step ipc op = some (r, ipc'))
    (htrans : a.Transition op r a') (hans : a.Answerable) :
    ¬ ipc.Overwrites op ↔ a'.Answerable := by
  rw [ref.overwrites_iff hstep]
  constructor
  · intro h
    exact (htrans.replyStep.answerable hans).resolve_right h
  · rintro hans' ⟨c, s, d, call, owed⟩
    obtain ⟨hblocked, htarget⟩ := htrans.replyStep.strands call owed
    exact htarget (hans' d s hblocked)

end Concrete

/-! ## Runs -/

/-- **Callers can be answered exactly as long as no reply target is overwritten.**  In
every run, if no operation lets a call meet a server that still owes a reply, then in
every state of the run each caller waiting for a reply is the reply target of the
server it waits for; and a run with such an operation goes through a state where this
fails. -/
theorem answerable_iff_no_overwrite (ops : List IpcOp) :
    ∃ es ipc, (ipcMachine THREADS ENDPOINTS).exec RendezvousIpc.new ops = some (es, ipc) ∧
      ((∀ ev ∈ es, ¬ ev.before.Overwrites ev.op) ↔
        (∀ ev ∈ es, ev.before.Answerable) ∧ ipc.Answerable) := by
  have hidle : IpcSpec.Answerable (Rendezvous.idle : IpcSpec THREADS ENDPOINTS) := by
    intro c s hc
    cases hc
  obtain ⟨es, ipc, hexec, a, ref, hiff⟩ := refines_new.exec_of_transition
    (fun (es : List (IpcEvent THREADS ENDPOINTS)) a =>
      (∀ ev ∈ es, ¬ ev.before.Overwrites ev.op) ↔
        (∀ ev ∈ es, ev.before.Answerable) ∧ a.Answerable)
    (by simpa using hidle)
    (fun hiff ref hstep htrans _ => by
      rw [List.forall_mem_append, List.forall_mem_append, List.forall_mem_singleton,
        List.forall_mem_singleton, hiff, ref.answerable_iff]
      exact and_congr_right fun h => ref.answerable_step hstep htrans h.2) ops
  exact ⟨es, ipc, hexec, by rw [hiff, ref.answerable_iff]⟩

/-- A stranded caller stays blocked whatever any thread does, and no thread ever has
it as its reply target again. -/
theorem Refines.stranded_forever {ipc : RendezvousIpc THREADS ENDPOINTS}
    {a : IpcSpec THREADS ENDPOINTS} (ref : Refines ipc a) {c s : Fin THREADS}
    (hc : a.Stranded c s) (ops : List IpcOp) :
    ∃ es ipc', (ipcMachine THREADS ENDPOINTS).exec ipc ops = some (es, ipc') ∧
      ipc'.state c = some (.replyBlocked s) ∧
      ∀ server, ipc'.replyTarget server ≠ some c.val := by
  obtain ⟨es, ipc', hexec, a', ref', hblocked, htarget⟩ := ref.exec_of_transition
    (fun _ a => a.Stranded c s) hc (fun hc _ _ htrans _ => htrans.replyStep.stranded hc) ops
  refine ⟨es, ipc', hexec, ?_, ?_⟩
  · rw [ref'.state_coe, hblocked]
    rfl
  · intro server h
    obtain ⟨s', c', -, hc', htarget'⟩ := ref'.replyTarget_eq_some.mp h
    obtain rfl : c = c' := Fin.ext hc'
    have hblocked' := a'.reply_blocked s' c htarget'
    rw [hblocked, Status.replyBlocked.injEq] at hblocked'
    exact htarget (hblocked' ▸ htarget')

/-- A message with a label and nothing else. -/
def labelled (label : UInt16) : Message := ⟨label, 0, Vector.replicate 4 0, none⟩

/-- Threads 1 and 2 call an endpoint, and thread 0 receives both calls. -/
def twoCalls : List IpcOp :=
  [.call 1 0 (labelled 1), .call 2 0 (labelled 2), .receive 0 0, .receive 0 0]

/-- **A caller that is never answered.**  When thread 0 has received the calls of
threads 1 and 2, both wait for it and its reply target is thread 2.  Whatever happens
later, thread 1 stays blocked and no thread has it as its reply target. -/
theorem second_call_strands_first :
    ∃ es ipc, (ipcMachine 3 1).exec RendezvousIpc.new twoCalls = some (es, ipc) ∧
      ipc.state 1 = some (.replyBlocked 0) ∧ ipc.replyTarget 0 = some 2 ∧
      ∀ ops, ∃ fs ipc', (ipcMachine 3 1).exec ipc ops = some (fs, ipc') ∧
        ipc'.state 1 = some (.replyBlocked 0) ∧ ∀ server, ipc'.replyTarget server ≠ some 1 := by
  obtain ⟨es, ipc, hexec, a, ref⟩ := (@refines_new 3 1).exec twoCalls
  have hrun : ((ipcMachine 3 1).exec RendezvousIpc.new twoCalls).map
      (fun run => (run.2.state 1, run.2.replyTarget 0)) =
        some (some (.replyBlocked 0), some 2) := by
    decide +kernel
  rw [hexec, Option.map_some, Option.some.injEq, Prod.mk.injEq] at hrun
  obtain ⟨hstate, htarget⟩ := hrun
  refine ⟨es, ipc, hexec, hstate, htarget, ref.stranded_forever (c := 1) (s := 0) ⟨?_, ?_⟩⟩
  · have hstatus := (ref.state_coe 1).symm.trans hstate
    exact toState_eq_replyBlocked.mp (Option.some.inj hstatus)
  · intro h
    have htarget' := ref.replyTarget_eq_some.mpr ⟨0, 1, rfl, rfl, h⟩
    cases htarget.symm.trans htarget'

end Aegis.Ipc
