import Mathlib
import Aegis.Foundation.Ring
import Aegis.Ipc.Evaluation
import Aegis.Ipc.Transition

/-!
# The kernel object refines rendezvous

`Refines ipc a` relates the tables of the kernel object to an abstract state: each
ring buffer holds a line, and each thread agrees with its abstract status.  The
message and the call flag of a thread count only while it is sending; at other
times they are left over from earlier and the abstract state does not have them.

`ipcStep_refines` is the step lemma.  Given an abstract state and an operation, it
names one result and one abstract transition, and *every* kernel object that
refines the state returns that result and follows that transition.  In particular
no operation panics.
-/

namespace Aegis.Ipc

open Foundation Foundation.Rendezvous

variable {THREADS ENDPOINTS : ℕ}

/-! ## Queues -/

namespace Queue

/-- The ring buffer holds this line of threads. -/
structure Holds (queue : Queue THREADS) (l : List (Fin THREADS)) : Prop where
  len : queue.len = l.length
  ring : RingHolds queue.entries queue.head (l.map Fin.val)

theorem holds_iff {queue : Queue THREADS} {l : List (Fin THREADS)} :
    queue.Holds l ↔ queue.Represents (l.map Fin.val) := by
  constructor
  · rintro ⟨len, ring⟩
    exact ⟨by rw [len, List.length_map], ring⟩
  · rintro ⟨len, ring⟩
    exact ⟨by rw [len, List.length_map], ring⟩

theorem holds_new : (new : Queue THREADS).Holds [] :=
  holds_iff.mpr represents_new

theorem push_eq {queue : Queue THREADS} {l : List (Fin THREADS)} (h : queue.Holds l)
    (room : l.length < THREADS) (t : Fin THREADS) :
    ∃ queue', push t queue = some (.ok (), queue') ∧ queue'.Holds (l ++ [t]) := by
  obtain ⟨queue', hpush, h'⟩ :=
    (holds_iff.mp h).push_room (by rwa [List.length_map]) t.val
  refine ⟨queue', hpush, holds_iff.mpr ?_⟩
  rwa [List.map_append, List.map_singleton]

theorem pop_cons {queue : Queue THREADS} {t : Fin THREADS} {l : List (Fin THREADS)}
    (h : queue.Holds (t :: l)) :
    ∃ queue', pop queue = some (.ok (some t.val), queue') ∧ queue'.Holds l := by
  obtain ⟨queue', hpop, h'⟩ := (holds_iff.mp h).pop_cons
  exact ⟨queue', hpop, holds_iff.mpr h'⟩

end Queue

/-! ## The refinement relation -/

/-- A thread agrees with its abstract status, inbox and reply target. -/
structure ThreadMatches (thread : Thread)
    (status : Status (Fin THREADS) (Fin ENDPOINTS) Message) (inbox : Option Message)
    (target : Option (Fin THREADS)) : Prop where
  state : thread.state = toState status
  parked : ∀ e m isCall, status = .sending e m isCall →
    thread.outgoing = m ∧ thread.isCall = isCall
  inbox : thread.inbox = inbox
  target : thread.replyTarget = target.map Fin.val

/-- The kernel object stands for the abstract state. -/
structure Refines (ipc : RendezvousIpc THREADS ENDPOINTS) (a : IpcSpec THREADS ENDPOINTS) :
    Prop where
  threads : ∀ t, ThreadMatches (ipc.threadAt t) (a.status t) (a.inbox t) (a.replyTarget t)
  queues : ∀ k, (ipc.queueAt k).Holds (a.queue k)

theorem refines_new :
    Refines (RendezvousIpc.new : RendezvousIpc THREADS ENDPOINTS) Rendezvous.idle where
  threads t := by
    have : (RendezvousIpc.new : RendezvousIpc THREADS ENDPOINTS).threadAt t = EMPTY_THREAD := by
      simp [RendezvousIpc.threadAt, RendezvousIpc.new]
    rw [this]
    refine ⟨rfl, fun e m isCall hsending => ?_, rfl, rfl⟩
    cases hsending
  queues k := by
    have : (RendezvousIpc.new : RendezvousIpc THREADS ENDPOINTS).queueAt k = Queue.new := by
      cases k <;> simp [RendezvousIpc.queueAt, RendezvousIpc.new, Endpoint.new]
    rw [this]
    exact Queue.holds_new

theorem toState_eq_sending {st : Status (Fin THREADS) (Fin ENDPOINTS) Message}
    {e : Fin ENDPOINTS} : toState st = .sending e ↔ st.line = some (.senders e) := by
  cases st <;> simp [toState, Status.line, Fin.ext_iff]

theorem toState_eq_receiving {st : Status (Fin THREADS) (Fin ENDPOINTS) Message}
    {e : Fin ENDPOINTS} : toState st = .receiving e ↔ st.line = some (.receivers e) := by
  cases st <;> simp [toState, Status.line, Fin.ext_iff]

theorem toState_eq_replyBlocked {st : Status (Fin THREADS) (Fin ENDPOINTS) Message}
    {s : Fin THREADS} : toState st = .replyBlocked s ↔ st = .replyBlocked s := by
  cases st <;> simp [toState, Fin.ext_iff]

theorem toState_eq_runnable {st : Status (Fin THREADS) (Fin ENDPOINTS) Message} :
    toState st = .runnable ↔ st = .runnable := by
  cases st <;> simp [toState]

namespace Refines

variable {ipc ipc' : RendezvousIpc THREADS ENDPOINTS} {a : IpcSpec THREADS ENDPOINTS}

theorem state_eq (ref : Refines ipc a) (thread : ThreadId) :
    ipc.state thread = a.reported thread := by
  unfold RendezvousIpc.state IpcSpec.reported
  split
  · next h =>
      rw [Vector.getElem?_eq_getElem h, Option.map_some, ← (ref.threads ⟨thread, h⟩).state]
      rfl
  · next h => rw [Vector.getElem?_eq_none (Nat.le_of_not_lt h), Option.map_none]

/-- What the kernel reports of a thread in range. -/
theorem state_coe (ref : Refines ipc a) (t : Fin THREADS) :
    ipc.state t = some (toState (a.status t)) := by
  rw [ref.state_eq, IpcSpec.reported, dif_pos t.isLt]

/-- A thread number with a state is in range. -/
theorem state_eq_some (ref : Refines ipc a) {thread : ThreadId} {st : ThreadState} :
    ipc.state thread = some st ↔ ∃ t : Fin THREADS, thread = t ∧ toState (a.status t) = st := by
  constructor
  · intro h
    rw [ref.state_eq, IpcSpec.reported] at h
    split at h
    · next hlt => exact ⟨⟨thread, hlt⟩, rfl, Option.some.inj h⟩
    · cases h
  · rintro ⟨t, rfl, rfl⟩
    exact ref.state_coe t

theorem state_eq_runnable (ref : Refines ipc a) {thread : ThreadId} :
    ipc.state thread = some .runnable ↔
      ∃ t : Fin THREADS, thread = t ∧ a.status t = .runnable := by
  simp only [ref.state_eq_some, toState_eq_runnable]

/-- A thread that waits for a reply is in range, and so is the server it waits for. -/
theorem state_eq_replyBlocked (ref : Refines ipc a) {client server : ThreadId} :
    ipc.state client = some (.replyBlocked server) ↔
      ∃ c s : Fin THREADS, client = c ∧ server = s ∧ a.status c = .replyBlocked s := by
  rw [ref.state_eq_some]
  constructor
  · rintro ⟨c, rfl, hc⟩
    cases hstatus : a.status c with
    | replyBlocked s =>
        rw [hstatus] at hc
        injection hc with hc
        exact ⟨c, s, rfl, hc.symm, hstatus⟩
    | runnable => rw [hstatus] at hc; cases hc
    | sending => rw [hstatus] at hc; cases hc
    | receiving => rw [hstatus] at hc; cases hc
  · rintro ⟨c, s, rfl, rfl, hc⟩
    exact ⟨c, rfl, toState_eq_replyBlocked.mpr hc⟩

theorem inbox_eq (ref : Refines ipc a) (t : Fin THREADS) : ipc.inbox t = a.inbox t := by
  rw [RendezvousIpc.inbox, Vector.getElem?_eq_getElem t.isLt, Option.bind_some,
    ← (ref.threads t).inbox]
  rfl

/-- An inbox that a step leaves alone. -/
theorem inbox_congr (ref : Refines ipc a) {a' : IpcSpec THREADS ENDPOINTS}
    (ref' : Refines ipc' a') {thread : ThreadId}
    (h : ∀ t : Fin THREADS, thread = t → a'.inbox t = a.inbox t) :
    ipc'.inbox thread = ipc.inbox thread := by
  rcases Nat.lt_or_ge thread THREADS with hlt | hge
  · rw [ref.inbox_eq ⟨thread, hlt⟩, ref'.inbox_eq ⟨thread, hlt⟩, h ⟨thread, hlt⟩ rfl]
  · rw [RendezvousIpc.inbox, RendezvousIpc.inbox, Vector.getElem?_eq_none hge,
      Vector.getElem?_eq_none hge]

theorem replyTarget_eq (ref : Refines ipc a) (t : Fin THREADS) :
    ipc.replyTarget t = (a.replyTarget t).map Fin.val := by
  rw [RendezvousIpc.replyTarget, Vector.getElem?_eq_getElem t.isLt, Option.bind_some,
    ← (ref.threads t).target]
  rfl

/-- A reply target belongs to a thread in range and names one. -/
theorem replyTarget_eq_some (ref : Refines ipc a) {server client : ThreadId} :
    ipc.replyTarget server = some client ↔
      ∃ s c : Fin THREADS, server = s ∧ client = c ∧ a.replyTarget s = some c := by
  constructor
  · intro h
    have hlt : server < THREADS := by
      by_contra hge
      rw [RendezvousIpc.replyTarget, Vector.getElem?_eq_none (Nat.le_of_not_lt hge)] at h
      cases h
    rw [ref.replyTarget_eq ⟨server, hlt⟩, Option.map_eq_some_iff] at h
    obtain ⟨c, hc, rfl⟩ := h
    exact ⟨⟨server, hlt⟩, c, rfl, rfl, hc⟩
  · rintro ⟨s, c, rfl, rfl, hc⟩
    rw [ref.replyTarget_eq, hc]
    rfl

/-! ### Checks -/

theorem runnable (ref : Refines ipc a) {t : Fin THREADS} (h : a.status t = .runnable) :
    (ipc.threadAt t).state = .runnable := by
  rw [(ref.threads t).state, h]
  rfl

theorem not_runnable (ref : Refines ipc a) {t : Fin THREADS} (h : a.status t ≠ .runnable) :
    (ipc.threadAt t).state ≠ .runnable := by
  rw [(ref.threads t).state]
  exact fun hrun => h (toState_eq_runnable.mp hrun)

theorem len_eq_zero (ref : Refines ipc a) {k : Line (Fin ENDPOINTS)} (h : a.queue k = []) :
    (ipc.queueAt k).len = 0 := by
  rw [(ref.queues k).len, h]
  rfl

theorem target_eq_none (ref : Refines ipc a) {s : Fin THREADS} (h : a.replyTarget s = none) :
    (ipc.threadAt s).replyTarget = none := by
  rw [(ref.threads s).target, h]
  rfl

theorem target_eq_some (ref : Refines ipc a) {s c : Fin THREADS}
    (h : a.replyTarget s = some c) : (ipc.threadAt s).replyTarget = some c.val := by
  rw [(ref.threads s).target, h]
  rfl

theorem replyBlocked (ref : Refines ipc a) {s c : Fin THREADS}
    (h : a.status c = .replyBlocked s) : (ipc.threadAt c).state = .replyBlocked s := by
  rw [(ref.threads c).state, h]
  rfl

/-! ### Writes -/

/-- The call flag of a thread that is not sending does not count. -/
theorem setIsCall (ref : Refines ipc a) {t : Fin THREADS} (h : a.status t = .runnable)
    (isCall : Bool)
    (threads : ipc'.threadAt = Function.update ipc.threadAt t { ipc.threadAt t with isCall })
    (queues : ipc'.queueAt = ipc.queueAt) : Refines ipc' a where
  threads u := by
    rw [threads]
    rcases eq_or_ne u t with rfl | hu
    · rw [Function.update_self]
      refine ⟨(ref.threads u).state, fun e m isCall hsending => ?_, (ref.threads u).inbox,
        (ref.threads u).target⟩
      rw [h] at hsending
      cases hsending
    · rw [Function.update_of_ne hu]
      exact ref.threads u
  queues k := by
    rw [queues]
    exact ref.queues k

/-- A thread that joins a line keeps its inbox and reply target. -/
theorem park (ref : Refines ipc a) {t : Fin THREADS}
    {st : Status (Fin THREADS) (Fin ENDPOINTS) Message} {k : Line (Fin ENDPOINTS)}
    {ht : a.status t = .runnable} {hst : st.line = some k} {hk : a.queue k.opposite = []}
    {queue : Queue THREADS} (thread : Thread)
    (hthread : ThreadMatches thread st (a.inbox t) (a.replyTarget t))
    (hqueue : queue.Holds (a.queue k ++ [t]))
    (threads : ipc'.threadAt = Function.update ipc.threadAt t thread)
    (queues : ipc'.queueAt = Function.update ipc.queueAt k queue) :
    Refines ipc' (a.park t st k ht hst hk) where
  threads u := by
    rw [threads, park_status, park_inbox, park_replyTarget]
    rcases eq_or_ne u t with rfl | hu
    · rw [Function.update_self, Function.update_self]
      exact hthread
    · rw [Function.update_of_ne hu, Function.update_of_ne hu]
      exact ref.threads u
  queues l := by
    rw [queues, park_queue]
    rcases eq_or_ne l k with rfl | hl
    · rw [Function.update_self, Function.update_self]
      exact hqueue
    · rw [Function.update_of_ne hl, Function.update_of_ne hl]
      exact ref.queues l

/-- A meeting changes the two threads that meet and the line one of them was in. -/
theorem meet (ref : Refines ipc a) {s r : Fin THREADS} {e : Fin ENDPOINTS} {m : Message}
    {isCall : Bool} {hs : a.status s = .runnable ∨ (a.status s).line = some (.senders e)}
    {hr : a.status r = .runnable ∨ (a.status r).line = some (.receivers e)} {hne : s ≠ r}
    (receiver : ThreadMatches (ipc'.threadAt r)
      (.runnable : Status (Fin THREADS) (Fin ENDPOINTS) Message) (some m)
      (if isCall then some s else a.replyTarget r))
    (sender : ThreadMatches (ipc'.threadAt s)
      (afterMeeting r isCall : Status (Fin THREADS) (Fin ENDPOINTS) Message) (a.inbox s)
      (a.replyTarget s))
    (others : ∀ t, t ≠ s → t ≠ r → ipc'.threadAt t = ipc.threadAt t)
    (queues : ∀ k, (ipc'.queueAt k).Holds ((a.meet s r e m isCall hs hr hne).queue k)) :
    Refines ipc' (a.meet s r e m isCall hs hr hne) where
  threads t := by
    have htarget : ∀ t ≠ r, (a.meet s r e m isCall hs hr hne).replyTarget t =
        a.replyTarget t := by
      intro t htr
      cases isCall with
      | false => rfl
      | true => exact Function.update_of_ne htr _ _
    rcases eq_or_ne t s with rfl | hts
    · rw [htarget t hne, meet_status, meet_inbox, Function.update_self,
        Function.update_of_ne hne]
      exact sender
    · rcases eq_or_ne t r with rfl | htr
      · rw [meet_status, meet_inbox, meet_replyTarget, Function.update_of_ne hts,
          Function.update_self, Function.update_self]
        cases isCall with
        | false => exact receiver
        | true => simpa using receiver
      · rw [htarget t htr, meet_status, meet_inbox, Function.update_of_ne hts,
          Function.update_of_ne htr, Function.update_of_ne htr, others t hts htr]
        exact ref.threads t
  queues := queues

/-- One queue after another line has been written to it. -/
theorem holds_update (ref : Refines ipc a) {k : Line (Fin ENDPOINTS)} {queue : Queue THREADS}
    {l : List (Fin THREADS)} (h : queue.Holds l) (k' : Line (Fin ENDPOINTS)) :
    (Function.update ipc.queueAt k queue k').Holds (Function.update a.queue k l k') := by
  rcases eq_or_ne k' k with rfl | hk
  · rw [Function.update_self, Function.update_self]
    exact h
  · rw [Function.update_of_ne hk, Function.update_of_ne hk]
    exact ref.queues k'

/-- There is room in a line for a runnable thread. -/
theorem push_eq (ref : Refines ipc a) {t : Fin THREADS} (ht : a.status t = .runnable)
    (k : Line (Fin ENDPOINTS)) :
    ∃ queue, Queue.push t (ipc.queueAt k) = some (.ok (), queue) ∧
      queue.Holds (a.queue k ++ [t]) := by
  refine Queue.push_eq (ref.queues k) ?_ t
  -- `t` itself is in no line, so no line holds all threads
  have hline : (a.status t).line = none := by
    rw [ht]
    rfl
  simpa using a.waiting.length_lt_card hline k

end Refines

/-! ## Operations -/

namespace RendezvousIpc

variable {ipc : RendezvousIpc THREADS ENDPOINTS} {a : IpcSpec THREADS ENDPOINTS}

/-! ### Sending and calling -/

/-- With no receiver waiting, the sender parks. -/
theorem transmit_parked (ref : Refines ipc a) (isCall : Bool) {s : Fin THREADS}
    {e : Fin ENDPOINTS} (m : Message) (hs : a.status s = .runnable)
    (hq : a.queue (.receivers e) = []) :
    ∃ ipc', transmit isCall s e m ipc = some (.ok .blocked, ipc') ∧
      Refines ipc' (a.parkSender m isCall hs hq) := by
  obtain ⟨queue, hpush, hqueue⟩ := ref.push_eq hs (.senders e)
  obtain ⟨ipc', heval, threads, queues⟩ :=
    transmit_parks isCall m (ref.runnable hs) (ref.len_eq_zero hq) hpush
  refine ⟨ipc', heval, ref.park _ ?_ hqueue threads queues⟩
  refine ⟨rfl, ?_, (ref.threads s).inbox, (ref.threads s).target⟩
  rintro e' m' isCall' ⟨⟩
  exact ⟨rfl, rfl⟩

/-- A waiting receiver is met. -/
theorem transmit_met (ref : Refines ipc a) (isCall : Bool) {s r : Fin THREADS}
    {e : Fin ENDPOINTS} {rest : List (Fin THREADS)} (m : Message)
    (hs : a.status s = .runnable) (hq : a.queue (.receivers e) = r :: rest) :
    ∃ ipc', transmit isCall s e m ipc = some (.ok (.delivered r), ipc') ∧
      Refines ipc' (a.meetReceiver m isCall hs hq) := by
  obtain ⟨queue, hpop, hrest⟩ := Queue.pop_cons (hq ▸ ref.queues (.receivers e))
  have hne := a.ne_of_receiver hs hq
  obtain ⟨ipc', heval, threads, queues⟩ :=
    transmit_meets isCall m (ref.runnable hs) hne hpop
  refine ⟨ipc', heval, ref.meet ?receiver ?sender ?others ?queues⟩
  case receiver =>
    rw [threads, Function.update_self]
    refine ⟨rfl, nofun, rfl, ?_⟩
    cases isCall with
    | false => exact (ref.threads r).target
    | true => rfl
  case sender =>
    rw [threads, Function.update_of_ne hne, Function.update_self]
    refine ⟨?_, fun _ _ _ h => absurd h afterMeeting_ne_sending, (ref.threads s).inbox,
      (ref.threads s).target⟩
    cases isCall with
    | false => rfl
    | true => rfl
  case others =>
    intro t hts htr
    rw [threads, Function.update_of_ne htr, Function.update_of_ne hts]
  case queues =>
    intro k
    rw [queues, meet_queue_of_receiver hq]
    exact ref.holds_update hrest k

/-! ### Receiving -/

/-- With no sender waiting, the receiver parks. -/
theorem receive_parked (ref : Refines ipc a) {r : Fin THREADS} {e : Fin ENDPOINTS}
    (hr : a.status r = .runnable) (hq : a.queue (.senders e) = []) :
    ∃ ipc', receive r e ipc = some (.ok .blocked, ipc') ∧
      Refines ipc' (a.parkReceiver hr hq) := by
  obtain ⟨queue, hpush, hqueue⟩ := ref.push_eq hr (.receivers e)
  obtain ⟨ipc', heval, threads, queues⟩ :=
    receive_parks (ref.runnable hr) (ref.len_eq_zero hq) hpush
  refine ⟨ipc', heval, ref.park _ ?_ hqueue threads queues⟩
  exact ⟨rfl, nofun, (ref.threads r).inbox, (ref.threads r).target⟩

/-- A waiting sender is met. -/
theorem receive_met (ref : Refines ipc a) {s r : Fin THREADS} {e : Fin ENDPOINTS}
    {rest : List (Fin THREADS)} {m : Message} {isCall : Bool} (hr : a.status r = .runnable)
    (hq : a.queue (.senders e) = s :: rest) (hs : a.status s = .sending e m isCall) :
    ∃ ipc', receive r e ipc = some (.ok (.delivered s), ipc') ∧
      Refines ipc' (a.meetSender hr hs) := by
  obtain ⟨queue, hpop, hrest⟩ := Queue.pop_cons (hq ▸ ref.queues (.senders e))
  obtain ⟨rfl, rfl⟩ := (ref.threads s).parked e m isCall hs
  have hne := a.ne_of_sender hr hs
  obtain ⟨ipc', heval, threads, queues⟩ := receive_meets (ref.runnable hr) hne hpop
  refine ⟨ipc', heval, ref.meet ?receiver ?sender ?others ?queues⟩
  case receiver =>
    rw [threads, Function.update_self]
    refine ⟨ref.runnable hr, nofun, rfl, ?_⟩
    cases (ipc.threadAt s).isCall with
    | false => exact (ref.threads r).target
    | true => rfl
  case sender =>
    rw [threads, Function.update_of_ne hne, Function.update_self]
    refine ⟨?_, fun _ _ _ h => absurd h afterMeeting_ne_sending, (ref.threads s).inbox,
      (ref.threads s).target⟩
    cases (ipc.threadAt s).isCall with
    | false => rfl
    | true => rfl
  case others =>
    intro t hts htr
    rw [threads, Function.update_of_ne htr, Function.update_of_ne hts]
  case queues =>
    intro k
    rw [queues, meet_queue_of_sender hq]
    exact ref.holds_update hrest k

/-! ### Replying, and the rest -/

/-- The thread that may be answered is waiting for the answer, so it gets it. -/
theorem reply_answered (ref : Refines ipc a) {s c : Fin THREADS} (m : Message)
    (hs : a.status s = .runnable) (hc : a.replyTarget s = some c) :
    ∃ ipc', reply s m ipc = some (.ok (.delivered c), ipc') ∧
      Refines ipc' (a.answer s c m hc) := by
  obtain ⟨ipc', heval, threads, queues⟩ := reply_answers m (ref.runnable hs)
    (ref.target_eq_some hc) (ref.replyBlocked (a.reply_blocked s c hc))
  refine ⟨ipc', heval, fun t => ?_, fun k => ?_⟩
  · rw [threads, answer_status, answer_inbox, answer_replyTarget]
    rcases eq_or_ne t c with rfl | htc
    · have hne : t ≠ s := by
        rintro rfl
        rw [a.reply_blocked t t hc] at hs
        cases hs
      rw [Function.update_self, Function.update_self, Function.update_self,
        Function.update_of_ne hne]
      exact ⟨rfl, nofun, rfl, (ref.threads t).target⟩
    · rw [Function.update_of_ne htc, Function.update_of_ne htc, Function.update_of_ne htc]
      rcases eq_or_ne t s with rfl | hts
      · rw [Function.update_self, Function.update_self]
        exact ⟨(ref.threads t).state, (ref.threads t).parked, (ref.threads t).inbox, rfl⟩
      · rw [Function.update_of_ne hts, Function.update_of_ne hts]
        exact ref.threads t
  · rw [queues]
    exact ref.queues k

theorem takeMessage_absent {thread : ThreadId} (h : THREADS ≤ thread) :
    ipc.takeMessage thread = (none, ipc) := by
  rw [takeMessage, dif_neg (Nat.not_lt.mpr h)]

theorem takeMessage_taken (ref : Refines ipc a) (t : Fin THREADS) :
    ∃ ipc', ipc.takeMessage t = (a.inbox t, ipc') ∧ Refines ipc' (a.take t) := by
  refine ⟨ipc.setThread t { ipc.threadAt t with inbox := none }, ?_, fun u => ?_, fun k => ?_⟩
  · rw [takeMessage, dif_pos t.isLt, ← (ref.threads t).inbox]
    rfl
  · rw [threadAt_setThread, take_status, take_inbox, take_replyTarget]
    rcases eq_or_ne u t with rfl | hu
    · rw [Function.update_self, Function.update_self]
      exact ⟨(ref.threads u).state, (ref.threads u).parked, rfl, (ref.threads u).target⟩
    · rw [Function.update_of_ne hu, Function.update_of_ne hu]
      exact ref.threads u
  · rw [queueAt_setThread, take_queue]
    exact ref.queues k

end RendezvousIpc

/-! ## The step lemma -/

/-- Every kernel object that stands for `a` answers the operation with `r`, and then
stands for `a'`. -/
def Implements (a : IpcSpec THREADS ENDPOINTS) (op : IpcOp) (r : IpcResult)
    (a' : IpcSpec THREADS ENDPOINTS) : Prop :=
  ∀ ipc, Refines ipc a →
    ∃ ipc', (ipcMachine THREADS ENDPOINTS).step ipc op = some (r, ipc') ∧ Refines ipc' a'

/-- An operation that is a fallible method does what the method does. -/
theorem step_of_call {ipc ipc' : RendezvousIpc THREADS ENDPOINTS} {op : IpcOp}
    {method : Call (RendezvousIpc THREADS ENDPOINTS) IpcError IpcOutcome}
    {outcome : Except IpcError IpcOutcome}
    (hstep : ∀ ipc, (ipcMachine THREADS ENDPOINTS).step ipc op =
      (method ipc).map (Prod.map .outcome id))
    (heval : method ipc = some (outcome, ipc')) :
    (ipcMachine THREADS ENDPOINTS).step ipc op = some (.outcome outcome, ipc') := by
  rw [hstep, heval]
  rfl

theorem step_transmit (isCall : Bool) (sender : ThreadId) (endpoint : ℕ) (m : Message)
    (ipc : RendezvousIpc THREADS ENDPOINTS) :
    (ipcMachine THREADS ENDPOINTS).step ipc (.transmit isCall sender endpoint m) =
      (RendezvousIpc.transmit isCall sender endpoint m ipc).map (Prod.map .outcome id) := by
  cases isCall <;> rfl

theorem step_receive (receiver : ThreadId) (endpoint : ℕ)
    (ipc : RendezvousIpc THREADS ENDPOINTS) :
    (ipcMachine THREADS ENDPOINTS).step ipc (.receive receiver endpoint) =
      (RendezvousIpc.receive receiver endpoint ipc).map (Prod.map .outcome id) := rfl

/-- An operation that is a fallible method implements what the method does. -/
theorem Implements.of_call {a a' : IpcSpec THREADS ENDPOINTS} {op : IpcOp}
    {method : Call (RendezvousIpc THREADS ENDPOINTS) IpcError IpcOutcome}
    {outcome : Except IpcError IpcOutcome}
    (hstep : ∀ ipc, (ipcMachine THREADS ENDPOINTS).step ipc op =
      (method ipc).map (Prod.map .outcome id))
    (h : ∀ ipc, Refines ipc a → ∃ ipc', method ipc = some (outcome, ipc') ∧ Refines ipc' a') :
    Implements a op (.outcome outcome) a' := by
  intro ipc ref
  obtain ⟨ipc', heval, ref'⟩ := h ipc ref
  exact ⟨ipc', step_of_call hstep heval, ref'⟩

/-- An operation that is refused and leaves what the abstract state sees. -/
theorem refused_refines {a : IpcSpec THREADS ENDPOINTS} {op : IpcOp}
    {method : Call (RendezvousIpc THREADS ENDPOINTS) IpcError IpcOutcome}
    (error : IpcError) (notFull : error ≠ .queueFull)
    (hstep : ∀ ipc, (ipcMachine THREADS ENDPOINTS).step ipc op =
      (method ipc).map (Prod.map .outcome id))
    (h : ∀ ipc, Refines ipc a → ∃ ipc', method ipc = some (.error error, ipc') ∧ Refines ipc' a) :
    ∃ r a', a.Transition op r a' ∧ Implements a op r a' :=
  ⟨_, a, .rejected notFull, .of_call hstep h⟩

theorem transmit_refines (a : IpcSpec THREADS ENDPOINTS) (isCall : Bool) (sender : ThreadId)
    (endpoint : ℕ) (m : Message) :
    ∃ r a', a.Transition (.transmit isCall sender endpoint m) r a' ∧
      Implements a (.transmit isCall sender endpoint m) r a' := by
  have hstep := @step_transmit THREADS ENDPOINTS isCall sender endpoint m
  by_cases ht : sender < THREADS
  · lift sender to Fin THREADS using ht
    by_cases hs : a.status sender = .runnable
    · by_cases he : endpoint < ENDPOINTS
      · lift endpoint to Fin ENDPOINTS using he
        cases hq : a.queue (.receivers endpoint) with
        | nil =>
            exact ⟨_, _, .parkedSender m isCall hs hq, .of_call hstep fun ipc ref =>
              RendezvousIpc.transmit_parked ref isCall m hs hq⟩
        | cons r rest =>
            exact ⟨_, _, .metReceiver m isCall hs hq, .of_call hstep fun ipc ref =>
              RendezvousIpc.transmit_met ref isCall m hs hq⟩
      · refine refused_refines .badEndpoint (by decide) hstep fun ipc ref => ?_
        obtain ⟨ipc', heval, threads, queues⟩ := RendezvousIpc.transmit_badEndpoint isCall m
          (ref.runnable hs) (Nat.le_of_not_lt he)
        exact ⟨ipc', heval, ref.setIsCall hs isCall threads queues⟩
    · exact refused_refines .threadNotRunnable (by decide) hstep fun ipc ref =>
        ⟨ipc, RendezvousIpc.transmit_refused
          (RendezvousIpc.ensureRunnable_error (ref.not_runnable hs)), ref⟩
  · exact refused_refines .badThread (by decide) hstep fun ipc ref =>
      ⟨ipc, RendezvousIpc.transmit_refused
        (RendezvousIpc.ensureRunnable_absent (Nat.le_of_not_lt ht)), ref⟩

theorem receive_refines (a : IpcSpec THREADS ENDPOINTS) (receiver : ThreadId) (endpoint : ℕ) :
    ∃ r a', a.Transition (.receive receiver endpoint) r a' ∧
      Implements a (.receive receiver endpoint) r a' := by
  have hstep := @step_receive THREADS ENDPOINTS receiver endpoint
  by_cases ht : receiver < THREADS
  · lift receiver to Fin THREADS using ht
    by_cases hr : a.status receiver = .runnable
    · by_cases he : endpoint < ENDPOINTS
      · lift endpoint to Fin ENDPOINTS using he
        cases hq : a.queue (.senders endpoint) with
        | nil =>
            exact ⟨_, _, .parkedReceiver hr hq, .of_call hstep fun ipc ref =>
              RendezvousIpc.receive_parked ref hr hq⟩
        | cons s rest =>
            obtain ⟨m, isCall, hs⟩ := a.sending_of_queue hq
            exact ⟨_, _, .metSender hr hq hs, .of_call hstep fun ipc ref =>
              RendezvousIpc.receive_met ref hr hq hs⟩
      · exact refused_refines .badEndpoint (by decide) hstep fun ipc ref =>
          ⟨ipc, RendezvousIpc.receive_badEndpoint (ref.runnable hr) (Nat.le_of_not_lt he), ref⟩
    · exact refused_refines .threadNotRunnable (by decide) hstep fun ipc ref =>
        ⟨ipc, RendezvousIpc.receive_refused
          (RendezvousIpc.ensureRunnable_error (ref.not_runnable hr)), ref⟩
  · exact refused_refines .badThread (by decide) hstep fun ipc ref =>
      ⟨ipc, RendezvousIpc.receive_refused
        (RendezvousIpc.ensureRunnable_absent (Nat.le_of_not_lt ht)), ref⟩

theorem step_reply (server : ThreadId) (m : Message) (ipc : RendezvousIpc THREADS ENDPOINTS) :
    (ipcMachine THREADS ENDPOINTS).step ipc (.reply server m) =
      (RendezvousIpc.reply server m ipc).map (Prod.map .outcome id) := rfl

theorem reply_refines (a : IpcSpec THREADS ENDPOINTS) (server : ThreadId) (m : Message) :
    ∃ r a', a.Transition (.reply server m) r a' ∧ Implements a (.reply server m) r a' := by
  have hstep := @step_reply THREADS ENDPOINTS server m
  by_cases ht : server < THREADS
  · lift server to Fin THREADS using ht
    by_cases hs : a.status server = .runnable
    · cases hc : a.replyTarget server with
      | none =>
          exact refused_refines .noReplyTarget (by decide) hstep fun ipc ref =>
            ⟨ipc, RendezvousIpc.reply_unanswerable m (ref.runnable hs) (ref.target_eq_none hc), ref⟩
      | some c =>
          exact ⟨_, _, .answered m hs hc, .of_call hstep fun ipc ref =>
            RendezvousIpc.reply_answered ref m hs hc⟩
    · exact refused_refines .threadNotRunnable (by decide) hstep fun ipc ref =>
        ⟨ipc, RendezvousIpc.reply_refused
          (RendezvousIpc.ensureRunnable_error (ref.not_runnable hs)), ref⟩
  · exact refused_refines .badThread (by decide) hstep fun ipc ref =>
      ⟨ipc, RendezvousIpc.reply_refused
        (RendezvousIpc.ensureRunnable_absent (Nat.le_of_not_lt ht)), ref⟩

theorem takeMessage_refines (a : IpcSpec THREADS ENDPOINTS) (thread : ThreadId) :
    ∃ r a', a.Transition (.takeMessage thread) r a' ∧
      Implements a (.takeMessage thread) r a' := by
  by_cases ht : thread < THREADS
  · lift thread to Fin THREADS using ht
    refine ⟨_, _, .taken thread, fun ipc ref => ?_⟩
    obtain ⟨ipc', heval, ref'⟩ := RendezvousIpc.takeMessage_taken ref thread
    refine ⟨ipc', ?_, ref'⟩
    show some (Prod.map IpcResult.message id (ipc.takeMessage thread)) = _
    rw [heval]
    rfl
  · refine ⟨_, _, .absent (Nat.le_of_not_lt ht), fun ipc ref => ⟨ipc, ?_, ref⟩⟩
    show some (Prod.map IpcResult.message id (ipc.takeMessage thread)) = _
    rw [RendezvousIpc.takeMessage_absent (Nat.le_of_not_lt ht)]
    rfl

/-- **One operation.**  From an abstract state, every operation has one result and
one transition, and every kernel object that stands for the state implements them. -/
theorem ipcStep_refines (a : IpcSpec THREADS ENDPOINTS) (op : IpcOp) :
    ∃ r a', a.Transition op r a' ∧ Implements a op r a' := by
  cases op with
  | send sender endpoint message => exact transmit_refines a false sender endpoint message
  | call caller endpoint message => exact transmit_refines a true caller endpoint message
  | receive receiver endpoint => exact receive_refines a receiver endpoint
  | reply server message => exact reply_refines a server message
  | takeMessage thread => exact takeMessage_refines a thread
  | state thread =>
      refine ⟨_, _, .observed thread, fun ipc ref => ⟨ipc, ?_, ref⟩⟩
      show some (IpcResult.state (ipc.state thread), ipc) = _
      rw [ref.state_eq]

/-! ## Runs -/

/-- A step of a kernel object that stands for an abstract state is a transition. -/
theorem Refines.transition {ipc ipc' : RendezvousIpc THREADS ENDPOINTS}
    {a : IpcSpec THREADS ENDPOINTS} (ref : Refines ipc a) {op : IpcOp} {r : IpcResult}
    (hstep : (ipcMachine THREADS ENDPOINTS).step ipc op = some (r, ipc')) :
    ∃ a', a.Transition op r a' ∧ Refines ipc' a' := by
  obtain ⟨r₁, a', htrans, himpl⟩ := ipcStep_refines a op
  obtain ⟨ipc₁, hstep₁, ref'⟩ := himpl ipc ref
  rw [hstep, Option.some.injEq, Prod.mk.injEq] at hstep₁
  obtain ⟨rfl, rfl⟩ := hstep₁
  exact ⟨a', htrans, ref'⟩

/-- **The induction rule for IPC runs**: what holds at the start and is kept by every
transition holds after every run, and every run exists. -/
theorem Refines.exec_of_transition {ipc₀ : RendezvousIpc THREADS ENDPOINTS}
    {a₀ : IpcSpec THREADS ENDPOINTS} (ref₀ : Refines ipc₀ a₀)
    (I : List (IpcEvent THREADS ENDPOINTS) → IpcSpec THREADS ENDPOINTS → Prop)
    (start : I [] a₀)
    (next : ∀ {es a op r a' ipc ipc'}, I es a → Refines ipc a →
      (ipcMachine THREADS ENDPOINTS).step ipc op = some (r, ipc') → a.Transition op r a' →
      Refines ipc' a' → I (es ++ [⟨ipc, op, r, ipc'⟩]) a')
    (ops : List IpcOp) :
    ∃ es ipc, (ipcMachine THREADS ENDPOINTS).exec ipc₀ ops = some (es, ipc) ∧
      ∃ a, Refines ipc a ∧ I es a := by
  refine Machine.exec_of_invariant (fun es ipc => ∃ a, Refines ipc a ∧ I es a)
    ⟨_, ref₀, start⟩ ?_ ops
  rintro es ipc op ⟨a, ref, hI⟩
  obtain ⟨r, a', htrans, himpl⟩ := ipcStep_refines a op
  obtain ⟨ipc', hstep, ref'⟩ := himpl ipc ref
  exact ⟨r, ipc', hstep, a', ref', next hI ref hstep htrans ref'⟩

/-- Every run exists and ends in a state that stands for some abstract state. -/
theorem Refines.exec {ipc₀ : RendezvousIpc THREADS ENDPOINTS}
    {a₀ : IpcSpec THREADS ENDPOINTS} (ref₀ : Refines ipc₀ a₀) (ops : List IpcOp) :
    ∃ es ipc, (ipcMachine THREADS ENDPOINTS).exec ipc₀ ops = some (es, ipc) ∧
      ∃ a, Refines ipc a := by
  obtain ⟨es, ipc, hexec, a, ref, -⟩ :=
    ref₀.exec_of_transition (fun _ _ => True) trivial (fun _ _ _ _ _ => trivial) ops
  exact ⟨es, ipc, hexec, a, ref⟩

/-- Every reachable state stands for some abstract state. -/
theorem exists_refines {ipc : RendezvousIpc THREADS ENDPOINTS}
    (h : (ipcMachine THREADS ENDPOINTS).Reachable ipc) : ∃ a, Refines ipc a := by
  refine h.invariant (fun ipc => ∃ a, Refines ipc a) ⟨_, refines_new⟩ ?_
  rintro ipc op r ipc' ⟨a, ref⟩ hstep
  obtain ⟨a', -, ref'⟩ := ref.transition hstep
  exact ⟨a', ref'⟩

end Aegis.Ipc
