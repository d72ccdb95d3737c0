import Mathlib
import Aegis.Foundation.Successor

/-!
# Synchronous rendezvous

Threads exchange messages at endpoints without buffering them: whoever comes first
waits in line at the endpoint, a sender with its message, until the other side
arrives.  A sender may ask for a reply; it then stays blocked after the meeting,
and the receiver holds the authority to answer it.

`Rendezvous T E M` is a state of such a system, over arbitrary threads, endpoints
and messages.  What makes a state coherent is kept in its fields:

* the lines agree with what the threads are doing (`waiting`), and no endpoint has
  threads waiting on both sides (`one_sided`);
* whoever may be answered is waiting for that answer (`reply_blocked`);
* nobody waits for a reply, directly or through others, from itself (`acyclic`).

The operations are `park` (join a line), `meet` (a sender and a receiver exchange a
message, whoever of the two came first), `answer` and `take`.  Each takes the facts
it needs to keep the state coherent as arguments.
-/

namespace Foundation

open Relation

/-! ## Waiting lines -/

/-- Lines agree with places: whoever has a place in a line stands in it, once, and
nobody else does. -/
structure WaitingLines {T κ : Type*} (place : T → Option κ) (queue : κ → List T) :
    Prop where
  mem : ∀ t k, t ∈ queue k ↔ place t = some k
  nodup : ∀ k, (queue k).Nodup

namespace WaitingLines

variable {T κ : Type*} {place : T → Option κ} {queue : κ → List T} {t : T} {k : κ}

/-- A line that someone without a place is not in is shorter than the number of
all who could join it. -/
theorem length_lt_card [Fintype T] (h : WaitingLines place queue) (ht : place t = none)
    (k : κ) : (queue k).length < Fintype.card T := by
  have absent : t ∉ queue k := by
    rw [h.mem, ht]
    simp
  have := (List.nodup_cons.mpr ⟨absent, h.nodup k⟩).length_le_card
  rw [List.length_cons] at this
  omega

variable [DecidableEq T] [DecidableEq κ]

/-- Someone without a place joins a line at its end. -/
theorem enqueue (h : WaitingLines place queue) (ht : place t = none) :
    WaitingLines (Function.update place t (some k))
      (Function.update queue k (queue k ++ [t])) where
  mem u l := by
    have absent : ∀ l, t ∉ queue l := by
      intro l hl
      rw [h.mem, ht] at hl
      cases hl
    rcases eq_or_ne l k with rfl | hl
    · rw [Function.update_self, List.mem_append, List.mem_singleton]
      rcases eq_or_ne u t with rfl | hu
      · simp
      · rw [Function.update_of_ne hu, h.mem]
        simp [hu]
    · rw [Function.update_of_ne hl]
      rcases eq_or_ne u t with rfl | hu
      · simp [absent l, hl.symm]
      · rw [Function.update_of_ne hu, h.mem]
  nodup l := by
    rcases eq_or_ne l k with rfl | hl
    · rw [Function.update_self]
      refine (h.nodup l).append (List.nodup_singleton t) ?_
      intro u hu hut
      rw [List.mem_singleton.mp hut, h.mem, ht] at hu
      cases hu
    · rw [Function.update_of_ne hl]
      exact h.nodup l

/-- Someone leaves a line, or had no place to begin with. -/
theorem dequeue (h : WaitingLines place queue) (ht : place t = none ∨ place t = some k) :
    WaitingLines (Function.update place t none)
      (Function.update queue k ((queue k).erase t)) where
  mem u l := by
    rcases eq_or_ne l k with rfl | hl
    · rw [Function.update_self, (h.nodup l).mem_erase_iff, h.mem]
      rcases eq_or_ne u t with rfl | hu
      · simp
      · simp [hu]
    · rw [Function.update_of_ne hl, h.mem]
      rcases eq_or_ne u t with rfl | hu
      · rw [Function.update_self]
        rcases ht with ht | ht
        · simp [ht]
        · simp [ht, hl.symm]
      · rw [Function.update_of_ne hu]
  nodup l := by
    rcases eq_or_ne l k with rfl | hl
    · rw [Function.update_self]
      exact (h.nodup l).erase t
    · rw [Function.update_of_ne hl]
      exact h.nodup l

end WaitingLines

/-! ## States -/

namespace Rendezvous

/-- The two lines at each endpoint. -/
inductive Line (E : Type*)
  | senders (endpoint : E)
  | receivers (endpoint : E)
  deriving DecidableEq

/-- The other side of the same endpoint. -/
def Line.opposite {E : Type*} : Line E → Line E
  | .senders e => .receivers e
  | .receivers e => .senders e

/-- The endpoint of a line. -/
def Line.endpoint {E : Type*} : Line E → E
  | .senders e | .receivers e => e

/-- What a thread is doing.  A sender keeps its message, and whether it wants a
reply, until it is met. -/
inductive Status (T E M : Type*)
  | runnable
  | sending (endpoint : E) (message : M) (isCall : Bool)
  | receiving (endpoint : E)
  | replyBlocked (server : T)
  deriving DecidableEq

variable {T E M : Type*}

/-- The line a thread stands in. -/
def Status.line : Status T E M → Option (Line E)
  | .sending e _ _ => some (.senders e)
  | .receiving e => some (.receivers e)
  | _ => none

/-- The thread whose answer a thread waits for. -/
def Status.server : Status T E M → Option T
  | .replyBlocked s => some s
  | _ => none

theorem Status.line_eq_senders {st : Status T E M} {e : E}
    (h : st.line = some (.senders e)) : ∃ m isCall, st = .sending e m isCall := by
  cases st with
  | sending e' m isCall =>
      cases h
      exact ⟨m, isCall, rfl⟩
  | runnable => cases h
  | receiving => cases h
  | replyBlocked => cases h

theorem Status.line_eq_receivers {st : Status T E M} {e : E}
    (h : st.line = some (.receivers e)) : st = .receiving e := by
  cases st with
  | receiving e' =>
      cases h
      rfl
  | runnable => cases h
  | sending => cases h
  | replyBlocked => cases h

theorem Status.server_of_line {st : Status T E M} {k : Line E} (h : st.line = some k) :
    st.server = none := by
  cases st with
  | replyBlocked => cases h
  | runnable => rfl
  | sending => rfl
  | receiving => rfl

/-- Who can meet somebody waits for no answer. -/
theorem Status.server_of_meeting {st : Status T E M} {k : Line E}
    (h : st = .runnable ∨ st.line = some k) : st.server = none := by
  rcases h with rfl | h
  · rfl
  · exact server_of_line h

/-- How a sender leaves a meeting. -/
def afterMeeting (r : T) (isCall : Bool) : Status T E M :=
  if isCall then .replyBlocked r else .runnable

theorem afterMeeting_line (r : T) (isCall : Bool) :
    (afterMeeting r isCall : Status T E M).line = none := by
  cases isCall <;> rfl

theorem afterMeeting_ne_sending {r : T} {isCall isCall' : Bool} {e : E} {m : M} :
    (afterMeeting r isCall : Status T E M) ≠ .sending e m isCall' := by
  cases isCall <;> exact nofun

end Rendezvous

open Rendezvous

/-- A coherent state of threads `T` that exchange messages `M` at endpoints `E`. -/
structure Rendezvous (T E M : Type*) where
  status : T → Status T E M
  inbox : T → Option M
  replyTarget : T → Option T
  queue : Line E → List T
  waiting : WaitingLines (fun t => (status t).line) queue
  one_sided : ∀ k, queue k = [] ∨ queue k.opposite = []
  reply_blocked : ∀ s c, replyTarget s = some c → status c = .replyBlocked s
  acyclic : Acyclic fun t => (status t).server

namespace Rendezvous

variable {T E M : Type*}

/-- Nobody waits and nothing has been sent. -/
def idle : Rendezvous T E M where
  status _ := .runnable
  inbox _ := none
  replyTarget _ := none
  queue _ := []
  waiting := ⟨by simp [Status.line], by simp⟩
  one_sided _ := .inl rfl
  reply_blocked := by simp
  acyclic := acyclic_none

/-- The parts of a state that can be observed determine it. -/
theorem ext_data {a b : Rendezvous T E M} (hstatus : a.status = b.status)
    (hinbox : a.inbox = b.inbox) (htarget : a.replyTarget = b.replyTarget)
    (hqueue : a.queue = b.queue) : a = b := by
  cases a
  cases b
  cases hstatus
  cases hinbox
  cases htarget
  cases hqueue
  rfl

/-- The first in a line of senders is sending. -/
theorem sending_of_queue (a : Rendezvous T E M) {e : E} {s : T} {rest : List T}
    (h : a.queue (.senders e) = s :: rest) :
    ∃ m isCall, a.status s = .sending e m isCall :=
  Status.line_eq_senders ((a.waiting.mem s _).mp (by rw [h]; exact List.mem_cons_self))

/-- The first in a line of receivers is receiving. -/
theorem receiving_of_queue (a : Rendezvous T E M) {e : E} {r : T} {rest : List T}
    (h : a.queue (.receivers e) = r :: rest) : a.status r = .receiving e :=
  Status.line_eq_receivers ((a.waiting.mem r _).mp (by rw [h]; exact List.mem_cons_self))

/-- Where somebody waits, nobody waits on the other side. -/
theorem opposite_eq_nil (a : Rendezvous T E M) {k : Line E} {t : T} {rest : List T}
    (h : a.queue k = t :: rest) : a.queue k.opposite = [] := by
  rcases a.one_sided k with hk | hk
  · rw [hk] at h
    cases h
  · exact hk

/-! ## Operations -/

variable [DecidableEq T]

theorem line_update (status : T → Status T E M) (t : T) (st : Status T E M) :
    (fun u => (Function.update status t st u).line) =
      Function.update (fun u => (status u).line) t st.line := by
  funext u
  exact Function.apply_update (fun _ => Status.line) status t st u

theorem server_update (status : T → Status T E M) (t : T) (st : Status T E M) :
    (fun u => (Function.update status t st u).server) =
      Function.update (fun u => (status u).server) t st.server := by
  funext u
  exact Function.apply_update (fun _ => Status.server) status t st u

/-- A thread that stops waiting for a reply, or never did, closes no cycle. -/
theorem acyclic_update_none {status : T → Status T E M}
    (h : Acyclic fun u => (status u).server) (t : T) {st : Status T E M}
    (hst : st.server = none) : Acyclic fun u => (Function.update status t st u).server := by
  rw [server_update, hst]
  refine h.mono fun i j hij => ?_
  rcases eq_or_ne i t with rfl | hi
  · rw [Function.update_self] at hij
    cases hij
  · rwa [Function.update_of_ne hi] at hij

/-- A thread answers the one it may answer, and uses the authority up. -/
def answer (a : Rendezvous T E M) (s c : T) (m : M) (h : a.replyTarget s = some c) :
    Rendezvous T E M where
  status := Function.update a.status c .runnable
  inbox := Function.update a.inbox c (some m)
  replyTarget := Function.update a.replyTarget s none
  queue := a.queue
  waiting := by
    have hline : (a.status c).line = (Status.runnable : Status T E M).line := by
      rw [a.reply_blocked s c h]
      rfl
    rw [line_update, ← hline, Function.update_eq_self]
    exact a.waiting
  one_sided := a.one_sided
  reply_blocked x y hxy := by
    rcases eq_or_ne x s with rfl | hx
    · rw [Function.update_self] at hxy
      cases hxy
    · rw [Function.update_of_ne hx] at hxy
      have blocked := a.reply_blocked x y hxy
      have hyc : y ≠ c := by
        rintro rfl
        rw [a.reply_blocked s y h, Status.replyBlocked.injEq] at blocked
        exact hx blocked.symm
      rw [Function.update_of_ne hyc, blocked]
  acyclic := acyclic_update_none a.acyclic c rfl

section Answer

variable {a : Rendezvous T E M} {s c : T} {m : M} {h : a.replyTarget s = some c}

@[simp] theorem answer_status : (a.answer s c m h).status =
    Function.update a.status c .runnable := rfl

@[simp] theorem answer_inbox : (a.answer s c m h).inbox =
    Function.update a.inbox c (some m) := rfl

@[simp] theorem answer_replyTarget : (a.answer s c m h).replyTarget =
    Function.update a.replyTarget s none := rfl

@[simp] theorem answer_queue : (a.answer s c m h).queue = a.queue := rfl

end Answer

/-- A thread empties its inbox. -/
def take (a : Rendezvous T E M) (t : T) : Rendezvous T E M :=
  { a with inbox := Function.update a.inbox t none }

@[simp] theorem take_status (a : Rendezvous T E M) (t : T) : (a.take t).status = a.status := rfl

@[simp] theorem take_inbox (a : Rendezvous T E M) (t : T) :
    (a.take t).inbox = Function.update a.inbox t none := rfl

@[simp] theorem take_replyTarget (a : Rendezvous T E M) (t : T) :
    (a.take t).replyTarget = a.replyTarget := rfl

@[simp] theorem take_queue (a : Rendezvous T E M) (t : T) : (a.take t).queue = a.queue := rfl

variable [DecidableEq E]

/-- A runnable thread joins a line with nobody on the other side. -/
def park (a : Rendezvous T E M) (t : T) (st : Status T E M) (k : Line E)
    (ht : a.status t = .runnable) (hst : st.line = some k)
    (hk : a.queue k.opposite = []) : Rendezvous T E M where
  status := Function.update a.status t st
  inbox := a.inbox
  replyTarget := a.replyTarget
  queue := Function.update a.queue k (a.queue k ++ [t])
  waiting := by
    rw [line_update, hst]
    exact a.waiting.enqueue (by rw [ht]; rfl)
  one_sided l := by
    have hne : k.opposite ≠ k := by cases k <;> exact nofun
    rcases eq_or_ne l k with rfl | hl
    · exact .inr (by rw [Function.update_of_ne hne, hk])
    · rcases eq_or_ne l.opposite k with rfl | hlk
      · have hll : l.opposite.opposite = l := by cases l <;> rfl
        exact .inl (by rw [Function.update_of_ne hl, ← hll, hk])
      · rw [Function.update_of_ne hl, Function.update_of_ne hlk]
        exact a.one_sided l
  reply_blocked s c hc := by
    have blocked := a.reply_blocked s c hc
    have hct : c ≠ t := by
      rintro rfl
      rw [ht] at blocked
      cases blocked
    rw [Function.update_of_ne hct, blocked]
  acyclic := acyclic_update_none a.acyclic t (Status.server_of_line hst)

section Park

variable {a : Rendezvous T E M} {t : T} {st : Status T E M} {k : Line E}
  {ht : a.status t = .runnable} {hst : st.line = some k} {hk : a.queue k.opposite = []}

@[simp] theorem park_status : (a.park t st k ht hst hk).status =
    Function.update a.status t st := rfl

@[simp] theorem park_inbox : (a.park t st k ht hst hk).inbox = a.inbox := rfl

@[simp] theorem park_replyTarget : (a.park t st k ht hst hk).replyTarget = a.replyTarget := rfl

@[simp] theorem park_queue : (a.park t st k ht hst hk).queue =
    Function.update a.queue k (a.queue k ++ [t]) := rfl

end Park

/-- A sender and a receiver meet at an endpoint: the receiver gets the message and
is runnable, and the sender is runnable too or, if it wants a reply, waits for the
receiver.  Each of the two was runnable or in its line. -/
def meet (a : Rendezvous T E M) (s r : T) (e : E) (m : M) (isCall : Bool)
    (hs : a.status s = .runnable ∨ (a.status s).line = some (.senders e))
    (hr : a.status r = .runnable ∨ (a.status r).line = some (.receivers e))
    (hne : s ≠ r) : Rendezvous T E M where
  status := Function.update (Function.update a.status r .runnable) s (afterMeeting r isCall)
  inbox := Function.update a.inbox r (some m)
  replyTarget := if isCall then Function.update a.replyTarget r (some s) else a.replyTarget
  queue := Function.update
    (Function.update a.queue (.receivers e) ((a.queue (.receivers e)).erase r))
    (.senders e) ((a.queue (.senders e)).erase s)
  waiting := by
    have hline : (afterMeeting r isCall : Status T E M).line = none := by
      cases isCall <;> rfl
    have hr' : (a.status r).line = none ∨ (a.status r).line = some (.receivers e) :=
      hr.imp (fun h => by rw [h]; rfl) id
    have hs' : (a.status s).line = none ∨ (a.status s).line = some (.senders e) :=
      hs.imp (fun h => by rw [h]; rfl) id
    have first := a.waiting.dequeue hr'
    have second := first.dequeue (t := s) (k := .senders e)
      (by rwa [Function.update_of_ne hne])
    rw [Function.update_of_ne (by exact nofun) _ a.queue] at second
    rw [line_update, line_update, hline]
    exact second
  one_sided l := by
    have shrinks : ∀ k, a.queue k = [] → Function.update
        (Function.update a.queue (.receivers e) ((a.queue (.receivers e)).erase r))
        (.senders e) ((a.queue (.senders e)).erase s) k = [] := by
      intro k hk
      rcases eq_or_ne k (.senders e) with rfl | hks
      · rw [Function.update_self, hk, List.erase_nil]
      · rw [Function.update_of_ne hks]
        rcases eq_or_ne k (.receivers e) with rfl | hkr
        · rw [Function.update_self, hk, List.erase_nil]
        · rw [Function.update_of_ne hkr, hk]
    exact (a.one_sided l).imp (shrinks l) (shrinks l.opposite)
  reply_blocked x y hxy := by
    have old : a.replyTarget x = some y →
        Function.update (Function.update a.status r .runnable) s (afterMeeting r isCall) y =
          .replyBlocked x := by
      intro h
      have blocked := a.reply_blocked x y h
      have hys : y ≠ s := by
        rintro rfl
        rw [blocked] at hs
        rcases hs with hs | hs <;> cases hs
      have hyr : y ≠ r := by
        rintro rfl
        rw [blocked] at hr
        rcases hr with hr | hr <;> cases hr
      rw [Function.update_of_ne hys, Function.update_of_ne hyr, blocked]
    cases isCall with
    | false => exact old hxy
    | true =>
        simp only [if_true] at hxy
        rcases eq_or_ne x r with rfl | hx
        · rw [Function.update_self, Option.some.injEq] at hxy
          subst hxy
          rw [Function.update_self]
          rfl
        · rw [Function.update_of_ne hx] at hxy
          exact old hxy
  acyclic := by
    have cleared : Acyclic fun u => (Function.update a.status r .runnable u).server :=
      acyclic_update_none a.acyclic r rfl
    cases isCall with
    | false => exact acyclic_update_none cleared s rfl
    | true =>
        rw [server_update]
        refine cleared.update fun back => ?_
        -- the receiver waits for nobody, so nothing leads from it back to the sender
        rcases ReflTransGen.cases_head back with heq | ⟨x, hx, -⟩
        · exact hne heq.symm
        · rw [Follows, Function.update_self] at hx
          cases hx

section Meet

variable {a : Rendezvous T E M} {s r : T} {e : E} {m : M} {isCall : Bool}
  {hs : a.status s = .runnable ∨ (a.status s).line = some (.senders e)}
  {hr : a.status r = .runnable ∨ (a.status r).line = some (.receivers e)} {hne : s ≠ r}
  {rest : List T}

@[simp] theorem meet_status : (a.meet s r e m isCall hs hr hne).status =
    Function.update (Function.update a.status r .runnable) s (afterMeeting r isCall) := rfl

@[simp] theorem meet_inbox : (a.meet s r e m isCall hs hr hne).inbox =
    Function.update a.inbox r (some m) := rfl

@[simp] theorem meet_replyTarget : (a.meet s r e m isCall hs hr hne).replyTarget =
    if isCall then Function.update a.replyTarget r (some s) else a.replyTarget := rfl

theorem meet_queue : (a.meet s r e m isCall hs hr hne).queue = Function.update
    (Function.update a.queue (.receivers e) ((a.queue (.receivers e)).erase r))
    (.senders e) ((a.queue (.senders e)).erase s) := rfl

/-- The receiver can run after a meeting. -/
theorem meet_status_receiver : (a.meet s r e m isCall hs hr hne).status r = .runnable := by
  rw [meet_status, Function.update_of_ne hne.symm, Function.update_self]

/-- After a meeting, whoever is in a line did not take part in it. -/
theorem meet_status_of_line {t : T} {k : Line E}
    (h : ((a.meet s r e m isCall hs hr hne).status t).line = some k) :
    (a.meet s r e m isCall hs hr hne).status t = a.status t := by
  rw [meet_status] at h ⊢
  rcases eq_or_ne t s with rfl | hts
  · rw [Function.update_self, afterMeeting_line] at h
    cases h
  · rw [Function.update_of_ne hts] at h ⊢
    rcases eq_or_ne t r with rfl | htr
    · rw [Function.update_self] at h
      cases h
    · rw [Function.update_of_ne htr]

/-- If the receiver was waiting, it was the first in its line. -/
theorem meet_queue_of_receiver (h : a.queue (.receivers e) = r :: rest) :
    (a.meet s r e m isCall hs hr hne).queue =
      Function.update a.queue (.receivers e) rest := by
  have hnil : a.queue (.senders e) = [] := a.opposite_eq_nil h
  rw [meet_queue, h, hnil, List.erase_cons_head, List.erase_nil]
  refine Function.update_eq_self_iff.mpr ?_
  rw [Function.update_of_ne (by exact nofun), hnil]

/-- If the sender was waiting, it was the first in its line. -/
theorem meet_queue_of_sender (h : a.queue (.senders e) = s :: rest) :
    (a.meet s r e m isCall hs hr hne).queue = Function.update a.queue (.senders e) rest := by
  have hnil : a.queue (.receivers e) = [] := a.opposite_eq_nil h
  rw [meet_queue, h, hnil, List.erase_cons_head, List.erase_nil, ← hnil,
    Function.update_eq_self]

end Meet

end Rendezvous

end Foundation
