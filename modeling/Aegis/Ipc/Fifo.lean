import Mathlib
import Aegis.Foundation.Machine
import Aegis.Foundation.Ring
import Aegis.Ipc.Model

/-!
# The queues are bounded lists

A `Queue` keeps its elements in a ring and tells a full ring from an empty one by `len`
alone.  `Represents` says which list it stands for, with every cell accounted for: the list
is in the `len` cells from `head` on, and the other cells are empty.  Under `push` and `pop`
that list behaves as a list does, appended to at its end unless it is full and taken from at
its front.
-/

namespace Aegis.Ipc

open Foundation

variable {THREADS : ℕ}

/-! ## One operation -/

namespace Queue

/-- The ring holds this list of numbers. -/
structure Represents (queue : Queue THREADS) (l : List ThreadId) : Prop where
  len : queue.len = l.length
  ring : RingHolds queue.entries queue.head l

theorem pop_empty {queue : Queue THREADS} (h : queue.len = 0) :
    pop queue = some (.ok none, queue) := by
  rw [pop, if_pos h]

theorem represents_new : (new : Queue THREADS).Represents [] where
  len := rfl
  ring := RingHolds.empty

namespace Represents

variable {queue : Queue THREADS} {l : List ThreadId} {x : ThreadId}

theorem push_full (h : queue.Represents l) (hfull : l.length = THREADS) (thread : ThreadId) :
    push thread queue = some (.error .queueFull, queue) := by
  rw [push, if_pos (h.len.trans hfull)]

theorem push_room (h : queue.Represents l) (room : l.length < THREADS) (thread : ThreadId) :
    ∃ queue', push thread queue = some (.ok (), queue') ∧
      queue'.Represents (l ++ [thread]) := by
  have hne : queue.len ≠ THREADS := by
    rw [h.len]
    exact room.ne
  have hlt : (queue.head + queue.len) % THREADS < THREADS := Nat.mod_lt _ (by omega)
  refine ⟨_, by rw [push, if_neg hne, dif_pos hlt], ?_, ?_⟩
  · show queue.len + 1 = (l ++ [thread]).length
    rw [h.len, List.length_append, List.length_singleton]
  · have pushed := h.ring.push (x := thread) room (h.len ▸ hlt)
    simpa only [h.len] using pushed

theorem pop_cons (h : queue.Represents (x :: l)) :
    ∃ queue', pop queue = some (.ok (some x), queue') ∧ queue'.Represents l := by
  have hne : queue.len ≠ 0 := by
    rw [h.len, List.length_cons]
    omega
  obtain ⟨hhead, hfirst, hrest⟩ := h.ring.pop
  refine ⟨_, by rw [pop, if_neg hne, dif_pos hhead, hfirst], ?_, hrest⟩
  rw [h.len, List.length_cons, Nat.add_sub_cancel]

end Represents

/-- Where the elements of the list are, and that nothing else is anywhere. -/
structure LaidOut (queue : Queue THREADS) (l : List ThreadId) : Prop where
  head_lt : queue.head < THREADS
  len_le : queue.len ≤ THREADS
  len_eq : queue.len = l.length
  occupied : ∀ i x, l[i]? = some x →
    queue.entries[(queue.head + i) % THREADS]? = some (some x)
  free : ∀ j < THREADS, (∀ i < queue.len, j ≠ (queue.head + i) % THREADS) →
    queue.entries[j]? = some none

theorem Represents.laidOut {queue : Queue THREADS} {l : List ThreadId}
    (h : queue.Represents l) (hpos : 1 ≤ THREADS) : queue.LaidOut l where
  head_lt := h.ring.head_lt hpos
  len_le := h.len ▸ h.ring.length_le
  len_eq := h.len
  occupied i x hx := by
    have hi : i < l.length := (List.getElem?_eq_some_iff.mp hx).1
    have hlt : (queue.head + i) % THREADS < THREADS := Nat.mod_lt _ hpos
    rw [Vector.getElem?_eq_getElem hlt, h.ring.getElem_add hi hlt, hx]
  free j hj hfree := by
    rw [h.len] at hfree
    rw [Vector.getElem?_eq_getElem hj, h.ring.getElem_eq_none hj hfree]

end Queue

/-! ## Runs -/

/-- The operations of a queue, with arbitrary arguments. -/
inductive QueueOp
  | push (thread : ThreadId)
  | pop
  deriving DecidableEq

/-- What the operations return. -/
inductive QueueResult
  | pushed (result : Except IpcError Unit)
  | popped (result : Except IpcError (Option ThreadId))
  deriving DecidableEq

/-- A queue, driven by its operations from `new()`. -/
def queueMachine (THREADS : ℕ) : Machine (Queue THREADS) QueueOp QueueResult where
  init := Queue.new
  step queue op :=
    match op with
    | .push thread => (Queue.push thread queue).map (Prod.map .pushed id)
    | .pop => (Queue.pop queue).map (Prod.map .popped id)

/-- A list of at most `THREADS` elements, appended to at its end and taken from at its
front. -/
def boundedListMachine (THREADS : ℕ) : Machine (List ThreadId) QueueOp QueueResult where
  init := []
  step l op :=
    match op with
    | .push thread =>
        if l.length = THREADS then some (.pushed (.error .queueFull), l)
        else some (.pushed (.ok ()), l ++ [thread])
    | .pop => some (.popped (.ok l.head?), l.tail)

/-- The queue simulates the list. -/
theorem queueSimulation (THREADS : ℕ) :
    (queueMachine THREADS).Simulation (boundedListMachine THREADS) Queue.Represents where
  init := Queue.represents_new
  step {queue l} op h := by
    cases op with
    | push thread =>
        by_cases hfull : l.length = THREADS
        · refine ⟨_, queue, l, Option.map_eq_some_iff.mpr ⟨_, h.push_full hfull thread, rfl⟩,
            ?_, h⟩
          exact if_pos hfull
        · have room : l.length < THREADS := lt_of_le_of_ne h.ring.length_le hfull
          obtain ⟨queue', hpush, h'⟩ := h.push_room room thread
          refine ⟨_, queue', _, Option.map_eq_some_iff.mpr ⟨_, hpush, rfl⟩, ?_, h'⟩
          exact if_neg hfull
    | pop =>
        cases l with
        | nil =>
            exact ⟨_, queue, [], Option.map_eq_some_iff.mpr ⟨_, Queue.pop_empty h.len, rfl⟩,
              rfl, h⟩
        | cons x l =>
            obtain ⟨queue', hpop, h'⟩ := h.pop_cons
            exact ⟨_, queue', l, Option.map_eq_some_iff.mpr ⟨_, hpop, rfl⟩, rfl, h'⟩

/-- A `push` that fails changes nothing. -/
theorem Queue.Represents.unchanged {queue queue' : Queue THREADS} {l : List ThreadId}
    (h : queue.Represents l) {op : QueueOp} {e : IpcError}
    (hstep : (queueMachine THREADS).step queue op = some (.pushed (.error e), queue')) :
    queue' = queue := by
  cases op with
  | push thread =>
      obtain ⟨⟨result, queue₁⟩, hpush, heq⟩ := Option.map_eq_some_iff.mp hstep
      cases heq
      by_cases hfull : l.length = THREADS
      · rw [h.push_full hfull] at hpush
        cases hpush
        rfl
      · obtain ⟨queue₂, hpush', -⟩ := h.push_room (lt_of_le_of_ne h.ring.length_le hfull) thread
        rw [hpush'] at hpush
        cases hpush
  | pop =>
      obtain ⟨⟨result, queue₁⟩, -, heq⟩ := Option.map_eq_some_iff.mp hstep
      cases heq

/-- **A queue is a bounded list.**  For every sequence of operations from `new()` the queue
returns what the list returns, a `push` that fails leaves it unchanged, and at the end its
cells hold the list from `head` on and nothing else. -/
theorem queue_refines_list (hpos : 1 ≤ THREADS) (ops : List QueueOp) :
    ∃ es queue fs l, (queueMachine THREADS).exec Queue.new ops = some (es, queue) ∧
      (boundedListMachine THREADS).exec [] ops = some (fs, l) ∧
      es.map Event.result = fs.map Event.result ∧
      (∀ ev ∈ es, ev.result = .pushed (.error .queueFull) → ev.after = ev.before) ∧
      queue.LaidOut l := by
  obtain ⟨es, queue, fs, l, hexec, hlist, hresults, h⟩ :=
    (queueSimulation THREADS).exec Queue.represents_new ops
  refine ⟨es, queue, fs, l, hexec, hlist, hresults, fun ev hev hfull => ?_, h.laidOut hpos⟩
  obtain ⟨hreach, hstep⟩ := Machine.reachable_init.event hexec ev hev
  obtain ⟨l', hbefore⟩ := (queueSimulation THREADS).exists_of_reachable hreach
  rw [hfull] at hstep
  exact hbefore.unchanged hstep

/-- Two cells, filled, overfilled, and filled again across the end of the array. -/
def wrapsAround : List QueueOp :=
  [.push 5, .push 6, .push 7, .pop, .push 8, .pop]

theorem queue_refines_list_wrapsAround :
    ∃ es queue, (queueMachine 2).exec Queue.new wrapsAround = some (es, queue) ∧
      es.map Event.result =
        [.pushed (.ok ()), .pushed (.ok ()), .pushed (.error .queueFull), .popped (.ok (some 5)),
          .pushed (.ok ()), .popped (.ok (some 6))] ∧
      queue.LaidOut [8] := by
  obtain ⟨es, queue, fs, l, hexec, hlist, hresults, -, hlaid⟩ :=
    queue_refines_list (by decide : 1 ≤ 2) wrapsAround
  have hrun := Option.some.inj hlist
  obtain rfl : [8] = l := congrArg Prod.snd hrun
  exact ⟨es, queue, hexec, hresults.trans (congrArg (List.map Event.result ·.1) hrun.symm), hlaid⟩

end Aegis.Ipc
