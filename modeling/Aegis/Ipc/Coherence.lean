import Mathlib
import Aegis.Ipc.Refinement

/-!
# Queues, states and reply targets agree

After every run the kernel object stands for a coherent abstract state, so the
queues, the thread states and the reply targets agree with one another.  What
follows for the code is stated with it: no queued number is out of range, a queue
that is not empty yields a thread, a queue never overflows, and a reply never finds
its client in the wrong state.
-/

namespace Aegis.Ipc

open Foundation Foundation.Rendezvous

variable {THREADS ENDPOINTS : ℕ}

/-- The entries of a queue in the order in which they will be popped. -/
def Queue.waiting (queue : Queue THREADS) : List (Option ThreadId) :=
  (List.range queue.len).map fun i => (queue.entries[(queue.head + i) % THREADS]?).join

theorem Queue.Holds.waiting_eq {queue : Queue THREADS} {l : List (Fin THREADS)}
    (h : queue.Holds l) : queue.waiting = l.map fun t => some t.val := by
  apply List.ext_getElem?
  intro i
  rw [waiting, h.len, List.getElem?_map, List.getElem?_map]
  by_cases hi : i < l.length
  · have hmap : i < (l.map Fin.val).length := by rwa [List.length_map]
    have hlt : (queue.head + i) % THREADS < THREADS :=
      Nat.mod_lt _ (by have := h.ring.length_le; omega)
    rw [List.getElem?_range hi, List.getElem?_eq_getElem hi, Option.map_some, Option.map_some,
      Vector.getElem?_eq_getElem hlt, h.ring.getElem_add hmap hlt, List.getElem?_map,
      List.getElem?_eq_getElem hi]
    rfl
  · rw [List.getElem?_eq_none (by simpa using hi), List.getElem?_eq_none (by simpa using hi)]
    rfl

/-- Queues, thread states and reply targets agree. -/
structure RendezvousIpc.Coherent (ipc : RendezvousIpc THREADS ENDPOINTS) : Prop where
  senders : ∀ t e, some t ∈ (ipc.queueAt (.senders e)).waiting ↔
    ipc.state t = some (.sending e)
  receivers : ∀ t e, some t ∈ (ipc.queueAt (.receivers e)).waiting ↔
    ipc.state t = some (.receiving e)
  once : ∀ k, (ipc.queueAt k).waiting.Nodup
  one_sided : ∀ e, (ipc.queueAt (.senders e)).len = 0 ∨ (ipc.queueAt (.receivers e)).len = 0
  reply_blocked : ∀ s c, ipc.replyTarget s = some c → ipc.state c = some (.replyBlocked s)

namespace Refines

variable {ipc : RendezvousIpc THREADS ENDPOINTS} {a : IpcSpec THREADS ENDPOINTS}

theorem mem_waiting (ref : Refines ipc a) {k : Line (Fin ENDPOINTS)} {id : Option ThreadId} :
    id ∈ (ipc.queueAt k).waiting ↔ ∃ t, id = some t.val ∧ (a.status t).line = some k := by
  rw [(ref.queues k).waiting_eq, List.mem_map]
  constructor
  · rintro ⟨t, ht, rfl⟩
    exact ⟨t, rfl, (a.waiting.mem t k).mp ht⟩
  · rintro ⟨t, rfl, ht⟩
    exact ⟨t, (a.waiting.mem t k).mpr ht, rfl⟩

theorem coherent (ref : Refines ipc a) : ipc.Coherent where
  senders thread e := by
    rw [ref.mem_waiting, ref.state_eq_some]
    simp only [toState_eq_sending, Option.some.injEq]
  receivers thread e := by
    rw [ref.mem_waiting, ref.state_eq_some]
    simp only [toState_eq_receiving, Option.some.injEq]
  once k := by
    rw [(ref.queues k).waiting_eq]
    exact (a.waiting.nodup k).map fun t u h => Fin.ext (Option.some.inj h)
  one_sided e := by
    rw [(ref.queues _).len, (ref.queues _).len, List.length_eq_zero_iff, List.length_eq_zero_iff]
    exact a.one_sided (.senders e)
  reply_blocked server client h := by
    obtain ⟨s, c, rfl, rfl, hc⟩ := ref.replyTarget_eq_some.mp h
    rw [ref.state_coe, a.reply_blocked s c hc]
    rfl

/-- A thread stands in one line at most. -/
theorem waiting_unique (ref : Refines ipc a) {thread : ThreadId} {k k' : Line (Fin ENDPOINTS)}
    (h : some thread ∈ (ipc.queueAt k).waiting) (h' : some thread ∈ (ipc.queueAt k').waiting) :
    k = k' := by
  obtain ⟨t, ht, hline⟩ := ref.mem_waiting.mp h
  obtain ⟨t', ht', hline'⟩ := ref.mem_waiting.mp h'
  obtain rfl : t = t' := Fin.ext (Option.some.inj (ht.symm.trans ht'))
  exact Option.some.inj (hline.symm.trans hline')

/-- A queue that is not empty yields a thread. -/
theorem pop_of_ne_zero (ref : Refines ipc a) {k : Line (Fin ENDPOINTS)}
    (h : (ipc.queueAt k).len ≠ 0) :
    ∃ thread queue, (ipc.queueAt k).pop = some (.ok (some thread), queue) := by
  have holds := ref.queues k
  cases hq : a.queue k with
  | nil =>
      rw [holds.len, hq] at h
      exact absurd rfl h
  | cons t rest =>
      obtain ⟨queue, hpop, -⟩ := Queue.pop_cons (hq ▸ holds)
      exact ⟨t, queue, hpop⟩

end Refines

/-- No operation finds a queue full. -/
theorem IpcSpec.Transition.ne_queueFull {a a' : IpcSpec THREADS ENDPOINTS} {op : IpcOp}
    {r : IpcResult} (h : a.Transition op r a') : r ≠ .outcome (.error .queueFull) := by
  cases h with
  | rejected notFull =>
      rintro ⟨⟩
      exact notFull rfl
  | observed => exact nofun
  | absent => exact nofun
  | taken => exact nofun
  | parkedSender => exact nofun
  | metReceiver => exact nofun
  | parkedReceiver => exact nofun
  | metSender => exact nofun
  | answered => exact nofun

/-- **Coherence.**  After every run the queues, the thread states and the reply
targets agree.  Hence a thread is in one queue at most, queued numbers are in range,
popping a queue that is not empty yields a thread, no operation has found a queue
full, and a runnable server with a reply target finds its client waiting for it. -/
theorem ipc_coherent (THREADS ENDPOINTS : ℕ) (ops : List IpcOp) :
    ∃ es ipc, (ipcMachine THREADS ENDPOINTS).exec RendezvousIpc.new ops = some (es, ipc) ∧
      ipc.Coherent ∧
      (∀ thread k k', some thread ∈ (ipc.queueAt k).waiting →
        some thread ∈ (ipc.queueAt k').waiting → k = k') ∧
      (∀ k, ∀ entry ∈ (ipc.queueAt k).waiting, ∃ thread < THREADS, entry = some thread) ∧
      (∀ k, (ipc.queueAt k).len ≠ 0 →
        ∃ thread queue, (ipc.queueAt k).pop = some (.ok (some thread), queue)) ∧
      (∀ ev ∈ es, ev.result ≠ .outcome (.error .queueFull)) ∧
      ∀ server client message, ipc.state server = some .runnable →
        ipc.replyTarget server = some client →
        ∃ ipc', RendezvousIpc.reply server message ipc = some (.ok (.delivered client), ipc') := by
  obtain ⟨es, ipc, hexec, a, ref, hfull⟩ := refines_new.exec_of_transition
    (fun (es : List (IpcEvent THREADS ENDPOINTS)) _ =>
      ∀ ev ∈ es, ev.result ≠ .outcome (.error .queueFull)) (List.forall_mem_nil _)
    (fun hes _ _ htrans _ => List.forall_mem_append.mpr
      ⟨hes, List.forall_mem_singleton.mpr htrans.ne_queueFull⟩) ops
  refine ⟨es, ipc, hexec, ref.coherent, fun thread k k' => ref.waiting_unique, ?_,
    fun k => ref.pop_of_ne_zero, hfull, ?_⟩
  · intro k entry hentry
    obtain ⟨t, rfl, -⟩ := ref.mem_waiting.mp hentry
    exact ⟨t, t.isLt, rfl⟩
  · intro server client message hrun htarget
    obtain ⟨s, c, rfl, rfl, hc⟩ := ref.replyTarget_eq_some.mp htarget
    rw [ref.state_coe, Option.some.injEq, toState_eq_runnable] at hrun
    obtain ⟨ipc', heval, -⟩ := RendezvousIpc.reply_answered ref message hrun hc
    exact ⟨ipc', heval⟩

end Aegis.Ipc
