import Mathlib
import Aegis.Ipc.Refinement

/-!
# No reply deadlock

A caller waits for the thread that received its call.  These waits never form a
cycle, whatever servers call each other: an edge is added when the two threads meet,
and at that moment the receiver waits for nobody.  So the chain of servers that a
blocked caller depends on ends, in fewer than `THREADS` steps, at a thread that does
not wait for a reply.
-/

namespace Aegis.Ipc

open Foundation Foundation.Rendezvous

variable {THREADS ENDPOINTS : ℕ}

/-- The thread whose reply a thread waits for. -/
def RendezvousIpc.waitsFor (ipc : RendezvousIpc THREADS ENDPOINTS) (thread : ThreadId) :
    Option ThreadId :=
  match ipc.state thread with
  | some (.replyBlocked server) => some server
  | _ => none

namespace Refines

variable {ipc : RendezvousIpc THREADS ENDPOINTS} {a : IpcSpec THREADS ENDPOINTS}

theorem waitsFor_coe (ref : Refines ipc a) (t : Fin THREADS) :
    ipc.waitsFor t = ((a.status t).server).map Fin.val := by
  rw [RendezvousIpc.waitsFor, ref.state_coe]
  cases a.status t <;> rfl

theorem waitsFor_eq_some (ref : Refines ipc a) {thread server : ThreadId}
    (h : ipc.waitsFor thread = some server) :
    ∃ t s : Fin THREADS, thread = t ∧ server = s ∧ (a.status t).server = some s := by
  have hlt : thread < THREADS := by
    by_contra hge
    rw [RendezvousIpc.waitsFor, ref.state_eq, IpcSpec.reported, dif_neg hge] at h
    cases h
  rw [ref.waitsFor_coe ⟨thread, hlt⟩, Option.map_eq_some_iff] at h
  obtain ⟨s, hs, rfl⟩ := h
  exact ⟨⟨thread, hlt⟩, s, rfl, rfl, hs⟩

theorem acyclic (ref : Refines ipc a) : Acyclic ipc.waitsFor := by
  refine Acyclic.of_owner (fun thread (t : Fin THREADS) => thread = t.val) ?_ ?_ a.acyclic
  · intro thread t u ht hu
    exact Fin.ext (ht.symm.trans hu)
  · intro thread server h
    obtain ⟨t, s, rfl, rfl, hs⟩ := ref.waitsFor_eq_some h
    exact ⟨t, s, rfl, rfl, hs⟩

/-- The chain of servers from a thread ends at one that does not wait for a reply. -/
theorem exists_end (ref : Refines ipc a) (t : Fin THREADS) :
    ∃ n < THREADS, ∃ u : Fin THREADS, walk ipc.waitsFor n t = some u.val ∧
      (a.status u).server = none := by
  obtain ⟨n, hn, u, hwalk, hend⟩ := a.acyclic.exists_end t
  refine ⟨n, by simpa using hn, u, ?_, hend⟩
  rw [walk_map ref.waitsFor_coe, hwalk]
  rfl

end Refines

/-- **No reply deadlock.**  After every run the relation "waits for a reply from" has
no cycle, and from every thread that waits for a reply the chain of servers ends
after fewer than `THREADS` steps in a thread that is runnable, sending or
receiving. -/
theorem no_reply_deadlock (THREADS ENDPOINTS : ℕ) (ops : List IpcOp) :
    ∃ es ipc, (ipcMachine THREADS ENDPOINTS).exec RendezvousIpc.new ops = some (es, ipc) ∧
      (∀ thread, ¬ Relation.TransGen
        (fun client server => ipc.state client = some (.replyBlocked server)) thread thread) ∧
      ∀ client server, ipc.state client = some (.replyBlocked server) →
        ∃ n < THREADS, ∃ last, walk ipc.waitsFor n client = some last ∧
          (ipc.state last = some .runnable ∨ (∃ e, ipc.state last = some (.sending e)) ∨
            ∃ e, ipc.state last = some (.receiving e)) := by
  obtain ⟨es, ipc, hexec, a, ref⟩ := (@refines_new THREADS ENDPOINTS).exec ops
  refine ⟨es, ipc, hexec, fun thread hcycle => ?_, fun client server hblocked => ?_⟩
  · refine ref.acyclic thread (Relation.TransGen.mono (fun client server h => ?_) _ _ hcycle)
    rw [Follows, RendezvousIpc.waitsFor, h]
  · obtain ⟨c, rfl, -⟩ := ref.state_eq_some.mp hblocked
    obtain ⟨n, hn, u, hwalk, hend⟩ := ref.exists_end c
    refine ⟨n, hn, u, hwalk, ?_⟩
    rw [ref.state_coe]
    cases hu : a.status u with
    | runnable => exact .inl rfl
    | sending e m isCall => exact .inr (.inl ⟨e, rfl⟩)
    | receiving e => exact .inr (.inr ⟨e, rfl⟩)
    | replyBlocked s =>
        rw [hu] at hend
        cases hend

end Aegis.Ipc
