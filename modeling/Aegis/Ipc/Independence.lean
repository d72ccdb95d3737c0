import Mathlib
import Aegis.Foundation.Locality
import Aegis.Ipc.Refinement

/-!
# Independent operations commute

An operation of a runnable thread works on that thread, on the queues of the endpoint it
names, and on a peer it finds there or in its own reply target.  Which thread the peer is
depends on the state, but what can be said of it does not: a peer found at an endpoint
waits at that endpoint, and a peer found in a reply target waits for this very thread.  So
the cells of two operations that share neither issuer nor endpoint are disjoint, and the
two orders lead to the same kernel object, queue slot for queue slot.
-/

namespace Aegis.Ipc

open Foundation Foundation.Rendezvous

variable {THREADS ENDPOINTS : ℕ}

/-! ## Cells -/

/-- A thread or a queue. -/
abbrev Cell (THREADS ENDPOINTS : ℕ) := Fin THREADS ⊕ Line (Fin ENDPOINTS)

namespace RendezvousIpc

/-- The contents of the cells. -/
def cell (ipc : RendezvousIpc THREADS ENDPOINTS) :
    Cell THREADS ENDPOINTS → Thread ⊕ Queue THREADS :=
  Sum.map ipc.threadAt ipc.queueAt

theorem cell_injective :
    Function.Injective (cell : RendezvousIpc THREADS ENDPOINTS → _) := by
  intro ipc ipc' h
  refine ext_cells ?_ ?_
  · funext t
    exact Sum.inl.inj (congrFun h (.inl t))
  · funext k
    exact Sum.inr.inj (congrFun h (.inr k))

variable {ipc ipc' : RendezvousIpc THREADS ENDPOINTS} {F : Set (Cell THREADS ENDPOINTS)}

theorem threadAt_of_eqOn (same : Set.EqOn ipc'.cell ipc.cell F) {t : Fin THREADS}
    (h : .inl t ∈ F) : ipc'.threadAt t = ipc.threadAt t :=
  Sum.inl.inj (same h)

theorem queueAt_of_eqOn (same : Set.EqOn ipc'.cell ipc.cell F) {k : Line (Fin ENDPOINTS)}
    (h : .inr k ∈ F) : ipc'.queueAt k = ipc.queueAt k :=
  Sum.inr.inj (same h)

end RendezvousIpc

/-- The operation is local to a set of cells. -/
abbrev IpcLocal (op : IpcOp) (F : Set (Cell THREADS ENDPOINTS))
    (ipc : RendezvousIpc THREADS ENDPOINTS) (r : IpcResult) : Prop :=
  LocalAt RendezvousIpc.cell (fun ipc => (ipcMachine THREADS ENDPOINTS).step ipc op) F ipc r

/-- An operation is local to the cells it writes and those that decide what it writes. -/
theorem IpcLocal.of_leaves {ipc : RendezvousIpc THREADS ENDPOINTS} {op : IpcOp}
    {F : Set (Cell THREADS ENDPOINTS)}
    {method : Call (RendezvousIpc THREADS ENDPOINTS) IpcError IpcOutcome}
    {outcome : Except IpcError IpcOutcome}
    (hstep : ∀ ipc, (ipcMachine THREADS ENDPOINTS).step ipc op =
      (method ipc).map (Prod.map .outcome id))
    (threads : List (Fin THREADS × Thread)) (queues : List (Line (Fin ENDPOINTS) × Queue THREADS))
    (hthreads : ∀ write ∈ threads, .inl write.1 ∈ F)
    (hqueues : ∀ write ∈ queues, .inr write.1 ∈ F)
    (h : ∀ ipc', Set.EqOn ipc'.cell ipc.cell F → RendezvousIpc.Leaves (method ipc') outcome
      (overwrite ipc'.threadAt threads) (overwrite ipc'.queueAt queues)) :
    IpcLocal op F ipc (.outcome outcome) := by
  refine ⟨threads.map (Prod.map .inl .inl) ++ queues.map (Prod.map .inr .inr), ?_, ?_⟩
  · intro write hwrite
    rcases List.mem_append.mp hwrite with hmem | hmem
    · obtain ⟨w, hw, rfl⟩ := List.mem_map.mp hmem
      exact hthreads w hw
    · obtain ⟨w, hw, rfl⟩ := List.mem_map.mp hmem
      exact hqueues w hw
  · intro ipc₁ same
    obtain ⟨ipc₂, heval, hthreads₂, hqueues₂⟩ := h ipc₁ same
    refine ⟨ipc₂, step_of_call hstep heval, ?_⟩
    rw [RendezvousIpc.cell, hthreads₂, hqueues₂, map_overwrite]
    rfl

/-! ## The cells of an operation -/

/-- The cells that an operation of the thread `s` naming this endpoint may work on. -/
def IpcSpec.footprint (a : IpcSpec THREADS ENDPOINTS) (s : Fin THREADS) (endpoint : Option ℕ) :
    Set (Cell THREADS ENDPOINTS) := fun
  | .inl t => t = s ∨ (∃ k, (a.status t).line = some k ∧ endpoint = some k.endpoint.val) ∨
      a.status t = .replyBlocked s
  | .inr k => endpoint = some k.endpoint.val

section Footprint

variable {a : IpcSpec THREADS ENDPOINTS} {s t : Fin THREADS} {endpoint : Option ℕ}
  {k : Line (Fin ENDPOINTS)}

theorem IpcSpec.issuer_mem_footprint : .inl s ∈ a.footprint s endpoint := .inl rfl

theorem IpcSpec.waiting_mem_footprint (h : (a.status t).line = some k) :
    .inl t ∈ a.footprint s (some k.endpoint.val) := .inr (.inl ⟨k, h, rfl⟩)

theorem IpcSpec.client_mem_footprint (h : a.status t = .replyBlocked s) :
    .inl t ∈ a.footprint s endpoint := .inr (.inr h)

/-- Different issuers and different endpoints make disjoint footprints: a thread waits at
one endpoint or for one server, and an issuer waits nowhere. -/
theorem IpcSpec.disjoint_footprint {s' : Fin THREADS} {endpoint' : Option ℕ} (hne : s ≠ s')
    (hs : a.status s = .runnable) (hs' : a.status s' = .runnable)
    (hendpoint : ∀ e, endpoint = some e → endpoint' ≠ some e) :
    Disjoint (a.footprint s endpoint) (a.footprint s' endpoint') := by
  rw [Set.disjoint_left]
  rintro (t | k) h h'
  · have waits : ∀ {u : Fin THREADS}, a.status u = .runnable →
        ¬ ((∃ k, (a.status u).line = some k ∧ endpoint = some k.endpoint.val) ∨
          a.status u = .replyBlocked s) := by
      rintro u hu (⟨k, hk, -⟩ | hblocked)
      · rw [hu] at hk
        cases hk
      · rw [hu] at hblocked
        cases hblocked
    rcases h with rfl | ⟨k, hk, he⟩ | hblocked
    · rcases h' with rfl | ⟨k', hk', -⟩ | hblocked'
      · exact hne rfl
      · rw [hs] at hk'
        cases hk'
      · rw [hs] at hblocked'
        cases hblocked'
    · rcases h' with rfl | ⟨k', hk', he'⟩ | hblocked'
      · exact waits hs' (.inl ⟨k, hk, he⟩)
      · rw [hk] at hk'
        cases hk'
        exact hendpoint _ he he'
      · rw [hblocked'] at hk
        cases hk
    · rcases h' with rfl | ⟨k', hk', -⟩ | hblocked'
      · exact waits hs' (.inr hblocked)
      · rw [hblocked] at hk'
        cases hk'
      · rw [hblocked] at hblocked'
        cases hblocked'
        exact hne rfl
  · exact hendpoint _ h h'

end Footprint

/-! ## Operations -/

section Operations

open RendezvousIpc

variable {ipc : RendezvousIpc THREADS ENDPOINTS} {a : IpcSpec THREADS ENDPOINTS}

theorem transmit_local (ref : Refines ipc a) (isCall : Bool) {s : Fin THREADS}
    (hs : a.status s = .runnable) (endpoint : ℕ) (m : Message) :
    ∃ r, IpcLocal (.transmit isCall s endpoint m) (a.footprint s (some endpoint)) ipc r := by
  have hstep := @step_transmit THREADS ENDPOINTS isCall s endpoint m
  have hs' := ref.runnable hs
  by_cases he : endpoint < ENDPOINTS
  · lift endpoint to Fin ENDPOINTS using he
    have hsenders : .inr (.senders endpoint) ∈ a.footprint s (some endpoint.val) := rfl
    have hreceivers : .inr (.receivers endpoint) ∈ a.footprint s (some endpoint.val) := rfl
    cases hq : a.queue (.receivers endpoint) with
    | nil =>
        obtain ⟨queue, hpush, -⟩ := ref.push_eq hs (.senders endpoint)
        refine ⟨.outcome (.ok .blocked), .of_leaves hstep
          [(s, { ipc.threadAt s with isCall, outgoing := m, state := .sending endpoint })]
          [(.senders endpoint, queue)] (by simpa using IpcSpec.issuer_mem_footprint)
          (by simpa using hsenders) fun ipc' same => ?_⟩
        have hthread := threadAt_of_eqOn same IpcSpec.issuer_mem_footprint
        rw [← hthread]
        refine transmit_parks isCall m (by rw [hthread, hs']) ?_ ?_
        · rw [queueAt_of_eqOn same hreceivers, ref.len_eq_zero hq]
        · rw [queueAt_of_eqOn same hsenders, hpush]
    | cons r rest =>
        obtain ⟨queue, hpop, -⟩ := Queue.pop_cons (hq ▸ ref.queues (.receivers endpoint))
        have hr : .inl r ∈ a.footprint s (some endpoint.val) :=
          IpcSpec.waiting_mem_footprint (by rw [a.receiving_of_queue hq]; rfl)
        refine ⟨.outcome (.ok (.delivered r)), .of_leaves hstep
          [(s, { ipc.threadAt s with
              isCall, state := if isCall then .replyBlocked r else .runnable }),
            (r, { ipc.threadAt r with
              inbox := some m
              replyTarget := if isCall then some s else (ipc.threadAt r).replyTarget
              state := .runnable })]
          [(.receivers endpoint, queue)] (by simpa using ⟨IpcSpec.issuer_mem_footprint, hr⟩)
          (by simpa using hreceivers) fun ipc' same => ?_⟩
        have hthread := threadAt_of_eqOn same IpcSpec.issuer_mem_footprint
        rw [← hthread, ← threadAt_of_eqOn same hr]
        refine transmit_meets isCall m (by rw [hthread, hs']) (a.ne_of_receiver hs hq) ?_
        rw [queueAt_of_eqOn same hreceivers, hpop]
  · refine ⟨.outcome (.error .badEndpoint),
      .of_leaves hstep [(s, { ipc.threadAt s with isCall })] []
        (by simpa using IpcSpec.issuer_mem_footprint) (by simp) fun ipc' same => ?_⟩
    have hthread := threadAt_of_eqOn same IpcSpec.issuer_mem_footprint
    rw [← hthread]
    exact transmit_badEndpoint isCall m (by rw [hthread, hs']) (Nat.le_of_not_lt he)

theorem receive_local (ref : Refines ipc a) {r : Fin THREADS} (hr : a.status r = .runnable)
    (endpoint : ℕ) :
    ∃ result, IpcLocal (.receive r endpoint) (a.footprint r (some endpoint)) ipc result := by
  have hstep := @step_receive THREADS ENDPOINTS r endpoint
  have hr' := ref.runnable hr
  by_cases he : endpoint < ENDPOINTS
  · lift endpoint to Fin ENDPOINTS using he
    have hsenders : .inr (.senders endpoint) ∈ a.footprint r (some endpoint.val) := rfl
    have hreceivers : .inr (.receivers endpoint) ∈ a.footprint r (some endpoint.val) := rfl
    cases hq : a.queue (.senders endpoint) with
    | nil =>
        obtain ⟨queue, hpush, -⟩ := ref.push_eq hr (.receivers endpoint)
        refine ⟨.outcome (.ok .blocked), .of_leaves hstep
          [(r, { ipc.threadAt r with state := .receiving endpoint })]
          [(.receivers endpoint, queue)] (by simpa using IpcSpec.issuer_mem_footprint)
          (by simpa using hreceivers) fun ipc' same => ?_⟩
        have hthread := threadAt_of_eqOn same IpcSpec.issuer_mem_footprint
        rw [← hthread]
        refine receive_parks (by rw [hthread, hr']) ?_ ?_
        · rw [queueAt_of_eqOn same hsenders, ref.len_eq_zero hq]
        · rw [queueAt_of_eqOn same hreceivers, hpush]
    | cons s rest =>
        obtain ⟨queue, hpop, -⟩ := Queue.pop_cons (hq ▸ ref.queues (.senders endpoint))
        obtain ⟨m, isCall, hs⟩ := a.sending_of_queue hq
        have hs' : .inl s ∈ a.footprint r (some endpoint.val) :=
          IpcSpec.waiting_mem_footprint (by rw [hs]; rfl)
        refine ⟨.outcome (.ok (.delivered s)), .of_leaves hstep
          [(s, { ipc.threadAt s with
              state := if (ipc.threadAt s).isCall then .replyBlocked r else .runnable }),
            (r, { ipc.threadAt r with
              inbox := some (ipc.threadAt s).outgoing
              replyTarget :=
                if (ipc.threadAt s).isCall then some s else (ipc.threadAt r).replyTarget })]
          [(.senders endpoint, queue)] (by simpa using ⟨hs', IpcSpec.issuer_mem_footprint⟩)
          (by simpa using hsenders) fun ipc' same => ?_⟩
        have hthread := threadAt_of_eqOn same IpcSpec.issuer_mem_footprint
        rw [← hthread, ← threadAt_of_eqOn same hs']
        refine receive_meets (by rw [hthread, hr']) (a.ne_of_sender hr hs) ?_
        rw [queueAt_of_eqOn same hsenders, hpop]
  · refine ⟨.outcome (.error .badEndpoint),
      .of_leaves hstep [] [] (by simp) (by simp) fun ipc' same => ?_⟩
    have hthread := threadAt_of_eqOn same IpcSpec.issuer_mem_footprint
    exact ⟨ipc', receive_badEndpoint (by rw [hthread, hr']) (Nat.le_of_not_lt he), rfl, rfl⟩

theorem reply_local (ref : Refines ipc a) {s : Fin THREADS} (hs : a.status s = .runnable)
    (m : Message) : ∃ r, IpcLocal (.reply s m) (a.footprint s none) ipc r := by
  have hstep := @step_reply THREADS ENDPOINTS s m
  have hs' := ref.runnable hs
  cases hc : a.replyTarget s with
  | none =>
      refine ⟨.outcome (.error .noReplyTarget),
        .of_leaves hstep [] [] (by simp) (by simp) fun ipc' same => ?_⟩
      have hthread := threadAt_of_eqOn same IpcSpec.issuer_mem_footprint
      exact ⟨ipc', reply_unanswerable m (by rw [hthread, hs'])
        (by rw [hthread, ref.target_eq_none hc]), rfl, rfl⟩
  | some c =>
      have hblocked := a.reply_blocked s c hc
      have hclient : .inl c ∈ a.footprint s none := IpcSpec.client_mem_footprint hblocked
      refine ⟨.outcome (.ok (.delivered c)), .of_leaves hstep
        [(s, { ipc.threadAt s with replyTarget := none }),
          (c, { ipc.threadAt c with inbox := some m, state := .runnable })] []
        (by simpa using ⟨IpcSpec.issuer_mem_footprint, hclient⟩) (by simp) fun ipc' same => ?_⟩
      have hthread := threadAt_of_eqOn same IpcSpec.issuer_mem_footprint
      have hthread' := threadAt_of_eqOn same hclient
      rw [← hthread, ← hthread']
      exact reply_answers m (by rw [hthread, hs']) (by rw [hthread, ref.target_eq_some hc])
        (by rw [hthread', ref.replyBlocked hblocked])

/-- An operation is local to its footprint. -/
theorem op_local (ref : Refines ipc a) {op : IpcOp} {s : Fin THREADS}
    (hop : op.issuer = some s.val) (hs : a.status s = .runnable) :
    ∃ r, IpcLocal op (a.footprint s op.endpoint) ipc r := by
  cases op with
  | send sender endpoint message =>
      obtain rfl : sender = s := Option.some.inj hop
      exact transmit_local ref false hs endpoint message
  | call caller endpoint message =>
      obtain rfl : caller = s := Option.some.inj hop
      exact transmit_local ref true hs endpoint message
  | receive receiver endpoint =>
      obtain rfl : receiver = s := Option.some.inj hop
      exact receive_local ref hs endpoint
  | reply server message =>
      obtain rfl : server = s := Option.some.inj hop
      exact reply_local ref hs message
  | takeMessage thread => cases hop
  | state thread => cases hop

end Operations

/-- **Independent operations commute.**  In every reachable state, let two different
runnable threads each issue a `send`, `call`, `receive` or `reply`, the two not naming the
same endpoint.  Both orders return the same two results and lead to the same state. -/
theorem independent_operations_commute {ipc : RendezvousIpc THREADS ENDPOINTS}
    (reachable : (ipcMachine THREADS ENDPOINTS).Reachable ipc) {a b : ThreadId} (hne : a ≠ b)
    (ha : ipc.state a = some .runnable) (hb : ipc.state b = some .runnable) {opA opB : IpcOp}
    (hopA : opA.issuer = some a) (hopB : opB.issuer = some b)
    (hendpoint : ∀ e, opA.endpoint = some e → opB.endpoint ≠ some e) :
    ∃ rA rB ipcA ipcB ipc',
      (ipcMachine THREADS ENDPOINTS).step ipc opA = some (rA, ipcA) ∧
      (ipcMachine THREADS ENDPOINTS).step ipcA opB = some (rB, ipc') ∧
      (ipcMachine THREADS ENDPOINTS).step ipc opB = some (rB, ipcB) ∧
      (ipcMachine THREADS ENDPOINTS).step ipcB opA = some (rA, ipc') := by
  obtain ⟨spec, ref⟩ := exists_refines reachable
  obtain ⟨s, rfl, hs⟩ := ref.state_eq_runnable.mp ha
  obtain ⟨t, rfl, ht⟩ := ref.state_eq_runnable.mp hb
  obtain ⟨rA, hA⟩ := op_local ref hopA hs
  obtain ⟨rB, hB⟩ := op_local ref hopB ht
  have hst : s ≠ t := fun h => hne (congrArg Fin.val h)
  obtain ⟨ipcA, ipcB, ipc', commutes⟩ := hA.commute RendezvousIpc.cell_injective hB
    (IpcSpec.disjoint_footprint hst hs ht hendpoint)
  exact ⟨rA, rB, ipcA, ipcB, ipc', commutes⟩

/-- A receiver waits at one endpoint, and a sender at the other. -/
def waitingPair : RendezvousIpc 4 2 :=
  (((ipcMachine 4 2).exec RendezvousIpc.new
    [.receive 2 0, .send 3 1 ⟨5, 0, Vector.replicate 4 0, none⟩]).map Prod.snd).getD .new

theorem waitingPair_reachable : (ipcMachine 4 2).Reachable waitingPair :=
  ⟨[.receive 2 0, .send 3 1 ⟨5, 0, Vector.replicate 4 0, none⟩], _, rfl⟩

/-- A call meets the receiver, and a receive the sender, in either order. -/
theorem independent_operations_commute_meeting :
    ∃ ipcA ipcB ipc',
      (ipcMachine 4 2).step waitingPair (.call 0 0 ⟨7, 1, Vector.replicate 4 9, none⟩) =
        some (.outcome (.ok (.delivered 2)), ipcA) ∧
      (ipcMachine 4 2).step ipcA (.receive 1 1) =
        some (.outcome (.ok (.delivered 3)), ipc') ∧
      (ipcMachine 4 2).step waitingPair (.receive 1 1) =
        some (.outcome (.ok (.delivered 3)), ipcB) ∧
      (ipcMachine 4 2).step ipcB (.call 0 0 ⟨7, 1, Vector.replicate 4 9, none⟩) =
        some (.outcome (.ok (.delivered 2)), ipc') := by
  obtain ⟨rA, rB, ipcA, ipcB, ipc', hA, hAB, hB, hBA⟩ :=
    independent_operations_commute waitingPair_reachable Nat.zero_ne_one (by decide) (by decide)
      (rfl : (IpcOp.call 0 0 ⟨7, 1, Vector.replicate 4 9, none⟩).issuer = some 0)
      (rfl : (IpcOp.receive 1 1).issuer = some 1) (by rintro e ⟨⟩; decide)
  have hresults : ((ipcMachine 4 2).step waitingPair
        (.call 0 0 ⟨7, 1, Vector.replicate 4 9, none⟩)).map Prod.fst =
          some (.outcome (.ok (.delivered 2))) ∧
      ((ipcMachine 4 2).step waitingPair (.receive 1 1)).map Prod.fst =
        some (.outcome (.ok (.delivered 3))) := by decide
  rw [hA, hB] at hresults
  obtain rfl := Option.some.inj hresults.1
  obtain rfl := Option.some.inj hresults.2
  exact ⟨ipcA, ipcB, ipc', hA, hAB, hB, hBA⟩

end Aegis.Ipc
