import Mathlib
import Aegis.Ipc.Refinement

/-!
# The order of arrival does not matter

At an endpoint where nobody waits, a sender and a receiver meet whichever comes first.
The two orders take different branches of different operations and leave different
tables behind: a queue whose head has moved, a message and a call flag that nobody
will read.  The abstract state has none of these, and it is the same after both.

Kernel objects that stand for one abstract state form a simulation of the machine in
itself (`sharedSimulation`), because `ipcStep_refines` picks the result and the next
abstract state from the abstract state alone.
-/

namespace Aegis.Ipc

open Foundation Foundation.Rendezvous

variable {THREADS ENDPOINTS : ℕ}

/-- The two kernel objects stand for one abstract state. -/
def SharedState (ipc ipc' : RendezvousIpc THREADS ENDPOINTS) : Prop :=
  ∃ a, Refines ipc a ∧ Refines ipc' a

theorem sharedSimulation :
    Machine.Simulation (ipcMachine THREADS ENDPOINTS) (ipcMachine THREADS ENDPOINTS)
      SharedState where
  init := ⟨_, refines_new, refines_new⟩
  step := by
    rintro ipc₁ ipc₂ op ⟨a, ref₁, ref₂⟩
    obtain ⟨r, a', -, himpl⟩ := ipcStep_refines a op
    obtain ⟨ipc₁', hstep₁, ref₁'⟩ := himpl ipc₁ ref₁
    obtain ⟨ipc₂', hstep₂, ref₂'⟩ := himpl ipc₂ ref₂
    exact ⟨r, ipc₁', ipc₂', hstep₁, hstep₂, a', ref₁', ref₂'⟩

/-- Whoever parks first, the meeting leads to the same abstract state. -/
theorem IpcSpec.meetSender_parkSender {a : IpcSpec THREADS ENDPOINTS} {s r : Fin THREADS}
    {e : Fin ENDPOINTS} {m : Message} {isCall : Bool} (hs : a.status s = .runnable)
    (hr : a.status r = .runnable) (hsenders : a.queue (.senders e) = [])
    (hreceivers : a.queue (.receivers e) = [])
    (hr' : (a.parkSender m isCall hs hreceivers).status r = .runnable)
    (hs' : (a.parkSender m isCall hs hreceivers).status s = .sending e m isCall)
    (hs'' : (a.parkReceiver hr hsenders).status s = .runnable)
    (hq : (a.parkReceiver hr hsenders).queue (.receivers e) = [r]) :
    (a.parkSender m isCall hs hreceivers).meetSender hr' hs' =
      (a.parkReceiver hr hsenders).meetReceiver m isCall hs'' hq := by
  apply ext_data
  · funext t
    -- what was written when parking is overwritten by the meeting
    show Function.update (Function.update (Function.update a.status s _) r _) s _ t =
      Function.update (Function.update (Function.update a.status r _) r _) s _ t
    rcases eq_or_ne t s with rfl | hts
    · rw [Function.update_self, Function.update_self]
    · rw [Function.update_of_ne hts, Function.update_of_ne hts]
      rcases eq_or_ne t r with rfl | htr
      · rw [Function.update_self, Function.update_self]
      · rw [Function.update_of_ne htr, Function.update_of_ne htr, Function.update_of_ne hts,
          Function.update_of_ne htr]
  · rfl
  · rfl
  · rw [meetSender_queue hr' hs' (by rw [parkSender_queue, Function.update_self, hsenders]; rfl),
      meetReceiver_queue, parkSender_queue, parkReceiver_queue, Function.update_idem,
      Function.update_idem, ← hsenders, Function.update_eq_self, hsenders, ← hreceivers,
      Function.update_eq_self]

/-- The sender comes first. -/
theorem Refines.sender_first {ipc : RendezvousIpc THREADS ENDPOINTS}
    {a : IpcSpec THREADS ENDPOINTS} (ref : Refines ipc a) {s r : Fin THREADS}
    {e : Fin ENDPOINTS} (m : Message) (isCall : Bool) (hs : a.status s = .runnable)
    (hreceivers : a.queue (.receivers e) = []) (hsenders : a.queue (.senders e) = [])
    (hr' : (a.parkSender m isCall hs hreceivers).status r = .runnable)
    (hs' : (a.parkSender m isCall hs hreceivers).status s = .sending e m isCall) :
    ∃ es ipc', (ipcMachine THREADS ENDPOINTS).exec ipc
        [.transmit isCall s e m, .receive r e] = some (es, ipc') ∧
      Refines ipc' ((a.parkSender m isCall hs hreceivers).meetSender hr' hs') := by
  obtain ⟨ipc₁, hpark, ref₁⟩ := RendezvousIpc.transmit_parked ref isCall m hs hreceivers
  have hq : (a.parkSender m isCall hs hreceivers).queue (.senders e) = [s] := by
    rw [IpcSpec.parkSender_queue, Function.update_self, hsenders]
    rfl
  obtain ⟨ipc₂, hmeet, ref₂⟩ := RendezvousIpc.receive_met ref₁ hr' hq hs'
  exact ⟨_, ipc₂, Machine.exec_cons (step_of_call (step_transmit isCall s e m) hpark)
    (Machine.exec_singleton (step_of_call (step_receive r e) hmeet)), ref₂⟩

/-- The receiver comes first. -/
theorem Refines.receiver_first {ipc : RendezvousIpc THREADS ENDPOINTS}
    {a : IpcSpec THREADS ENDPOINTS} (ref : Refines ipc a) {s r : Fin THREADS}
    {e : Fin ENDPOINTS} (m : Message) (isCall : Bool) (hr : a.status r = .runnable)
    (hsenders : a.queue (.senders e) = [])
    (hs' : (a.parkReceiver hr hsenders).status s = .runnable)
    (hq : (a.parkReceiver hr hsenders).queue (.receivers e) = [r]) :
    ∃ es ipc', (ipcMachine THREADS ENDPOINTS).exec ipc
        [.receive r e, .transmit isCall s e m] = some (es, ipc') ∧
      Refines ipc' ((a.parkReceiver hr hsenders).meetReceiver m isCall hs' hq) := by
  obtain ⟨ipc₁, hpark, ref₁⟩ := RendezvousIpc.receive_parked ref hr hsenders
  obtain ⟨ipc₂, hmeet, ref₂⟩ := RendezvousIpc.transmit_met ref₁ isCall m hs' hq
  exact ⟨_, ipc₂, Machine.exec_cons (step_of_call (step_receive r e) hpark)
    (Machine.exec_singleton (step_of_call (step_transmit isCall s e m) hmeet)), ref₂⟩

/-- **The order of arrival does not matter.**  In every reachable state, at every
endpoint whose two queues are empty, let two runnable threads send (or call) and
receive.  Both orders succeed, and they lead to states that no later sequence of
operations can tell apart. -/
theorem arrival_order_irrelevant {ipc : RendezvousIpc THREADS ENDPOINTS}
    (reachable : (ipcMachine THREADS ENDPOINTS).Reachable ipc) {e : ℕ} (he : e < ENDPOINTS)
    (hsenders : ipc.endpoints[e].senders.len = 0)
    (hreceivers : ipc.endpoints[e].receivers.len = 0) {s r : ThreadId} (hne : s ≠ r)
    (hsrun : ipc.state s = some .runnable) (hrrun : ipc.state r = some .runnable) (m : Message)
    {op : IpcOp} (hop : op = .send s e m ∨ op = .call s e m) :
    ∃ es ipc₁ fs ipc₂,
      (ipcMachine THREADS ENDPOINTS).exec ipc [op, .receive r e] = some (es, ipc₁) ∧
      (ipcMachine THREADS ENDPOINTS).exec ipc [.receive r e, op] = some (fs, ipc₂) ∧
      (ipcMachine THREADS ENDPOINTS).Indistinguishable ipc₁ ipc₂ := by
  obtain ⟨a, ref⟩ := exists_refines reachable
  lift e to Fin ENDPOINTS using he
  have nobody : ∀ {k : Line (Fin ENDPOINTS)}, (ipc.queueAt k).len = 0 → a.queue k = [] :=
    fun {k} hlen => List.eq_nil_of_length_eq_zero ((ref.queues k).len.symm.trans hlen)
  have hsenders : a.queue (.senders e) = [] := nobody hsenders
  have hreceivers : a.queue (.receivers e) = [] := nobody hreceivers
  obtain ⟨s, rfl, hs⟩ := ref.state_eq_runnable.mp hsrun
  obtain ⟨r, rfl, hr⟩ := ref.state_eq_runnable.mp hrrun
  have hne : s ≠ r := fun h => hne (congrArg Fin.val h)
  obtain ⟨isCall, rfl⟩ : ∃ isCall, op = .transmit isCall s e m := by
    rcases hop with rfl | rfl
    · exact ⟨false, rfl⟩
    · exact ⟨true, rfl⟩
  have hr' : (a.parkSender m isCall hs hreceivers).status r = .runnable := by
    rw [IpcSpec.parkSender_status, Function.update_of_ne hne.symm, hr]
  have hs' : (a.parkSender m isCall hs hreceivers).status s = .sending e m isCall := by
    rw [IpcSpec.parkSender_status, Function.update_self]
  have hs'' : (a.parkReceiver hr hsenders).status s = .runnable := by
    rw [IpcSpec.parkReceiver_status, Function.update_of_ne hne, hs]
  have hq : (a.parkReceiver hr hsenders).queue (.receivers e) = [r] := by
    rw [IpcSpec.parkReceiver_queue, Function.update_self, hreceivers]
    rfl
  obtain ⟨es, ipc₁, hexec₁, ref₁⟩ :=
    ref.sender_first m isCall hs hreceivers hsenders hr' hs'
  obtain ⟨fs, ipc₂, hexec₂, ref₂⟩ := ref.receiver_first m isCall hr hsenders hs'' hq
  refine ⟨es, ipc₁, fs, ipc₂, hexec₁, hexec₂, sharedSimulation.indistinguishable ⟨_, ref₁, ?_⟩⟩
  rw [IpcSpec.meetSender_parkSender hs hr hsenders hreceivers hr' hs' hs'' hq]
  exact ref₂

/-- A call and a receive at a fresh endpoint, in either order. -/
theorem arrival_order_irrelevant_new :
    ∃ es ipc₁ fs ipc₂,
      (ipcMachine 2 1).exec RendezvousIpc.new
        [.call 0 0 ⟨7, 1, Vector.replicate 4 0, none⟩, .receive 1 0] = some (es, ipc₁) ∧
      (ipcMachine 2 1).exec RendezvousIpc.new
        [.receive 1 0, .call 0 0 ⟨7, 1, Vector.replicate 4 0, none⟩] = some (fs, ipc₂) ∧
      (ipcMachine 2 1).Indistinguishable ipc₁ ipc₂ :=
  arrival_order_irrelevant Machine.reachable_init (by decide) rfl rfl (by decide) rfl rfl _
    (.inr rfl)

end Aegis.Ipc
