import Mathlib
import Aegis.Capability.Refinement

/-!
# Revocation

`revoke` withdraws a set of nodes: the subtree of the node that the slot names.
`Withdraws` says what that means for the node table and the slots, and the set
determines the outcome.  The loop of `revoke` may visit the table in any order.

Withdrawing one set and then another, disjoint one is withdrawing their union.  After
the subtree of one node has been withdrawn, the subtree of another is what is left of
it; if nothing is left, its slot is empty and the second `revoke` is refused.  So two
revocations withdraw the union of their subtrees, in either order.
-/

namespace Aegis.Capability

open Foundation Relation

variable {TASKS SLOTS NODES : ℕ}

namespace CapabilitySystem

/-- The nodes of `killed` are revoked and the slots that named them are emptied;
everything else is left alone. -/
structure Withdraws (caps caps' : CapabilitySystem TASKS SLOTS NODES)
    (killed : Finset (Fin NODES)) : Prop where
  revoked : ∀ i ∈ killed, caps'.nodeAt i = (caps.nodeAt i).revoked
  spared : ∀ i ∉ killed, caps'.nodeAt i = caps.nodeAt i
  emptied : ∀ p, ∀ i ∈ killed, caps.slotAt p = some (caps.refOf i) → caps'.slotAt p = none
  kept : ∀ p, (∀ i ∈ killed, caps.slotAt p ≠ some (caps.refOf i)) →
    caps'.slotAt p = caps.slotAt p

/-- The nodes and the slots make up the state. -/
theorem ext_tables {caps caps' : CapabilitySystem TASKS SLOTS NODES}
    (hnodes : ∀ i, caps'.nodeAt i = caps.nodeAt i)
    (hslots : ∀ p, caps'.slotAt p = caps.slotAt p) : caps' = caps := by
  obtain ⟨spaces, nodes⟩ := caps
  obtain ⟨spaces', nodes'⟩ := caps'
  rw [mk.injEq]
  constructor
  · refine Vector.ext fun t ht => Vector.ext fun s hs => ?_
    exact hslots (⟨t, ht⟩, ⟨s, hs⟩)
  · exact Vector.ext fun i hi => hnodes ⟨i, hi⟩

/-- A node that is in use is found through its slot. -/
theorem LeaseTree.of_capAt {caps : CapabilitySystem TASKS SLOTS NODES} (tree : caps.LeaseTree)
    {task : TaskId} {slot : ℕ} {cap : CapRef} (hcap : caps.capAt task slot = .ok cap) :
    ∃ p r, locate task slot = .ok p ∧ caps.slotAt p = some (caps.refOf r) ∧
      (caps.nodeAt r).live ∧ cap = caps.refOf r := by
  rw [capAt_eq] at hcap
  cases hp : (locate task slot : Except CapError (Position TASKS SLOTS)) with
  | error e => simp [hp] at hcap
  | ok p =>
      cases hslot : caps.slotAt p with
      | none => simp [hp, hslot] at hcap
      | some s =>
          simp only [hp, hslot, Except.ok.injEq] at hcap
          obtain ⟨r, live, rfl⟩ := tree.named p s hslot
          exact ⟨p, r, rfl, hslot, live, hcap.symm⟩

/-- A state reached from `new()` is a lease tree. -/
theorem leaseTree_of_reachable (hN : NODES ≤ 65536)
    {caps : CapabilitySystem TASKS SLOTS NODES}
    (h : (capMachine TASKS SLOTS NODES).Reachable caps) : caps.LeaseTree := by
  obtain ⟨f, rep⟩ := (capSimulation hN).exists_of_reachable h
  exact rep.leaseTree hN

/-- **`revoke` withdraws the subtree** of the node that the slot names. -/
theorem LeaseTree.revoke_withdraws {caps : CapabilitySystem TASKS SLOTS NODES}
    (tree : caps.LeaseTree) (hN : NODES ≤ 65536) {task : TaskId} {slot : ℕ}
    {p : Position TASKS SLOTS} (hp : locate task slot = .ok p) {r : Fin NODES}
    (live : (caps.nodeAt r).live) (hslot : caps.slotAt p = some (caps.refOf r)) :
    ∃ caps', revoke task slot caps = some (.ok (caps.subtree r).card, caps') ∧
      Withdraws caps caps' (caps.subtree r) := by
  obtain ⟨caps', hrevoke, hrevoked, hspared, hemptied, hkept⟩ :=
    revoke_eq tree hN hp live hslot
  exact ⟨caps', hrevoke, hrevoked, hspared, hemptied, hkept⟩

/-- The loop over the node table may visit it in any order. -/
theorem Withdraws.any_order {caps caps' : CapabilitySystem TASKS SLOTS NODES}
    (tree : caps.LeaseTree) (hN : NODES ≤ 65536) {r : Fin NODES}
    (h : Withdraws caps caps' (caps.subtree r)) {order : List (Fin NODES)}
    (horder : order.Perm (List.finRange NODES)) :
    order.foldl (revokeNode (caps.refOf r)) (caps.nodes, 0) =
      (caps'.nodes, (caps.subtree r).card) := by
  have hall : ∀ i, i ∈ order := fun i => horder.mem_iff.mpr (List.mem_finRange i)
  obtain ⟨htable, hcount⟩ := foldl_revokeNode caps.nodes (caps.refOf r) order
    (horder.nodup_iff.mpr (List.nodup_finRange NODES))
  refine Prod.ext (Vector.ext fun i hi => ?_) ?_
  · refine (htable ⟨i, hi⟩).trans ?_
    simp only [hall, true_and, condemned_iff tree hN]
    split
    · next hmem => exact (h.revoked ⟨i, hi⟩ hmem).symm
    · next hmem => exact (h.spared ⟨i, hi⟩ hmem).symm
  · have hfilter : caps.subtree r =
        Finset.univ.filter fun i => condemned caps.nodes (caps.refOf r) i := by
      ext i
      simp [condemned_iff tree hN]
    rw [hcount, horder.countP_eq, hfilter, Fin.univ_def]
    simp [Finset.card, Finset.filter, List.countP_eq_length_filter]

namespace Withdraws

variable {caps caps₁ caps₂ : CapabilitySystem TASKS SLOTS NODES} {A B : Finset (Fin NODES)}

theorem refOf_eq (h : Withdraws caps caps₁ A) {i : Fin NODES} (hi : i ∉ A) :
    caps₁.refOf i = caps.refOf i := by
  rw [refOf, h.spared i hi, refOf]

/-- The set determines the outcome. -/
theorem unique (h₁ : Withdraws caps caps₁ A) (h₂ : Withdraws caps caps₂ A) : caps₁ = caps₂ := by
  refine ext_tables (fun i => ?_) fun p => ?_
  · by_cases hi : i ∈ A
    · rw [h₁.revoked i hi, h₂.revoked i hi]
    · rw [h₁.spared i hi, h₂.spared i hi]
  · by_cases hp : ∃ i ∈ A, caps.slotAt p = some (caps.refOf i)
    · obtain ⟨i, hi, hslot⟩ := hp
      rw [h₁.emptied p i hi hslot, h₂.emptied p i hi hslot]
    · have hnot : ∀ i ∈ A, caps.slotAt p ≠ some (caps.refOf i) := fun i hi hslot =>
        hp ⟨i, hi, hslot⟩
      rw [h₁.kept p hnot, h₂.kept p hnot]

/-- A slot that names a spared node is not touched. -/
theorem kept_of_spared (h : Withdraws caps caps₁ A) (hN : NODES ≤ 65536)
    {p : Position TASKS SLOTS} {i : Fin NODES} (hslot : caps.slotAt p = some (caps.refOf i))
    (hi : i ∉ A) : caps₁.slotAt p = some (caps₁.refOf i) := by
  rw [h.refOf_eq hi, ← hslot]
  refine h.kept p fun j hj hslot' => hi ?_
  rw [hslot, Option.some.injEq] at hslot'
  exact refOf_injective hN caps hslot' ▸ hj

/-- Withdrawing a set and then a disjoint one is withdrawing their union. -/
theorem trans (h : Withdraws caps caps₁ A) (h' : Withdraws caps₁ caps₂ B) (hN : NODES ≤ 65536)
    (disjoint : Disjoint A B) : Withdraws caps caps₂ (A ∪ B) where
  revoked i hi := by
    rcases Finset.mem_union.mp hi with hA | hB
    · rw [h'.spared i (Finset.disjoint_left.mp disjoint hA), h.revoked i hA]
    · rw [h'.revoked i hB, h.spared i (Finset.disjoint_right.mp disjoint hB)]
  spared i hi := by
    rw [Finset.mem_union, not_or] at hi
    rw [h'.spared i hi.2, h.spared i hi.1]
  emptied p i hi hslot := by
    rcases Finset.mem_union.mp hi with hA | hB
    · have hnone := h.emptied p i hA hslot
      rw [h'.kept p fun j _ => by rw [hnone]; exact nofun, hnone]
    · exact h'.emptied p i hB (h.kept_of_spared hN hslot (Finset.disjoint_right.mp disjoint hB))
  kept p hp := by
    have hfirst := h.kept p fun i hi => hp i (Finset.mem_union_left _ hi)
    rw [h'.kept p fun i hi => ?_, hfirst]
    rw [hfirst, h.refOf_eq (Finset.disjoint_right.mp disjoint hi)]
    exact hp i (Finset.mem_union_right _ hi)

end Withdraws

/-! ## Two subtrees -/

section Subtrees

variable {caps caps₁ : CapabilitySystem TASKS SLOTS NODES} {a b : Fin NODES}

/-- Below a node of a subtree everything is in the subtree. -/
theorem subtree_subset (h : b ∈ caps.subtree a) : caps.subtree b ⊆ caps.subtree a := by
  intro i hi
  rw [mem_subtree] at hi h ⊢
  exact ⟨hi.1, hi.2.trans h.2⟩

/-- The parent of a node outside a subtree is outside it. -/
theorem parent_notMem_subtree {i j : Fin NODES} (hij : caps.derivedFrom i = some j)
    (hi : i ∉ caps.subtree a) : j ∉ caps.subtree a := by
  intro hj
  have live : (caps.nodeAt i).live := by
    by_contra dead
    simp [derivedFrom, dead] at hij
  exact hi (mem_subtree.mpr ⟨live, (mem_subtree.mp hj).2.head hij⟩)

theorem Withdraws.derivedFrom_eq (h : Withdraws caps caps₁ (caps.subtree a)) {i : Fin NODES}
    (hi : i ∉ caps.subtree a) : caps₁.derivedFrom i = caps.derivedFrom i := by
  rw [derivedFrom, h.spared i hi, derivedFrom]

/-- A chain of parents that starts outside a subtree does not change when the subtree is
withdrawn. -/
theorem Withdraws.chain_iff (h : Withdraws caps caps₁ (caps.subtree a)) {i : Fin NODES}
    (hi : i ∉ caps.subtree a) :
    ReflTransGen (Follows caps₁.derivedFrom) i b ↔ ReflTransGen (Follows caps.derivedFrom) i b := by
  constructor
  · intro hchain
    induction hchain using ReflTransGen.head_induction_on with
    | refl => exact .refl
    | head hstep _ ih =>
        have hstep' : caps.derivedFrom _ = some _ := (h.derivedFrom_eq hi).symm.trans hstep
        exact .head hstep' (ih (parent_notMem_subtree hstep' hi))
  · intro hchain
    induction hchain using ReflTransGen.head_induction_on with
    | refl => exact .refl
    | head hstep _ ih =>
        exact .head ((h.derivedFrom_eq hi).trans hstep) (ih (parent_notMem_subtree hstep hi))

/-- **What is left of a subtree** when another one has been withdrawn. -/
theorem Withdraws.subtree_eq (h : Withdraws caps caps₁ (caps.subtree a)) :
    caps₁.subtree b = caps.subtree b \ caps.subtree a := by
  ext i
  rw [Finset.mem_sdiff, mem_subtree, mem_subtree]
  by_cases hi : i ∈ caps.subtree a
  · have dead : ¬ (caps₁.nodeAt i).live := by
      rw [h.revoked i hi]
      exact nofun
    simp [dead, hi]
  · simp only [h.spared i hi, h.chain_iff hi, hi, not_false_eq_true, and_true]

end Subtrees

end CapabilitySystem

open CapabilitySystem

/-- **Revocation is complete and precise.**  From every reachable state, `revoke` on an
occupied slot returns the number of live nodes from which the slot's node is reached
along parents, and withdraws exactly those.  `is_descendant_or_self` decides
reachability in spite of its cut-off, and the loop over the node table gives the same
table and count in whatever order it visits the nodes. -/
theorem revoke_complete_and_precise (hN : NODES ≤ 65536)
    {caps : CapabilitySystem TASKS SLOTS NODES}
    (hreach : (capMachine TASKS SLOTS NODES).Reachable caps) {task : TaskId} {slot : ℕ}
    {cap : CapRef} (hcap : caps.capAt task slot = .ok cap) :
    ∃ root caps', cap = caps.refOf root ∧ (caps.nodeAt root).live ∧
      revoke task slot caps = some (.ok (caps.subtree root).card, caps') ∧
      Withdraws caps caps' (caps.subtree root) ∧
      (∀ i, (caps.nodeAt i).live → (isDescendantOrSelf caps.nodes i cap = true ↔
        ReflTransGen (Follows caps.derivedFrom) i root)) ∧
      ∀ order : List (Fin NODES), order.Perm (List.finRange NODES) →
        order.foldl (revokeNode cap) (caps.nodes, 0) =
          (caps'.nodes, (caps.subtree root).card) := by
  have tree := leaseTree_of_reachable hN hreach
  obtain ⟨p, root, hp, hslot, live, rfl⟩ := tree.of_capAt hcap
  obtain ⟨caps', hrevoke, hwithdraws⟩ := tree.revoke_withdraws hN hp live hslot
  exact ⟨root, caps', rfl, live, hrevoke, hwithdraws,
    fun i hi => isDescendantOrSelf_iff hN tree root hi,
    fun order horder => hwithdraws.any_order tree hN horder⟩

/-- The first root is revoked and a child of the second one takes its node, so that the
child stands before its parent in the table. -/
def childFirst : List CapOp :=
  [.createRoot 0 0 (.frame 1) Rights.ALL, .createRoot 0 1 (.frame 2) Rights.ALL, .revoke 0 0,
    .mint 0 1 1 0 Rights.READ]

/-- The run exists, and its last state is what evaluation says. -/
theorem exec_childFirst : ∃ es caps,
    (capMachine 2 2 3).exec CapabilitySystem.new childFirst = some (es, caps) ∧
      caps.capAt 0 1 = .ok ⟨1, 0⟩ ∧ caps.capAt 1 0 = .ok ⟨0, 1⟩ := by
  obtain ⟨es, caps, -, -, hexec, -⟩ :=
    (@capSimulation 2 2 3 (by decide)).exec (capSimulation (by decide)).init childFirst
  have hrun : ((capMachine 2 2 3).exec (capMachine 2 2 3).init childFirst).map (fun run =>
      (run.2.capAt 0 1, run.2.capAt 1 0)) = some (.ok ⟨1, 0⟩, .ok ⟨0, 1⟩) := by
    decide +kernel
  rw [hexec, Option.map_some, Option.some.injEq, Prod.mk.injEq] at hrun
  exact ⟨es, caps, hexec, hrun.1, hrun.2⟩

theorem revoke_complete_and_precise_childFirst :
    (3 : ℕ) ≤ 65536 ∧ ∃ es caps root caps',
      (capMachine 2 2 3).exec CapabilitySystem.new childFirst = some (es, caps) ∧
      caps.capAt 0 1 = .ok (caps.refOf root) ∧
      revoke 0 1 caps = some (.ok (caps.subtree root).card, caps') ∧
      Withdraws caps caps' (caps.subtree root) := by
  obtain ⟨es, caps, hexec, hcap, -⟩ := exec_childFirst
  obtain ⟨root, caps', heq, -, hrevoke, hwithdraws, -⟩ :=
    revoke_complete_and_precise (by decide) ⟨childFirst, es, hexec⟩ hcap
  exact ⟨by decide, es, caps, root, caps', hexec, heq ▸ hcap, hrevoke, hwithdraws⟩

/-! ## Two revocations -/

/-- The number of nodes that a revocation counts for: none if the slot was found
empty. -/
def Counts (result : Except CapError ℕ) (n : ℕ) : Prop :=
  result = .ok n ∨ result = .error .emptySlot ∧ n = 0

/-- A revocation of a slot that is empty. -/
theorem revoke_emptySlot {caps : CapabilitySystem TASKS SLOTS NODES} {task : TaskId} {slot : ℕ}
    {p : Position TASKS SLOTS} (hp : locate task slot = .ok p) (hslot : caps.slotAt p = none) :
    revoke task slot caps = some (.error .emptySlot, caps) := by
  refine Call.bind_error (Call.reads_error ?_)
  rw [capAt_eq, hp]
  simp only [hslot]

/-- **A second revocation** withdraws what is left of the second subtree. -/
theorem second_revoke (hN : NODES ≤ 65536) {caps caps₁ : CapabilitySystem TASKS SLOTS NODES}
    {a b : Fin NODES} (hfirst : Withdraws caps caps₁ (caps.subtree a)) (tree₁ : caps₁.LeaseTree)
    (live : (caps.nodeAt b).live) {task : TaskId} {slot : ℕ} {p : Position TASKS SLOTS}
    (hp : locate task slot = .ok p) (hslot : caps.slotAt p = some (caps.refOf b)) :
    ∃ result n final, revoke task slot caps₁ = some (result, final) ∧ Counts result n ∧
      Withdraws caps final (caps.subtree a ∪ caps.subtree b) ∧
      (caps.subtree a).card + n = (caps.subtree a ∪ caps.subtree b).card := by
  by_cases hb : b ∈ caps.subtree a
  · -- the first revocation has withdrawn the whole second subtree
    have hunion : caps.subtree a ∪ caps.subtree b = caps.subtree a :=
      Finset.union_eq_left.mpr (subtree_subset hb)
    refine ⟨_, 0, caps₁, revoke_emptySlot hp (hfirst.emptied p b hb hslot), .inr ⟨rfl, rfl⟩, ?_, ?_⟩
    · rw [hunion]
      exact hfirst
    · rw [hunion, Nat.add_zero]
  · have hslot₁ := hfirst.kept_of_spared hN hslot hb
    have live₁ : (caps₁.nodeAt b).live := by rwa [hfirst.spared b hb]
    obtain ⟨final, hrevoke, hsecond⟩ := tree₁.revoke_withdraws hN hp live₁ hslot₁
    rw [hfirst.subtree_eq] at hrevoke hsecond
    have disjoint : Disjoint (caps.subtree a) (caps.subtree b \ caps.subtree a) :=
      Finset.disjoint_sdiff
    refine ⟨_, _, final, hrevoke, .inl rfl, ?_, ?_⟩
    · rw [← Finset.union_sdiff_self_eq_union]
      exact hfirst.trans hsecond hN disjoint
    · rw [← Finset.union_sdiff_self_eq_union, Finset.card_union_of_disjoint disjoint]

theorem leaseTree_of_revoke (hN : NODES ≤ 65536)
    {caps caps' : CapabilitySystem TASKS SLOTS NODES}
    (hreach : (capMachine TASKS SLOTS NODES).Reachable caps) {task : TaskId} {slot n : ℕ}
    (h : revoke task slot caps = some (.ok n, caps')) : caps'.LeaseTree := by
  have hstep : (capMachine TASKS SLOTS NODES).step caps (.revoke task slot) =
      some (.ok (.revoked n), caps') := Call.map_some h
  exact leaseTree_of_reachable hN (hreach.step hstep)

/-- **The order of two revocations does not matter.**  From every reachable state,
revoking two occupied slots ends in the same state in both orders, and both orders
revoke the same number of nodes, where a second revocation that finds its slot empty
counts for none. -/
theorem revocation_order_irrelevant (hN : NODES ≤ 65536)
    {caps : CapabilitySystem TASKS SLOTS NODES}
    (hreach : (capMachine TASKS SLOTS NODES).Reachable caps) {task task' : TaskId}
    {slot slot' : ℕ} {cap cap' : CapRef} (hcap : caps.capAt task slot = .ok cap)
    (hcap' : caps.capAt task' slot' = .ok cap') :
    ∃ m n m' n' result result' caps₁ caps₂ final,
      revoke task slot caps = some (.ok m, caps₁) ∧
      revoke task' slot' caps₁ = some (result', final) ∧ Counts result' n' ∧
      revoke task' slot' caps = some (.ok m', caps₂) ∧
      revoke task slot caps₂ = some (result, final) ∧ Counts result n ∧
      m + n' = m' + n := by
  have tree := leaseTree_of_reachable hN hreach
  obtain ⟨p, a, hp, hslot, live, -⟩ := tree.of_capAt hcap
  obtain ⟨p', b, hp', hslot', live', -⟩ := tree.of_capAt hcap'
  obtain ⟨caps₁, hrevoke₁, hfirst₁⟩ := tree.revoke_withdraws hN hp live hslot
  obtain ⟨caps₂, hrevoke₂, hfirst₂⟩ := tree.revoke_withdraws hN hp' live' hslot'
  obtain ⟨result', n', final, hsecond₁, hcount₁, hboth₁, hsum₁⟩ :=
    second_revoke hN hfirst₁ (leaseTree_of_revoke hN hreach hrevoke₁) live' hp' hslot'
  obtain ⟨result, n, final', hsecond₂, hcount₂, hboth₂, hsum₂⟩ :=
    second_revoke hN hfirst₂ (leaseTree_of_revoke hN hreach hrevoke₂) live hp hslot
  rw [Finset.union_comm] at hboth₂ hsum₂
  obtain rfl := hboth₁.unique hboth₂
  exact ⟨_, n, _, n', result, result', caps₁, caps₂, final, hrevoke₁, hsecond₁, hcount₁,
    hrevoke₂, hsecond₂, hcount₂, hsum₁.trans hsum₂.symm⟩

/-- A parent and its child, revoked in both orders. -/
theorem revocation_order_irrelevant_nested :
    (3 : ℕ) ≤ 65536 ∧ ∃ es caps m n m' n' result result' caps₁ caps₂ final,
      (capMachine 2 2 3).exec CapabilitySystem.new childFirst = some (es, caps) ∧
      revoke 0 1 caps = some (.ok m, caps₁) ∧
      revoke 1 0 caps₁ = some (result', final) ∧ Counts result' n' ∧
      revoke 1 0 caps = some (.ok m', caps₂) ∧
      revoke 0 1 caps₂ = some (result, final) ∧ Counts result n ∧ m + n' = m' + n := by
  obtain ⟨es, caps, hexec, hcap, hcap'⟩ := exec_childFirst
  obtain ⟨m, n, m', n', result, result', caps₁, caps₂, final, h⟩ :=
    revocation_order_irrelevant (by decide) ⟨childFirst, es, hexec⟩ hcap hcap'
  exact ⟨by decide, es, caps, m, n, m', n', result, result', caps₁, caps₂, final, hexec, h⟩

end Aegis.Capability
