import Mathlib
import Aegis.Foundation.RoundRobin
import Aegis.Foundation.Tenure

/-!
# Shares of a round robin

What a client that is always ready gets, compared with any other.  The other one may be
one service ahead, if it comes first; it comes first again only when the client has been
served.  So the lead never grows (`step_lead`), nobody gets more than one service more
(`services_le`), and the client gets its share of all turns (`share_le`).
-/

namespace Foundation

namespace Arbiter

variable {σ Op Res : Type*} {M : Machine σ Op Res} (A : Arbiter M)

/-- The number of times that a client is served. -/
def services (es : List (Event σ Op Res)) (t : ℕ) : ℕ :=
  es.countP fun ev => A.served ev.result = some t

/-- 1 if `u` comes before `t`. -/
def lead (s : σ) (t u : ℕ) : ℕ := if A.distance s u < A.distance s t then 1 else 0

variable {A} {s s' : σ} {t u : ℕ} {op : Op} {r : Res}

theorem lead_le_one : A.lead s t u ≤ 1 := by
  unfold lead
  split <;> omega

theorem services_cons (ev : Event σ Op Res) (es : List (Event σ Op Res)) (t : ℕ) :
    A.services (ev :: es) t =
      A.services es t + if A.served ev.result = some t then 1 else 0 := by
  rw [services, List.countP_cons, services]
  simp only [decide_eq_true_eq]

/-- After a turn that serves `c`, the order of two clients farther away is what it was. -/
theorem lead_eq {c : ℕ} (valid : A.Valid s) (hc : c < A.clients) (ht : t < A.clients)
    (hu : u < A.clients) (hstart : A.start s' = (c + 1) % A.clients)
    (hct : A.distance s c < A.distance s t) (hcu : A.distance s c < A.distance s u) :
    A.lead s' t u = A.lead s t u := by
  have hs := A.start_lt valid (Nat.zero_lt_of_lt hc)
  have ht' : A.distance s' t + (A.distance s c + 1) = A.distance s t := by
    rw [distance, hstart]
    exact ahead_succ hs hc ht hct
  have hu' : A.distance s' u + (A.distance s c + 1) = A.distance s u := by
    rw [distance, hstart]
    exact ahead_succ hs hc hu hcu
  unfold lead
  congr 1
  rw [eq_iff_iff]
  omega

/-- After `c` has been served, nobody is farther away. -/
theorem lead_served {c : ℕ} (hc : c < A.clients) (ht : t < A.clients) (hne : t ≠ c)
    (hstart : A.start s' = (c + 1) % A.clients) : A.lead s' t c = 0 := by
  have hlast := ahead_succ_self hc ht hne
  unfold lead distance
  rw [hstart, if_neg (by omega)]

/-- **One step.**  While `t` is ready, a service of `u` uses up its lead, and only a service
of `t` gives it back. -/
theorem step_lead (valid : A.Valid s) (hstep : M.step s op = some (r, s')) (ht : t < A.clients)
    (hu : u < A.clients) (hne : t ≠ u) (hready : A.ready s t = true) :
    (if A.served r = some u then 1 else 0) + A.lead s' t u ≤
      (if A.served r = some t then 1 else 0) + A.lead s t u := by
  cases hturn : A.isTurn op with
  | false =>
      obtain ⟨hserved, hstart⟩ := A.other valid hstep hturn
      rw [hserved, if_neg (Option.some_ne_none u).symm, if_neg (Option.some_ne_none t).symm]
      unfold lead distance
      rw [hstart]
  | true =>
      obtain ⟨c, hc, hserved, hstart, hle⟩ := served_of_ready valid hstep hturn ht hready
      rw [hserved]
      have hs := A.start_lt valid (Nat.zero_lt_of_lt hc)
      rcases eq_or_ne c t with rfl | hct
      · rw [if_neg (fun h => hne (Option.some.inj h)), if_pos rfl]
        have hone : A.lead s' c u ≤ 1 := lead_le_one
        omega
      · have hlt : A.distance s c < A.distance s t :=
          lt_of_le_of_ne hle fun heq => hct (ahead_inj hs hc ht heq)
        rw [if_neg (fun h => hct (Option.some.inj h))]
        rcases eq_or_ne c u with rfl | hcu
        · -- `u` is served, so it came first, and now comes last
          rw [if_pos rfl, lead_served hc ht hne hstart, lead, if_pos hlt]
        · rw [if_neg (fun h => hcu (Option.some.inj h))]
          rcases lt_or_ge (A.distance s c) (A.distance s u) with hfar | hnear
          · rw [lead_eq valid hc ht hu hstart hlt hfar]
          · -- `u` was not ready, and loses its place
            have hfirst : A.lead s t u = 1 := if_pos (by omega)
            have hone : A.lead s' t u ≤ 1 := lead_le_one
            omega

/-- **Nobody gets more than one service more** than a client that is ready. -/
theorem services_le (ht : t < A.clients) (hu : u < A.clients) (hne : t ≠ u) {ops : List Op}
    {es : List (Event σ Op Res)} (valid : A.Valid s) (run : M.exec s ops = some (es, s'))
    (hready : ∀ ev ∈ es, A.ready ev.before t = true) :
    A.services es u + A.lead s' t u ≤ A.services es t + A.lead s t u := by
  induction ops generalizing s es with
  | nil =>
      cases run
      exact le_rfl
  | cons op ops ih =>
      obtain ⟨r, s₁, fs, hstep, hrest, rfl⟩ := Machine.exec_cons_inv run
      rw [List.forall_mem_cons] at hready
      have hfirst := step_lead valid hstep ht hu hne hready.1
      have hlater := ih (A.valid_step valid hstep) hrest hready.2
      rw [services_cons, services_cons]
      show _ + (if A.served r = some u then 1 else 0) + _ ≤
        _ + (if A.served r = some t then 1 else 0) + _
      omega

/-- While `t` is ready, every turn serves one of the clients. -/
theorem turns_serve (ht : t < A.clients) {ops : List Op} {es : List (Event σ Op Res)}
    (valid : A.Valid s) (run : M.exec s ops = some (es, s'))
    (hready : ∀ ev ∈ es, A.ready ev.before t = true) :
    es.countP (fun ev => A.isTurn ev.op) = es.countP (fun ev => (A.served ev.result).isSome) ∧
      ∀ ev ∈ es, ∀ c, A.served ev.result = some c → c ∈ Finset.range A.clients := by
  induction ops generalizing s es with
  | nil =>
      cases run
      exact ⟨rfl, fun ev hev => absurd hev List.not_mem_nil⟩
  | cons op ops ih =>
      obtain ⟨r, s₁, fs, hstep, hrest, rfl⟩ := Machine.exec_cons_inv run
      rw [List.forall_mem_cons] at hready ⊢
      obtain ⟨hcount, hrange⟩ := ih (A.valid_step valid hstep) hrest hready.2
      rw [List.countP_cons, List.countP_cons, hcount]
      cases hturn : A.isTurn op with
      | false =>
          have hnone := (A.other valid hstep hturn).1
          refine ⟨by simp [hnone], fun c hc => ?_, hrange⟩
          exact absurd (hnone.symm.trans hc) (Option.some_ne_none c).symm
      | true =>
          obtain ⟨d, hd, hserved, -, -⟩ := served_of_ready valid hstep hturn ht hready.1
          refine ⟨by simp [hserved], fun c hc => ?_, hrange⟩
          obtain rfl := Option.some.inj (hserved.symm.trans hc)
          exact Finset.mem_range.mpr hd

/-- **A client that is ready gets its share** of the turns. -/
theorem share_le (ht : t < A.clients) {ops : List Op} {es : List (Event σ Op Res)}
    (valid : A.Valid s) (run : M.exec s ops = some (es, s'))
    (hready : ∀ ev ∈ es, A.ready ev.before t = true) :
    es.countP (fun ev => A.isTurn ev.op) / A.clients ≤ A.services es t := by
  obtain ⟨hturns, hrange⟩ := turns_serve ht valid run hready
  have hothers : ∀ u ∈ (Finset.range A.clients).erase t, A.services es u ≤ A.services es t + 1 := by
    intro u hu
    rw [Finset.mem_erase, Finset.mem_range] at hu
    have hle := services_le ht hu.2 hu.1.symm valid run hready
    have hone : A.lead s t u ≤ 1 := lead_le_one
    omega
  have hsum : ∑ u ∈ (Finset.range A.clients).erase t, A.services es u ≤
      (A.clients - 1) * (A.services es t + 1) := by
    have hle := Finset.sum_le_card_nsmul _ _ _ hothers
    rwa [Finset.card_erase_of_mem (Finset.mem_range.mpr ht), Finset.card_range,
      smul_eq_mul] at hle
  have htotal : es.countP (fun ev => A.isTurn ev.op) =
      ∑ u ∈ (Finset.range A.clients).erase t, A.services es u + A.services es t := by
    rw [hturns, ← sum_countP_eq_some hrange, Finset.sum_erase_add _ _ (Finset.mem_range.mpr ht)]
    rfl
  refine Nat.lt_succ_iff.mp ((Nat.div_lt_iff_lt_mul (Nat.zero_lt_of_lt ht)).mpr ?_)
  calc es.countP (fun ev => A.isTurn ev.op)
      < (A.clients - 1) * (A.services es t + 1) + (A.services es t + 1) := by omega
    _ = (A.services es t + 1) * A.clients := by
        rw [← Nat.succ_mul, Nat.succ_eq_add_one, Nat.sub_add_cancel (Nat.zero_lt_of_lt ht),
          Nat.mul_comm]

end Arbiter

end Foundation
