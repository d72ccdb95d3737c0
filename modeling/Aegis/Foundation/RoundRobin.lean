import Mathlib
import Aegis.Foundation.Machine

/-!
# Round robin

Searching a circle of `n` places from a starting place, and machines that serve their
clients by such searches, each beginning after the client served last.

Everything about the search is said in terms of `ahead n start t`, how far the place `t`
lies ahead of the start: the search finds what lies least far ahead.  Each client that is
served while `t` waits brings the start closer to `t` and never past it, which bounds the
turns `t` waits for and keeps everybody behind `t` from being served first.
-/

namespace Foundation

/-! ## Searching a circle -/

/-- The first of `start`, `start + 1`, … modulo `n` that satisfies `p`. -/
def cyclicFind (n start : ℕ) (p : ℕ → Bool) : Option ℕ :=
  ((List.range n).map fun offset => (start + offset) % n).find? p

/-- How far `t` lies ahead of `start` on a circle of `n` places. -/
def ahead (n start t : ℕ) : ℕ :=
  if start ≤ t then t - start else n - start + t

section Circle

variable {n start c t u : ℕ} {p : ℕ → Bool}

theorem ahead_lt (hs : start < n) (ht : t < n) : ahead n start t < n := by
  unfold ahead
  split <;> omega

theorem ahead_inj (hs : start < n) (ht : t < n) (hu : u < n)
    (h : ahead n start t = ahead n start u) : t = u := by
  unfold ahead at h
  split at h <;> split at h <;> omega

/-- Going once around at most, from a place on the circle. -/
theorem add_mod_place {offset : ℕ} (hs : start < n) (ho : offset ≤ n) :
    (start + offset) % n = if start + offset < n then start + offset else start + offset - n := by
  split
  · next h => exact Nat.mod_eq_of_lt h
  · next h => rw [Nat.mod_eq_sub_mod (by omega), Nat.mod_eq_of_lt (by omega)]

theorem ahead_add_mod {offset : ℕ} (hs : start < n) (ho : offset < n) :
    ahead n start ((start + offset) % n) = offset := by
  rw [add_mod_place hs ho.le, ahead]
  split <;> split <;> omega

theorem add_ahead_mod (hs : start < n) (ht : t < n) : (start + ahead n start t) % n = t := by
  rw [add_mod_place hs (ahead_lt hs ht).le, ahead]
  split <;> split <;> omega

/-- Just behind a place, that place is as far ahead as can be. -/
theorem ahead_succ_self (hu : u < n) (ht : t < n) (hne : t ≠ u) :
    ahead n ((u + 1) % n) t < ahead n ((u + 1) % n) u := by
  rw [add_mod_place hu (by omega), ahead, ahead]
  split <;> split <;> split <;> omega

/-- Moving the start past a nearer place brings every farther one closer by as much. -/
theorem ahead_succ (hs : start < n) (hc : c < n) (ht : t < n)
    (h : ahead n start c < ahead n start t) :
    ahead n ((c + 1) % n) t + (ahead n start c + 1) = ahead n start t := by
  rw [add_mod_place hc (by omega)]
  unfold ahead at *
  split at h <;> split at h <;> split <;> split <;> omega

theorem cyclicFind_eq_none (hs : 0 < n → start < n) :
    cyclicFind n start p = none ↔ ∀ c < n, p c = false := by
  rw [cyclicFind, List.find?_eq_none]
  constructor
  · intro h c hc
    have hs := hs (by omega)
    refine Bool.eq_false_iff.mpr (h c ?_)
    exact List.mem_map.mpr ⟨ahead n start c, List.mem_range.mpr (ahead_lt hs hc),
      add_ahead_mod hs hc⟩
  · intro h c hc
    obtain ⟨offset, hoffset, rfl⟩ := List.mem_map.mp hc
    rw [List.mem_range] at hoffset
    exact Bool.eq_false_iff.mp (h _ (Nat.mod_lt _ (by omega)))

/-- The search finds a place that satisfies `p`, and none that does lies less far
ahead. -/
theorem cyclicFind_eq_some (hs : 0 < n → start < n) (h : cyclicFind n start p = some c) :
    c < n ∧ p c = true ∧ ∀ d < n, p d = true → ahead n start c ≤ ahead n start d := by
  rw [cyclicFind, List.find?_eq_some_iff_getElem] at h
  obtain ⟨hp, offset, hoffset, hc, hfirst⟩ := h
  rw [List.length_map, List.length_range] at hoffset
  have hs := hs (by omega)
  rw [List.getElem_map, List.getElem_range] at hc
  subst hc
  refine ⟨Nat.mod_lt _ (by omega), hp, fun d hd hpd => ?_⟩
  rw [ahead_add_mod hs hoffset]
  by_contra hlt
  have hnot := hfirst (ahead n start d) (by omega)
  rw [List.getElem_map, List.getElem_range, add_ahead_mod hs hd, hpd] at hnot
  cases hnot

end Circle

/-! ## Serving in turn -/

variable {σ Op Res : Type*} {M : Machine σ Op Res}

/-- A machine that serves clients in turn.  Some of its operations are turns: they serve
the first client that is ready, searching from a start that lies just after the client
served last.  The others may change who is ready, as they like. -/
structure Arbiter (M : Machine σ Op Res) where
  clients : ℕ
  Valid : σ → Prop
  start : σ → ℕ
  ready : σ → ℕ → Bool
  isTurn : Op → Bool
  served : Res → Option ℕ
  start_lt : ∀ {s}, Valid s → 0 < clients → start s < clients
  valid_step : ∀ {s op r s'}, Valid s → M.step s op = some (r, s') → Valid s'
  turn : ∀ {s op r s'}, Valid s → M.step s op = some (r, s') → isTurn op = true →
    served r = cyclicFind clients (start s) (ready s) ∧
      ∀ c, served r = some c → start s' = (c + 1) % clients
  other : ∀ {s op r s'}, Valid s → M.step s op = some (r, s') → isTurn op = false →
    served r = none ∧ start s' = start s

namespace Arbiter

variable (A : Arbiter M) {s s' : σ} {t u : ℕ}

/-- How far a client is from being served. -/
def distance (s : σ) (t : ℕ) : ℕ := ahead A.clients (A.start s) t

/-- The clients served in a run. -/
def Serves (es : List (Event σ Op Res)) (t : ℕ) : Prop :=
  ∃ ev ∈ es, A.served ev.result = some t

variable {A}

/-- A turn serves somebody if anybody is ready, and nobody who is ready lies nearer. -/
theorem served_of_ready {op : Op} {r : Res} (valid : A.Valid s)
    (hstep : M.step s op = some (r, s')) (hturn : A.isTurn op = true) (ht : t < A.clients)
    (hready : A.ready s t = true) :
    ∃ c < A.clients, A.served r = some c ∧ A.start s' = (c + 1) % A.clients ∧
      A.distance s c ≤ A.distance s t := by
  obtain ⟨hserved, hstart⟩ := A.turn valid hstep hturn
  cases hfind : cyclicFind A.clients (A.start s) (A.ready s) with
  | none =>
      rw [cyclicFind_eq_none (A.start_lt valid)] at hfind
      rw [hfind t ht] at hready
      cases hready
  | some c =>
      obtain ⟨hc, -, hnearest⟩ := cyclicFind_eq_some (A.start_lt valid) hfind
      rw [hfind] at hserved
      exact ⟨c, hc, hserved, hstart c hserved, hnearest t ht hready⟩

/-- A turn that serves somebody else brings a client that is ready closer, and everybody
farther away by as much. -/
theorem closer {op : Op} {r : Res} (valid : A.Valid s) (hstep : M.step s op = some (r, s'))
    (hturn : A.isTurn op = true) (ht : t < A.clients) (hready : A.ready s t = true)
    (hother : A.served r ≠ some t) :
    ∃ c, A.served r = some c ∧ A.distance s c < A.distance s t ∧
      ∀ u < A.clients, A.distance s t ≤ A.distance s u →
        A.distance s' u + (A.distance s c + 1) = A.distance s u := by
  obtain ⟨c, hc, hserved, hstart, hle⟩ := served_of_ready valid hstep hturn ht hready
  have hs := A.start_lt valid (by omega)
  have hlt : A.distance s c < A.distance s t := by
    refine lt_of_le_of_ne hle fun heq => hother ?_
    rw [hserved, ahead_inj hs hc ht heq]
  refine ⟨c, hserved, hlt, fun u hu htu => ?_⟩
  rw [distance, hstart]
  exact ahead_succ hs hc hu (lt_of_lt_of_le hlt htu)

/-- A step that does not serve `t`, while `t` is ready, leaves `t` at most as far away, and
closer if it is a turn. -/
theorem step_distance {op : Op} {r : Res} (valid : A.Valid s)
    (hstep : M.step s op = some (r, s')) (ht : t < A.clients) (hready : A.ready s t = true)
    (hother : A.served r ≠ some t) :
    A.distance s' t + (if A.isTurn op then 1 else 0) ≤ A.distance s t := by
  cases hturn : A.isTurn op with
  | false =>
      rw [distance, (A.other valid hstep hturn).2, distance]
      simp
  | true =>
      obtain ⟨c, -, -, hmove⟩ := closer valid hstep hturn ht hready hother
      have := hmove t ht le_rfl
      simp only [if_true]
      omega

/-- A step that does not serve `t`, while `t` is ready, does not serve anybody behind
`t`. -/
theorem step_order {op : Op} {r : Res} (valid : A.Valid s) (hstep : M.step s op = some (r, s'))
    (ht : t < A.clients) (hu : u < A.clients) (hready : A.ready s t = true)
    (hother : A.served r ≠ some t) (hbehind : A.distance s t < A.distance s u) :
    A.served r ≠ some u ∧ A.distance s' t < A.distance s' u := by
  cases hturn : A.isTurn op with
  | false =>
      obtain ⟨hserved, hstart⟩ := A.other valid hstep hturn
      refine ⟨by rw [hserved]; nofun, ?_⟩
      rw [distance, distance, hstart]
      exact hbehind
  | true =>
      obtain ⟨c, hserved, hlt, hmove⟩ := closer valid hstep hturn ht hready hother
      have ht' := hmove t ht le_rfl
      have hu' := hmove u hu hbehind.le
      refine ⟨?_, by omega⟩
      rw [hserved]
      rintro ⟨⟩
      omega

/-- **Waiting is bounded.**  Over a run in which `t` is ready and not served, every turn
brings it closer. -/
theorem turns_le_distance (ht : t < A.clients) {ops : List Op} {es : List (Event σ Op Res)}
    (valid : A.Valid s) (run : M.exec s ops = some (es, s'))
    (hready : ∀ ev ∈ es, A.ready ev.before t = true) (hwaits : ¬ A.Serves es t) :
    A.distance s' t + es.countP (fun ev => A.isTurn ev.op) ≤ A.distance s t := by
  induction ops generalizing s es with
  | nil =>
      cases run
      simp
  | cons op ops ih =>
      obtain ⟨r, s₁, fs, hstep, hrest, rfl⟩ := Machine.exec_cons_inv run
      rw [List.forall_mem_cons] at hready
      have hother : A.served r ≠ some t := fun h => hwaits ⟨_, List.mem_cons_self, h⟩
      have hfirst := step_distance valid hstep ht hready.1 hother
      have hlater := ih (A.valid_step valid hstep) hrest hready.2 fun ⟨ev, hev, h⟩ =>
        hwaits ⟨ev, List.mem_cons_of_mem _ hev, h⟩
      rw [List.countP_cons]
      show _ + (_ + if A.isTurn op = true then 1 else 0) ≤ _
      omega

/-- **Nobody overtakes.**  Over a run in which `t` is ready and not served, nobody who was
behind `t` is served. -/
theorem not_serves_behind (ht : t < A.clients) (hu : u < A.clients) {ops : List Op}
    {es : List (Event σ Op Res)} (valid : A.Valid s) (run : M.exec s ops = some (es, s'))
    (hready : ∀ ev ∈ es, A.ready ev.before t = true) (hwaits : ¬ A.Serves es t)
    (hbehind : A.distance s t < A.distance s u) : ¬ A.Serves es u := by
  induction ops generalizing s es with
  | nil =>
      cases run
      rintro ⟨ev, hev, -⟩
      cases hev
  | cons op ops ih =>
      obtain ⟨r, s₁, fs, hstep, hrest, rfl⟩ := Machine.exec_cons_inv run
      rw [List.forall_mem_cons] at hready
      have hother : A.served r ≠ some t := fun h => hwaits ⟨_, List.mem_cons_self, h⟩
      obtain ⟨hfirst, hbehind'⟩ := step_order valid hstep ht hu hready.1 hother hbehind
      have hlater := ih (A.valid_step valid hstep) hrest hready.2
        (fun ⟨ev, hev, h⟩ => hwaits ⟨ev, List.mem_cons_of_mem _ hev, h⟩) hbehind'
      rintro ⟨ev, hev, h⟩
      rcases List.mem_cons.mp hev with rfl | hev
      · exact hfirst h
      · exact hlater ⟨ev, hev, h⟩

/-- A client that is ready is served within as many turns as there are clients. -/
theorem serves_of_turns (ht : t < A.clients) {ops : List Op} {es : List (Event σ Op Res)}
    (valid : A.Valid s) (run : M.exec s ops = some (es, s'))
    (hready : ∀ ev ∈ es, A.ready ev.before t = true)
    (hturns : A.clients ≤ es.countP fun ev => A.isTurn ev.op) : A.Serves es t := by
  by_contra hwaits
  have hbound := turns_le_distance ht valid run hready hwaits
  have hlt : A.distance s t < A.clients := ahead_lt (A.start_lt valid (by omega)) ht
  omega

/-- Between two services of `u`, every other client that is ready is served. -/
theorem serves_between {op : Op} {r : Res} {s₀ : σ} {ops : List Op}
    {es : List (Event σ Op Res)} (ht : t < A.clients) (hu : u < A.clients) (hne : t ≠ u)
    (valid : A.Valid s₀) (hfirst : M.step s₀ op = some (r, s)) (hserved : A.served r = some u)
    (run : M.exec s ops = some (es, s')) (hready : ∀ ev ∈ es, A.ready ev.before t = true)
    (hagain : A.Serves es u) : A.Serves es t := by
  by_contra hwaits
  refine not_serves_behind ht hu (A.valid_step valid hfirst) run hready hwaits ?_ hagain
  cases hturn : A.isTurn op with
  | false =>
      rw [(A.other valid hfirst hturn).1] at hserved
      cases hserved
  | true =>
      rw [distance, distance, (A.turn valid hfirst hturn).2 u hserved]
      exact ahead_succ_self hu ht hne

end Arbiter

end Foundation
