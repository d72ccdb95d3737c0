import Mathlib
import Aegis.Foundation.Machine

/-!
# Tenure

A resource passes from holder to holder in turns.  A turn grants it to the next holder, and
at the turn after that, when the tenure is over, the holder is charged for it or is let off.
Charges therefore lag behind grants: of all that somebody has been granted, the current
tenure has not been charged yet, and the earlier ones have been charged once or not at all.
-/

namespace Foundation

/-- Counting by name: if everything that has a name is called one of `names`, the counts of
the names add up. -/
theorem sum_countP_eq_some {α ι : Type*} [DecidableEq ι] {name : α → Option ι}
    {names : Finset ι} {l : List α} (h : ∀ a ∈ l, ∀ i, name a = some i → i ∈ names) :
    ∑ i ∈ names, l.countP (fun a => name a = some i) = l.countP fun a => (name a).isSome := by
  induction l with
  | nil => exact Finset.sum_const_zero
  | cons a l ih =>
      rw [List.forall_mem_cons] at h
      simp only [List.countP_cons, Finset.sum_add_distrib, ih h.2, decide_eq_true_eq]
      congr 1
      cases hname : name a with
      | none => simp
      | some i => simp [h.1 i hname]

variable {σ Op Res ι : Type*}

/-- Who holds the resource, and whom an event charges for it and grants it to. -/
structure Tenure (σ Op Res ι : Type*) where
  holder : σ → Option ι
  charged : Event σ Op Res → Option ι
  granted : Event σ Op Res → Option ι

namespace Tenure

variable (T : Tenure σ Op Res ι)

/-- The event leaves the resource where it is. -/
structure Kept (ev : Event σ Op Res) : Prop where
  charged : T.charged ev = none
  granted : T.granted ev = none
  holder : T.holder ev.after = T.holder ev.before

/-- The event is a turn: it charges nobody but the holder, and whoever it grants the
resource to is the next holder. -/
structure Turn (ev : Event σ Op Res) : Prop where
  charged : ∀ i, T.charged ev = some i → T.holder ev.before = some i
  granted : T.holder ev.after = T.granted ev

variable [DecidableEq ι]

def charges (i : ι) (es : List (Event σ Op Res)) : ℕ :=
  es.countP fun ev => T.charged ev = some i

def grants (i : ι) (es : List (Event σ Op Res)) : ℕ :=
  es.countP fun ev => T.granted ev = some i

/-- The tenure that has not ended: one of the holder's, none of anybody else's. -/
def pending (i : ι) (s : σ) : ℕ :=
  if T.holder s = some i then 1 else 0

/-- Nobody has been charged for more than the tenures that have ended. -/
def Bounded (es : List (Event σ Op Res)) (s : σ) : Prop :=
  ∀ i, T.charges i es + T.pending i s ≤ T.grants i es

/-- Everybody has been charged for every tenure that has ended. -/
def Exact (es : List (Event σ Op Res)) (s : σ) : Prop :=
  ∀ i, T.charges i es + T.pending i s = T.grants i es

variable {T} {es : List (Event σ Op Res)} {ev : Event σ Op Res} {i : ι} {s : σ}

theorem exact_nil (h : T.holder s = none) : T.Exact [] s := by
  intro i
  rw [pending, h]
  rfl

theorem Exact.bounded (h : T.Exact es s) : T.Bounded es s :=
  fun i => (h i).le

theorem pending_of_holder (h : T.holder s = some i) : T.pending i s = 1 :=
  if_pos h

theorem pending_of_ne (h : T.holder s ≠ some i) : T.pending i s = 0 :=
  if_neg h

theorem charges_snoc : T.charges i (es ++ [ev]) =
    T.charges i es + if T.charged ev = some i then 1 else 0 := by
  simp [charges, List.countP_append, List.countP_singleton]

theorem grants_snoc : T.grants i (es ++ [ev]) =
    T.grants i es + if T.granted ev = some i then 1 else 0 := by
  simp [grants, List.countP_append, List.countP_singleton]

theorem Kept.charges_snoc (h : T.Kept ev) : T.charges i (es ++ [ev]) = T.charges i es := by
  rw [Tenure.charges_snoc, h.charged]
  rfl

theorem Kept.grants_snoc (h : T.Kept ev) : T.grants i (es ++ [ev]) = T.grants i es := by
  rw [Tenure.grants_snoc, h.granted]
  rfl

theorem Kept.pending_eq (h : T.Kept ev) : T.pending i ev.after = T.pending i ev.before := by
  rw [pending, pending, h.holder]

/-- With a turn the next tenure is pending, and it is granted. -/
theorem Turn.grants_snoc (h : T.Turn ev) :
    T.grants i (es ++ [ev]) = T.grants i es + T.pending i ev.after := by
  rw [Tenure.grants_snoc, pending, h.granted]

/-- A turn charges at most the tenure that it ends. -/
theorem Turn.charges_le (h : T.Turn ev) :
    T.charges i (es ++ [ev]) ≤ T.charges i es + T.pending i ev.before := by
  rw [charges_snoc]
  by_cases hcharged : T.charged ev = some i
  · rw [if_pos hcharged, pending_of_holder (h.charged i hcharged)]
  · rw [if_neg hcharged]
    exact Nat.add_le_add_left (Nat.zero_le _) _

theorem Bounded.kept (hes : T.Bounded es ev.before) (h : T.Kept ev) :
    T.Bounded (es ++ [ev]) ev.after := by
  intro i
  rw [h.charges_snoc, h.pending_eq, h.grants_snoc]
  exact hes i

theorem Bounded.turn (hes : T.Bounded es ev.before) (h : T.Turn ev) :
    T.Bounded (es ++ [ev]) ev.after := by
  intro i
  rw [h.grants_snoc]
  exact Nat.add_le_add_right (h.charges_le.trans (hes i)) _

theorem Exact.kept (hes : T.Exact es ev.before) (h : T.Kept ev) :
    T.Exact (es ++ [ev]) ev.after := by
  intro i
  rw [h.charges_snoc, h.pending_eq, h.grants_snoc]
  exact hes i

/-- A turn that does charge the holder leaves nothing open. -/
theorem Exact.turn (hes : T.Exact es ev.before) (h : T.Turn ev)
    (hpaid : T.charged ev = T.holder ev.before) : T.Exact (es ++ [ev]) ev.after := by
  intro i
  have hcharges : T.charges i (es ++ [ev]) = T.charges i es + T.pending i ev.before := by
    rw [charges_snoc, hpaid, pending]
  rw [h.grants_snoc, hcharges, hes i]

end Tenure

end Foundation
