import Mathlib
import Aegis.Foundation.Forest
import Aegis.Capability.LeaseTree

/-!
# The lease forest

What the capability system is for, without nodes, indices or generations: a
forest over the slots, whose entries carry an object and rights and remember the
slot they were minted from.  `specStep` gives the four operations on it, with the
errors in the order in which they are checked, and `forestMachine` runs them.

`Transition` says once what a step of the forest can do.  Every property of runs
is proved by cases on it, and never unfolds `specStep`.
-/

namespace Aegis.Capability

open Foundation

/-- The abstract state: a partial map from slots to an object, rights and the
optional slot the entry was minted from. -/
abbrev LeaseForest (TASKS SLOTS : ℕ) := Forest (Position TASKS SLOTS) ResolvedCapability

namespace LeaseForest

variable {TASKS SLOTS : ℕ}

/-- The occupied slot an operation names. -/
def entryAt (f : LeaseForest TASKS SLOTS) (task : TaskId) (slot : ℕ) :
    Except CapError
      (Position TASKS SLOTS × Forest.Entry (Position TASKS SLOTS) ResolvedCapability) :=
  match locate task slot with
  | .error e => .error e
  | .ok p =>
      match f.entry p with
      | none => .error .emptySlot
      | some entry => .ok (p, entry)

/-- The free slot an operation names. -/
def vacancyAt (f : LeaseForest TASKS SLOTS) (task : TaskId) (slot : ℕ) :
    Except CapError (Position TASKS SLOTS) :=
  match locate task slot with
  | .error e => .error e
  | .ok p => if (f.entry p).isSome then .error .destinationOccupied else .ok p

theorem entryAt_eq_ok {f : LeaseForest TASKS SLOTS} {task : TaskId} {slot : ℕ}
    {p : Position TASKS SLOTS}
    {entry : Forest.Entry (Position TASKS SLOTS) ResolvedCapability}
    (h : f.entryAt task slot = .ok (p, entry)) :
    locate task slot = .ok p ∧ f.entry p = some entry := by
  unfold entryAt at h
  cases hp : (locate task slot : Except CapError (Position TASKS SLOTS)) with
  | error e => simp [hp] at h
  | ok q =>
      rw [hp] at h
      cases hentry : f.entry q with
      | none => simp [hentry] at h
      | some entry' =>
          simp only [hentry, Except.ok.injEq, Prod.mk.injEq] at h
          obtain ⟨rfl, rfl⟩ := h
          exact ⟨rfl, hentry⟩

theorem vacancyAt_eq_ok {f : LeaseForest TASKS SLOTS} {task : TaskId} {slot : ℕ}
    {p : Position TASKS SLOTS} (h : f.vacancyAt task slot = .ok p) :
    locate task slot = .ok p ∧ f.entry p = none := by
  unfold vacancyAt at h
  cases hp : (locate task slot : Except CapError (Position TASKS SLOTS)) with
  | error e => simp [hp] at h
  | ok q =>
      rw [hp] at h
      cases hentry : f.entry q with
      | none =>
          simp only [hentry, Option.isSome_none, Bool.false_eq_true, if_false,
            Except.ok.injEq] at h
          obtain rfl := h
          exact ⟨rfl, hentry⟩
      | some entry => simp [hentry] at h

/-- Add an entry, unless all `NODES` nodes are in use. -/
noncomputable def add (NODES : ℕ) (f : LeaseForest TASKS SLOTS)
    (p : Position TASKS SLOTS) (value : ResolvedCapability)
    (parent : Option (Position TASKS SLOTS)) : CapResult × LeaseForest TASKS SLOTS :=
  if f.occupied.card = NODES then (.error .outOfNodes, f)
  else (.ok .unit, f.insert p ⟨value, parent⟩)

/-- The four operations on the abstract state. -/
noncomputable def specStep (NODES : ℕ) (f : LeaseForest TASKS SLOTS) :
    CapOp → CapResult × LeaseForest TASKS SLOTS
  | .createRoot owner slot object rights =>
      match f.vacancyAt owner slot with
      | .error e => (.error e, f)
      | .ok p => f.add NODES p ⟨object, rights⟩ none
  | .mint sourceTask sourceSlot destinationTask destinationSlot rights =>
      match f.vacancyAt destinationTask destinationSlot with
      | .error e => (.error e, f)
      | .ok p =>
          match f.entryAt sourceTask sourceSlot with
          | .error e => (.error e, f)
          | .ok (q, source) =>
              if source.value.rights.contains Rights.GRANT &&
                  source.value.rights.contains rights then
                f.add NODES p ⟨source.value.object, rights⟩ (some q)
              else (.error .permissionDenied, f)
  | .resolve task slot required =>
      match f.entryAt task slot with
      | .error e => (.error e, f)
      | .ok (_, entry) =>
          if entry.value.rights.contains required then (.ok (.resolved entry.value), f)
          else (.error .permissionDenied, f)
  | .revoke task slot =>
      match f.entryAt task slot with
      | .error e => (.error e, f)
      | .ok (p, _) => (.ok (.revoked (f.subtree p).card), f.prune p)

/-- `resolve` only reads. -/
theorem specStep_resolve (NODES : ℕ) (f : LeaseForest TASKS SLOTS) (task : TaskId)
    (slot : ℕ) (required : Rights) :
    (f.specStep NODES (.resolve task slot required)).2 = f := by
  simp only [specStep]
  split
  · rfl
  · split
    · rfl
    · rfl

/-- **What a step can do**: be refused without effect (never because of a stale
reference), read an entry, add a root, add an attenuated child of an entry that
carries `GRANT`, or prune a subtree. -/
inductive Transition (f : LeaseForest TASKS SLOTS) :
    CapOp → CapResult → LeaseForest TASKS SLOTS → Prop
  | rejected {op : CapOp} {e : CapError} (fresh : e ≠ .stale) :
      Transition f op (.error e) f
  | resolved {task slot : ℕ} {required : Rights} {p entry} (hp : locate task slot = .ok p)
      (hentry : f.entry p = some entry) (allowed : entry.value.rights.contains required) :
      Transition f (.resolve task slot required) (.ok (.resolved entry.value)) f
  | created {owner slot : ℕ} {object : Object} {rights : Rights} {p}
      (hp : locate owner slot = .ok p) (free : f.entry p = none) :
      Transition f (.createRoot owner slot object rights) (.ok .unit)
        (f.insert p ⟨⟨object, rights⟩, none⟩)
  | minted {sourceTask sourceSlot destinationTask destinationSlot : ℕ} {rights : Rights}
      {p q source} (hp : locate destinationTask destinationSlot = .ok p)
      (free : f.entry p = none) (hq : locate sourceTask sourceSlot = .ok q)
      (hsource : f.entry q = some source)
      (granted : source.value.rights.contains Rights.GRANT)
      (attenuated : source.value.rights.contains rights) :
      Transition f (.mint sourceTask sourceSlot destinationTask destinationSlot rights)
        (.ok .unit) (f.insert p ⟨⟨source.value.object, rights⟩, some q⟩)
  | pruned {task slot : ℕ} {p entry} (hp : locate task slot = .ok p)
      (hentry : f.entry p = some entry) :
      Transition f (.revoke task slot) (.ok (.revoked (f.subtree p).card)) (f.prune p)

/-- No operation fails with a stale reference. -/
theorem Transition.ne_stale {f f' : LeaseForest TASKS SLOTS} {op : CapOp} {r : CapResult}
    (h : f.Transition op r f') : r ≠ .error .stale := by
  cases h with
  | rejected fresh =>
      intro hstale
      exact fresh (Except.error.inj hstale)
  | resolved => exact nofun
  | created => exact nofun
  | minted => exact nofun
  | pruned => exact nofun

theorem locate_ne_stale {task : TaskId} {slot : ℕ} {e : CapError}
    (h : (locate task slot : Except CapError (Position TASKS SLOTS)) = .error e) :
    e ≠ .stale := by
  unfold locate at h
  split at h
  · split at h
    · cases h
    · cases h
      exact nofun
  · cases h
    exact nofun

theorem entryAt_ne_stale {f : LeaseForest TASKS SLOTS} {task : TaskId} {slot : ℕ}
    {e : CapError} (h : f.entryAt task slot = .error e) : e ≠ .stale := by
  unfold entryAt at h
  split at h
  · next hloc =>
      cases h
      exact locate_ne_stale hloc
  · split at h
    · cases h
      exact nofun
    · cases h

theorem vacancyAt_ne_stale {f : LeaseForest TASKS SLOTS} {task : TaskId} {slot : ℕ}
    {e : CapError} (h : f.vacancyAt task slot = .error e) : e ≠ .stale := by
  unfold vacancyAt at h
  split at h
  · next hloc =>
      cases h
      exact locate_ne_stale hloc
  · split at h
    · cases h
      exact nofun
    · cases h

theorem specStep_transition (NODES : ℕ) (f : LeaseForest TASKS SLOTS) (op : CapOp) :
    f.Transition op (f.specStep NODES op).1 (f.specStep NODES op).2 := by
  cases op with
  | createRoot owner slot object rights =>
      simp only [specStep]
      cases hv : f.vacancyAt owner slot with
      | error e => exact .rejected (vacancyAt_ne_stale hv)
      | ok p =>
          obtain ⟨hp, free⟩ := vacancyAt_eq_ok hv
          dsimp only [add]
          split
          · exact .rejected nofun
          · exact .created hp free
  | mint sourceTask sourceSlot destinationTask destinationSlot rights =>
      simp only [specStep]
      cases hv : f.vacancyAt destinationTask destinationSlot with
      | error e => exact .rejected (vacancyAt_ne_stale hv)
      | ok p =>
          obtain ⟨hp, free⟩ := vacancyAt_eq_ok hv
          cases hs : f.entryAt sourceTask sourceSlot with
          | error e => exact .rejected (entryAt_ne_stale hs)
          | ok found =>
              obtain ⟨hq, hsource⟩ := entryAt_eq_ok hs
              dsimp only [add]
              split
              · next hallowed =>
                  rw [Bool.and_eq_true] at hallowed
                  split
                  · exact .rejected nofun
                  · exact .minted hp free hq hsource hallowed.1 hallowed.2
              · exact .rejected nofun
  | resolve task slot required =>
      simp only [specStep]
      cases hs : f.entryAt task slot with
      | error e => exact .rejected (entryAt_ne_stale hs)
      | ok found =>
          obtain ⟨hp, hentry⟩ := entryAt_eq_ok hs
          dsimp only
          split
          · next allowed => exact .resolved hp hentry allowed
          · exact .rejected nofun
  | revoke task slot =>
      simp only [specStep]
      cases hs : f.entryAt task slot with
      | error e => exact .rejected (entryAt_ne_stale hs)
      | ok found =>
          obtain ⟨hp, hentry⟩ := entryAt_eq_ok hs
          exact .pruned hp hentry

end LeaseForest

/-- The abstract machine, with room for `NODES` entries. -/
noncomputable def forestMachine (TASKS SLOTS NODES : ℕ) :
    Machine (LeaseForest TASKS SLOTS) CapOp CapResult where
  init := Forest.empty
  step f op := some (f.specStep NODES op)

end Aegis.Capability
