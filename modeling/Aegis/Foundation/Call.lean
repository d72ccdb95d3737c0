import Mathlib

/-!
# Method calls on mutable state

A fallible method that borrows its receiver mutably has three outcomes: it
returns a value, it returns an error, or it panics (an array is indexed out of
bounds).  Errors do **not** roll the receiver back: whatever was written before
the early return stays written.  `Call σ ε α` records exactly that, a function
from the receiver to either nothing (a panic) or a result *together with* the
receiver it leaves behind.

The two rules every proof about a concrete method uses are `bind_ok` and
`bind_error`: a sequential composition is executed one call at a time, by the
equation the first call satisfies.
-/

namespace Foundation

universe u v w

/-- A method on a mutable receiver `σ` with error type `ε`.  `none` is a panic;
otherwise the call returns `Ok` or `Err` and leaves a receiver behind. -/
def Call (σ : Type u) (ε : Type v) (α : Type w) : Type (max u v w) :=
  σ → Option (Except ε α × σ)

namespace Call

variable {σ τ : Type u} {ε : Type v} {α β : Type w}

/-- Sequential composition.  An error is an early return: the rest of the body
is skipped and the receiver stays as the failing call left it. -/
protected def bind (x : Call σ ε α) (f : α → Call σ ε β) : Call σ ε β :=
  fun s =>
    match x s with
    | none => none
    | some (.error e, s') => some (.error e, s')
    | some (.ok a, s') => f a s'

instance : Monad (Call σ ε) where
  pure a := fun s => some (.ok a, s)
  bind := Call.bind

/-- Return early with an error. -/
def throw (e : ε) : Call σ ε α := fun s => some (.error e, s)

/-- Call a method that only reads the receiver. -/
def reads (f : σ → Except ε α) : Call σ ε α := fun s => some (f s, s)

/-- Index into the receiver; an index that is out of bounds panics. -/
def index (f : σ → Option α) : Call σ ε α := fun s => (f s).map fun a => (.ok a, s)

/-- Write to an indexed part of the receiver; an index that is out of bounds
panics. -/
def writes (f : σ → Option σ) : Call σ ε PUnit := fun s =>
  (f s).map fun s' => (.ok ⟨⟩, s')

/-- Rename the value a call returns. -/
protected def map (f : α → β) (x : Call σ ε α) : Call σ ε β := fun s =>
  (x s).map fun p => (p.1.map f, p.2)

/-- Run a method of a component of the receiver in place. -/
def zoom (get : σ → τ) (put : σ → τ → σ) (x : Call τ ε α) : Call σ ε α := fun s =>
  (x (get s)).map fun p => (p.1, put s p.2)

/-- The conversion that `?` applies to the errors of a call. -/
def mapError {ε' : Type v} (f : ε → ε') (x : Call σ ε α) : Call σ ε' α := fun s =>
  (x s).map fun p => (p.1.mapError f, p.2)

@[simp] theorem reads_apply (f : σ → Except ε α) (s : σ) :
    (reads f : Call σ ε α) s = some (f s, s) := rfl

/-- A composition whose first call returns `Ok` continues with its value. -/
theorem bind_ok {x : Call σ ε α} {f : α → Call σ ε β} {s s' : σ} {a : α}
    (h : x s = some (.ok a, s')) : (x >>= f) s = f a s' := by
  change Call.bind x f s = _
  simp [Call.bind, h]

/-- A composition whose first call returns `Err` returns that error. -/
theorem bind_error {x : Call σ ε α} {f : α → Call σ ε β} {s s' : σ} {e : ε}
    (h : x s = some (.error e, s')) : (x >>= f) s = some (.error e, s') := by
  change Call.bind x f s = _
  simp [Call.bind, h]

theorem reads_ok {f : σ → Except ε α} {s : σ} {a : α} (h : f s = .ok a) :
    (reads f : Call σ ε α) s = some (.ok a, s) := by
  rw [reads_apply, h]

theorem reads_error {f : σ → Except ε α} {s : σ} {e : ε} (h : f s = .error e) :
    (reads f : Call σ ε α) s = some (.error e, s) := by
  rw [reads_apply, h]

theorem index_ok {f : σ → Option α} {s : σ} {a : α} (h : f s = some a) :
    (index f : Call σ ε α) s = some (.ok a, s) := by
  simp [index, h]

theorem writes_ok {f : σ → Option σ} {s s' : σ} (h : f s = some s') :
    (writes f : Call σ ε PUnit) s = some (.ok ⟨⟩, s') := by
  simp [writes, h]

theorem map_some {f : α → β} {x : Call σ ε α} {s s' : σ} {r : Except ε α}
    (h : x s = some (r, s')) : x.map f s = some (r.map f, s') := by
  simp [Call.map, h]

theorem zoom_some {get : σ → τ} {put : σ → τ → σ} {x : Call τ ε α} {s : σ}
    {r : Except ε α} {t : τ} (h : x (get s) = some (r, t)) :
    zoom get put x s = some (r, put s t) := by
  simp [zoom, h]

theorem mapError_ok {ε' : Type v} {f : ε → ε'} {x : Call σ ε α} {s s' : σ} {a : α}
    (h : x s = some (.ok a, s')) : x.mapError f s = some (.ok a, s') := by
  rw [mapError, h]
  rfl

end Call

/-! ## Loops whose body cannot panic -/

section Loops

variable {α β : Type} {l : List α}

/-- A `mapM` whose body never panics is a `map`. -/
theorem mapM_of_some {f : α → Option β} {g : α → β} (h : ∀ x ∈ l, f x = some (g x)) :
    l.mapM f = some (l.map g) := by
  induction l with
  | nil => rfl
  | cons x l ih =>
      rw [List.mapM_cons, h x (by simp), ih fun y hy => h y (by simp [hy])]
      rfl

/-- A search whose test never panics is a `find?`. -/
theorem findM_of_some {p : α → Option Bool} {q : α → Bool} (h : ∀ x ∈ l, p x = some (q x)) :
    l.findM? p = some (l.find? q) := by
  induction l with
  | nil => rfl
  | cons x l ih =>
      rw [List.findM?, h x (by simp), List.find?_cons, Option.bind_eq_bind, Option.bind_some]
      cases q x with
      | true => rfl
      | false => exact ih fun y hy => h y (by simp [hy])

end Loops

end Foundation
