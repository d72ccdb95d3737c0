import Mathlib
import Aegis.Memory.FrameSet

/-!
# Reservations

One bit records that a frame is allocated and that it is reserved, so the allocator cannot
tell the two apart.  A client that frees only what `allocate` gave it (`FreesHeld`) can
still give a reserved frame back: `reserve` accepts frames that are allocated already, and
the `free` of the allocation then ends the reservation too.  `reservation_lost` is such a
run.

Reservations are safe while no `reserve` that passes its range check covers a frame that
somebody holds (`ReservesUnheld`): then reserved frames and held frames stay apart, and a `free`
concerns held frames only.  The region may end anywhere, even beyond the address space.
-/

namespace Aegis.Memory

open Foundation FrameAllocator

variable {WORDS : ℕ}

/-- The frames that `allocate` handed out and that were not freed since. -/
def held (es : List (FrameEvent WORDS)) : Finset (BitVec 64) :=
  outstanding allocates frees es

/-- The frames that some successful `reserve` covered. -/
def reserved (es : List (FrameEvent WORDS)) : Finset (BitVec 64) :=
  outstanding reserves (fun _ => ∅) es

/-- The frame that a call of `free` is about. -/
def toFree (ev : FrameEvent WORDS) : Finset (BitVec 64) :=
  match ev.op with
  | .free frame => {frame.physicalAddress}
  | _ => ∅

/-- The range check of `reserve`: the pages are frames of the region. -/
def inRange (a : FrameAllocator WORDS) (start : BitVec 64) (pages : ℕ) : Bool :=
  match a.indexOf start with
  | .error _ => false
  | .ok first => first + pages ≤ a.frameCount

/-- The frames that a call of `reserve` is about, if its arguments are in range. -/
def toReserve (ev : FrameEvent WORDS) : Finset (BitVec 64) :=
  match ev.op with
  | .reserve start pages => if inRange ev.before start pages then pagesFrom start pages else ∅
  | _ => ∅

/-- `free` is called with frames the caller holds. -/
def FreesHeld (past : List (FrameEvent WORDS)) (ev : FrameEvent WORDS) : Prop :=
  toFree ev ⊆ held past

/-- `reserve` is called for frames nobody holds, or for pages out of range. -/
def ReservesUnheld (past : List (FrameEvent WORDS)) (ev : FrameEvent WORDS) : Prop :=
  Disjoint (toReserve ev) (held past)

/-- `allocate` returns no frame that was reserved before. -/
def ReservedWithheld (past : List (FrameEvent WORDS)) (ev : FrameEvent WORDS) : Prop :=
  Disjoint (allocates ev) (reserved past)

instance (past : List (FrameEvent WORDS)) (ev : FrameEvent WORDS) :
    Decidable (FreesHeld past ev) :=
  inferInstanceAs (Decidable (toFree ev ⊆ held past))

instance (past : List (FrameEvent WORDS)) (ev : FrameEvent WORDS) :
    Decidable (ReservesUnheld past ev) :=
  inferInstanceAs (Decidable (Disjoint (toReserve ev) (held past)))

instance (past : List (FrameEvent WORDS)) (ev : FrameEvent WORDS) :
    Decidable (ReservedWithheld past ev) :=
  inferInstanceAs (Decidable (Disjoint (allocates ev) (reserved past)))

section Step

variable {a b : FrameAllocator WORDS} {op : FrameOp} {r : FrameResult}
  {past : List (FrameEvent WORDS)} {ev : FrameEvent WORDS}

theorem Transition.allocates_disjoint (h : Transition a op r b) (ha : a.Valid) :
    Disjoint (allocates (⟨a, op, r, b⟩ : FrameEvent WORDS)) a.addresses := by
  cases h with
  | @allocated i b hi hfree hfirst hb =>
      show Disjoint {a.frameAt i} a.addresses
      rwa [Finset.disjoint_singleton_left, ha.frameAt_mem_addresses hi]
  | _ => exact Finset.disjoint_empty_left _

theorem frees_subset_toFree (ev : FrameEvent WORDS) : frees ev ⊆ toFree ev := by
  rw [frees]
  split
  · next frame _ hop _ => rw [toFree, hop]
  · exact Finset.empty_subset _

/-- A `reserve` that succeeds has passed the range check. -/
theorem Transition.reserves_subset (h : Transition a op r b) :
    reserves (⟨a, op, r, b⟩ : FrameEvent WORDS) ⊆ toReserve ⟨a, op, r, b⟩ := by
  cases h with
  | @reserved start pages first b hstart hend hb =>
      have hrange : inRange a start pages = true := by
        rw [inRange, hstart]
        exact decide_eq_true hend
      show pagesFrom start pages ⊆ if inRange a start pages then pagesFrom start pages else ∅
      rw [if_pos hrange]
  | _ => exact Finset.empty_subset _

theorem reserves_disjoint_allocates (ev : FrameEvent WORDS) :
    Disjoint (reserves ev) (allocates ev) := by
  rw [reserves]
  split
  · next start pages _ hop _ =>
      rw [allocates, hop]
      exact Finset.disjoint_empty_right _
  · exact Finset.disjoint_empty_left _

/-- The reserved frames are in use, and nobody holds one. -/
structure Apart (es : List (FrameEvent WORDS)) (a : FrameAllocator WORDS) : Prop where
  inUse : reserved es ⊆ a.addresses
  unheld : Disjoint (reserved es) (held es)

theorem Apart.step (h : Apart past a) (ha : a.Valid) (htrans : Transition a op r b)
    (hfree : FreesHeld past ⟨a, op, r, b⟩) (hreserve : ReservesUnheld past ⟨a, op, r, b⟩) :
    Apart (past ++ [⟨a, op, r, b⟩]) b := by
  have hfresh := htrans.allocates_disjoint ha
  have hreserved : reserved (past ++ [⟨a, op, r, b⟩]) =
      reserved past ∪ reserves ⟨a, op, r, b⟩ := by
    rw [reserved, outstanding_snoc, Finset.sdiff_empty, reserved]
  constructor
  · -- what is given back was held, hence not reserved
    rw [hreserved, htrans.addresses ha]
    refine Finset.union_subset_union (fun x hx => ?_) Finset.subset_union_right
    refine Finset.mem_sdiff.mpr ⟨h.inUse hx, fun hgiven => ?_⟩
    exact Finset.disjoint_left.mp h.unheld hx (hfree (frees_subset_toFree _ hgiven))
  · rw [hreserved, held, outstanding_snoc, Finset.disjoint_union_left,
      Finset.disjoint_union_right, Finset.disjoint_union_right]
    refine ⟨⟨?_, ?_⟩, ?_, reserves_disjoint_allocates _⟩
    · exact h.unheld.mono_right Finset.sdiff_subset
    · exact (hfresh.mono_right h.inUse).symm
    · exact hreserve.mono htrans.reserves_subset Finset.sdiff_subset

end Step

/-- **Reserved frames stay out of circulation** in every run that frees only held frames, and
in which every `reserve` with arguments in range is for frames nobody holds. -/
theorem reserved_withheld {a : FrameAllocator WORDS} {base bytes : BitVec 64}
    (hnew : FrameAllocator.new base bytes = some (.ok a)) (ops : List FrameOp) :
    ∃ es final, (frameMachine a).exec a ops = some (es, final) ∧
      (AtEach es FreesHeld → AtEach es ReservesUnheld → AtEach es ReservedWithheld) := by
  obtain ⟨hvalid, -⟩ := FrameAllocator.new_eq_ok hnew
  obtain ⟨es, final, hexec, -, hrun⟩ := Machine.exec_of_invariant (M := frameMachine a) (s := a)
    (fun es t => t.Valid ∧ (AtEach es FreesHeld → AtEach es ReservesUnheld →
      AtEach es ReservedWithheld ∧ Apart es t))
    ⟨hvalid, fun _ _ => ⟨AtEach.nil, Finset.empty_subset _, Finset.disjoint_empty_left _⟩⟩
    (fun es t op ⟨ht, hrun⟩ => by
      obtain ⟨r, u, hstep, htrans⟩ := step_transition a ht op
      refine ⟨r, u, hstep, (htrans.valid ht).1, fun hfrees hreserves => ?_⟩
      obtain ⟨hfrees, hfree⟩ := hfrees.of_snoc
      obtain ⟨hreserves, hreserve⟩ := hreserves.of_snoc
      obtain ⟨hwithheld, hapart⟩ := hrun hfrees hreserves
      refine ⟨hwithheld.snoc ?_, hapart.step ht htrans hfree hreserve⟩
      exact (htrans.allocates_disjoint ht).mono_right hapart.inUse) ops
  exact ⟨es, final, hexec, fun hfrees hreserves => (hrun hfrees hreserves).1⟩

/-- A region of two frames. -/
def twoFrames (used : BitVec 64) (nextHint : ℕ) : FrameAllocator 1 where
  base := 0x40000000
  frameCount := 2
  used := #v[used]
  nextHint

theorem new_twoFrames :
    FrameAllocator.new 0x40000000 0x2000 = some (.ok (twoFrames 0xfffffffffffffffc 0)) := by
  decide +kernel

/-- The lower frame is reserved, the upper one allocated, freed and allocated again.  While it
is held, a `reserve` that begins with it and ends out of range fails. -/
def reserveFirst : List (FrameEvent 1) := [
  ⟨twoFrames 0xfffffffffffffffc 0, .reserve 0x40000000 1, .done (.ok ()),
    twoFrames 0xfffffffffffffffd 0⟩,
  ⟨twoFrames 0xfffffffffffffffd 0, .allocate, .allocated (.ok ⟨0x40001000⟩),
    twoFrames 0xffffffffffffffff 0⟩,
  ⟨twoFrames 0xffffffffffffffff 0, .reserve 0x40001000 2, .done (.error .outOfRange),
    twoFrames 0xffffffffffffffff 0⟩,
  ⟨twoFrames 0xffffffffffffffff 0, .free ⟨0x40001000⟩, .done (.ok ()),
    twoFrames 0xfffffffffffffffd 0⟩,
  ⟨twoFrames 0xfffffffffffffffd 0, .allocate, .allocated (.ok ⟨0x40001000⟩),
    twoFrames 0xffffffffffffffff 0⟩]

theorem reserved_withheld_reserveFirst :
    (frameMachine (twoFrames 0xfffffffffffffffc 0)).exec (twoFrames 0xfffffffffffffffc 0)
        (reserveFirst.map Event.op) = some (reserveFirst, twoFrames 0xffffffffffffffff 0) ∧
      AtEach reserveFirst FreesHeld ∧ AtEach reserveFirst ReservesUnheld ∧
      AtEach reserveFirst ReservedWithheld := by
  have hrun : (frameMachine (twoFrames 0xfffffffffffffffc 0)).exec
      (twoFrames 0xfffffffffffffffc 0) (reserveFirst.map Event.op) =
        some (reserveFirst, twoFrames 0xffffffffffffffff 0) := by rfl
  have hfrees : AtEach reserveFirst FreesHeld := by decide
  have hreserves : AtEach reserveFirst ReservesUnheld := by decide
  obtain ⟨es, final, hexec, hwithheld⟩ :=
    reserved_withheld new_twoFrames (reserveFirst.map Event.op)
  rw [hrun, Option.some.injEq, Prod.mk.injEq] at hexec
  obtain ⟨rfl, rfl⟩ := hexec
  exact ⟨hrun, hfrees, hreserves, hwithheld hfrees hreserves⟩

/-- The lower frame is reserved while it is allocated, and freed by its holder. -/
def reserveHeld : List (FrameEvent 1) := [
  ⟨twoFrames 0xfffffffffffffffc 0, .allocate, .allocated (.ok ⟨0x40000000⟩),
    twoFrames 0xfffffffffffffffd 1⟩,
  ⟨twoFrames 0xfffffffffffffffd 1, .reserve 0x40000000 1, .done (.ok ()),
    twoFrames 0xfffffffffffffffd 1⟩,
  ⟨twoFrames 0xfffffffffffffffd 1, .free ⟨0x40000000⟩, .done (.ok ()),
    twoFrames 0xfffffffffffffffc 0⟩,
  ⟨twoFrames 0xfffffffffffffffc 0, .allocate, .allocated (.ok ⟨0x40000000⟩),
    twoFrames 0xfffffffffffffffd 1⟩]

/-- **A reservation is lost** when the frame was allocated at the time: its holder frees
it, as it may, and `allocate` hands the reserved frame out. -/
theorem reservation_lost :
    FrameAllocator.new 0x40000000 0x2000 = some (.ok (twoFrames 0xfffffffffffffffc 0)) ∧
      (frameMachine (twoFrames 0xfffffffffffffffc 0)).exec (twoFrames 0xfffffffffffffffc 0)
        [.allocate, .reserve 0x40000000 1, .free ⟨0x40000000⟩, .allocate] =
          some (reserveHeld, twoFrames 0xfffffffffffffffd 1) ∧
      AtEach reserveHeld FreesHeld ∧ ¬AtEach reserveHeld ReservedWithheld :=
  ⟨new_twoFrames, rfl, by decide, by decide⟩

end Aegis.Memory
