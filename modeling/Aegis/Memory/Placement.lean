import Mathlib
import Aegis.Memory.FrameSet

/-!
# Which frame `allocate` returns

`allocate` searches around the circle of frames, beginning at a hint.  It is first-fit all
the same: every frame below the hint is in use (`HintSound`), because `allocate` moves the
hint past the frame it takes and `free` moves it back.  Where the last frame is taken the
hint returns to 0, and nothing lies below it.

The address of a frame is computed without a check, and `new` does not ask whether the
region ends within the address space.  If it does not, the frames at its end have
addresses that wrap around, below the base, where `free` does not find them.
-/

namespace Aegis.Memory

open Foundation FrameAllocator

variable {WORDS : ℕ}

/-! ## First fit -/

/-- The hint is a frame, and every frame below it is in use. -/
structure FrameAllocator.HintSound (a : FrameAllocator WORDS) : Prop where
  lt : a.nextHint < a.frameCount
  below : ∀ i < a.nextHint, i ∈ a.usedFrames

/-- What a successful `allocate` returns is the lowest address of the region that is not
in use. -/
def FirstFit (base bytes : BitVec 64) (ev : FrameEvent WORDS) : Prop :=
  ∀ frame, ev.op = .allocate → ev.result = .allocated (.ok frame) →
    InRegion base bytes frame.physicalAddress ∧
      frame.physicalAddress ∉ ev.before.addresses ∧
      ∀ address, InRegion base bytes address → address ∉ ev.before.addresses →
        frame.physicalAddress.toNat ≤ address.toNat

section FirstFit

variable {a b : FrameAllocator WORDS} {op : FrameOp} {r : FrameResult} {i : ℕ}

/-- The first unused frame from a sound hint on is the first one of all. -/
theorem FrameAllocator.HintSound.first (h : a.HintSound) (hfree : i ∉ a.usedFrames)
    (hfirst : ∀ j < a.frameCount, j ∉ a.usedFrames →
      ahead a.frameCount a.nextHint i ≤ ahead a.frameCount a.nextHint j) :
    ∀ j < a.frameCount, j ∉ a.usedFrames → i ≤ j := by
  intro j hj hjfree
  have hi : a.nextHint ≤ i := Nat.le_of_not_lt fun hlt => hfree (h.below i hlt)
  have hj' : a.nextHint ≤ j := Nat.le_of_not_lt fun hlt => hjfree (h.below j hlt)
  have hle := hfirst j hj hjfree
  rw [ahead, ahead, if_pos hi, if_pos hj'] at hle
  omega

/-- **One call** keeps the hint sound. -/
theorem Transition.hintSound (h : Transition a op r b) (ha : a.Valid) (hint : a.HintSound) :
    b.HintSound := by
  refine ⟨(h.valid ha).1.hint, ?_⟩
  cases h with
  | @allocated i b hi hfree hfirst hb =>
      rw [hb.nextHint, hb.usedFrames]
      intro j hj
      rw [Finset.mem_insert]
      have hlast : j ≤ i := by
        have := Nat.mod_le (i + 1) a.frameCount
        omega
      rcases hlast.eq_or_lt with rfl | hlt
      · exact .inl rfl
      · refine .inr (by_contra fun hjfree => ?_)
        have hle := hint.first hfree hfirst j (hlt.trans hi) hjfree
        omega
  | reserved hstart hend hb =>
      rw [hb.nextHint, hb.usedFrames]
      exact fun j hj => Finset.mem_union_left _ (hint.below j hj)
  | @freed frame i b hi hused hb =>
      rw [hb.nextHint, hb.usedFrames]
      intro j hj
      rw [lt_min_iff] at hj
      exact Finset.mem_erase.mpr ⟨hj.1.ne, hint.below j hj.2⟩
  | exhausted => exact hint.below
  | notReserved => exact hint.below
  | doubleFree => exact hint.below
  | outOfRange => exact hint.below
  | counted => exact hint.below

theorem Transition.firstFit (h : Transition a op r b) (ha : a.Valid) (hint : a.HintSound)
    {bytes : BitVec 64} (hbytes : bytes.toNat = a.frameCount * 4096)
    (hfit : a.base.toNat + bytes.toNat ≤ 2 ^ 64) :
    FirstFit a.base bytes (⟨a, op, r, b⟩ : FrameEvent WORDS) := by
  rintro frame rfl hresult
  cases h with
  | exhausted => cases hresult
  | @allocated i b hi hfree hfirst hb =>
      cases hresult
      have hindex := ha.indexOf_frameAt (hbytes ▸ hfit) hi
      refine ⟨(ha.inRegion_iff hbytes).mpr ⟨i, hindex⟩, ?_, ?_⟩
      · rwa [ha.frameAt_mem_addresses hi]
      · intro address hregion hunused
        obtain ⟨j, hj⟩ := (ha.inRegion_iff hbytes).mp hregion
        rw [ha.mem_addresses hj] at hunused
        have hij := hint.first hfree hfirst j (ha.indexOf_eq_ok.mp hj).1 hunused
        rw [(ha.indexOf_eq_ok.mp hindex).2, (ha.indexOf_eq_ok.mp hj).2]
        omega

end FirstFit

/-- The induction rule for runs of an allocator that `new` has made: what holds at the
start and is kept by every transition over the region holds after every run. -/
theorem exec_of_transition {a : FrameAllocator WORDS} {base bytes : BitVec 64}
    (hnew : FrameAllocator.new base bytes = some (.ok a))
    (I : List (FrameEvent WORDS) → FrameAllocator WORDS → Prop) (start : I [] a)
    (next : ∀ {es t op r u}, I es t → t.Valid → t.base = base →
      bytes.toNat = t.frameCount * 4096 → Transition t op r u → I (es ++ [⟨t, op, r, u⟩]) u)
    (ops : List FrameOp) :
    ∃ es final, (frameMachine a).exec a ops = some (es, final) ∧ I es final := by
  obtain ⟨hvalid, hbase, -, -, hbytes⟩ := FrameAllocator.new_eq_ok hnew
  obtain ⟨es, final, hexec, -, -, -, hI⟩ := (frameMachine a).exec_of_invariant
    (fun es t => t.Valid ∧ t.base = base ∧ bytes.toNat = t.frameCount * 4096 ∧ I es t)
    ⟨hvalid, hbase, hbytes, start⟩
    (fun es t op ⟨ht, htbase, htbytes, hI⟩ => by
      obtain ⟨r, u, hstep, htrans⟩ := step_transition a ht op
      obtain ⟨hu, hubase, hucount⟩ := htrans.valid ht
      exact ⟨r, u, hstep, hu, hubase.trans htbase, hucount ▸ htbytes,
        next hI ht htbase htbytes htrans⟩) ops
  exact ⟨es, final, hexec, hI⟩

/-- **`allocate` is first-fit.**  Over a region that ends within the address space, in
every run each successful `allocate` returns the lowest frame that is not in use; and in
every state of the run the hint is a frame and all frames below it are in use. -/
theorem allocate_first_fit {a : FrameAllocator WORDS} {base bytes : BitVec 64}
    (hnew : FrameAllocator.new base bytes = some (.ok a))
    (hfit : base.toNat + bytes.toNat ≤ 2 ^ 64) (ops : List FrameOp) :
    ∃ es final, (frameMachine a).exec a ops = some (es, final) ∧
      (∀ ev ∈ es, FirstFit base bytes ev ∧ ev.before.HintSound) ∧ final.HintSound := by
  obtain ⟨hvalid, -, hzero, -, -⟩ := FrameAllocator.new_eq_ok hnew
  refine exec_of_transition hnew
    (fun es t => (∀ ev ∈ es, FirstFit base bytes ev ∧ ev.before.HintSound) ∧ t.HintSound)
    ⟨List.forall_mem_nil _, hvalid.hint, by simp [hzero]⟩ ?_ ops
  rintro es t op r u ⟨heach, hint⟩ ht rfl hbytes htrans
  refine ⟨?_, htrans.hintSound ht hint⟩
  rw [List.forall_mem_append, List.forall_mem_singleton]
  exact ⟨heach, htrans.firstFit ht hint hbytes hfit, hint⟩

/-- Two frames at the top of the address space: the second one is in use when the first
is given back and taken again. -/
theorem allocate_first_fit_top :
    ∃ es final,
      (frameMachine ⟨0xffffffffffffe000, 2, #v[0xfffffffffffffffc], 0⟩).exec
        (⟨0xffffffffffffe000, 2, #v[0xfffffffffffffffc], 0⟩ : FrameAllocator 1)
        [.allocate, .allocate, .free ⟨0xffffffffffffe000⟩, .allocate] = some (es, final) ∧
      (∀ ev ∈ es, FirstFit 0xffffffffffffe000 0x2000 ev ∧ ev.before.HintSound) ∧
        final.HintSound := by
  have hnew : FrameAllocator.new 0xffffffffffffe000 0x2000 =
      some (.ok (⟨0xffffffffffffe000, 2, #v[0xfffffffffffffffc], 0⟩ : FrameAllocator 1)) := by
    decide +kernel
  exact allocate_first_fit hnew (by decide) _

/-! ## The end of the address space -/

/-- What a successful `allocate` returns lies in the region, and `free` takes it back. -/
def AllocatesInRegion (base bytes : BitVec 64) (ev : FrameEvent WORDS) : Prop :=
  ∀ frame, ev.op = .allocate → ev.result = .allocated (.ok frame) →
    base.toNat ≤ frame.physicalAddress.toNat ∧
      frame.physicalAddress.toNat < base.toNat + bytes.toNat ∧
      ∃ freed, free frame ev.after = some (.ok (), freed)

section Overflow

variable {a b : FrameAllocator WORDS} {op : FrameOp} {r : FrameResult}

/-- `free` takes back every frame in use that it finds. -/
theorem FrameAllocator.Valid.free_eq_ok (ha : a.Valid) {frame : Frame} {i : ℕ}
    (hi : a.indexOf frame.physicalAddress = .ok i) (hused : i ∈ a.usedFrames) :
    ∃ freed, free frame a = some (.ok (), freed) := by
  obtain ⟨r, freed, hfree, htrans⟩ := free_transition ha frame
  cases htrans with
  | freed => exact ⟨freed, hfree⟩
  | doubleFree hi' hunused =>
      rw [hi, Except.ok.injEq] at hi'
      exact absurd (hi' ▸ hused) hunused
  | outOfRange hrange =>
      rw [hi] at hrange
      cases hrange

theorem Transition.allocatesInRegion (h : Transition a op r b) (ha : a.Valid)
    {bytes : BitVec 64} (hbytes : bytes.toNat = a.frameCount * 4096)
    (hfit : a.base.toNat + bytes.toNat ≤ 2 ^ 64) :
    AllocatesInRegion a.base bytes (⟨a, op, r, b⟩ : FrameEvent WORDS) := by
  obtain ⟨hb', hbase, hcount⟩ := h.valid ha
  rintro frame rfl hresult
  cases h with
  | exhausted => cases hresult
  | @allocated i b hi hfree hfirst hb =>
      cases hresult
      have hindex := ha.indexOf_frameAt (hbytes ▸ hfit) hi
      have haddress := (ha.indexOf_eq_ok.mp hindex).2
      refine ⟨?_, ?_, hb'.free_eq_ok (i := i) ?_ ?_⟩
      · show a.base.toNat ≤ (a.frameAt i).toNat
        omega
      · show (a.frameAt i).toNat < a.base.toNat + bytes.toNat
        omega
      · rw [hb'.indexOf_eq_ok, hbase, hcount]
        exact ha.indexOf_eq_ok.mp hindex
      · rw [hb.usedFrames]
        exact Finset.mem_insert_self _ _

/-- When all frames but the last are reserved, `allocate` returns the last one. -/
theorem allocate_last {base bytes : BitVec 64}
    (hnew : FrameAllocator.new base bytes = some (.ok a)) :
    ∃ es final, (frameMachine a).exec a [.reserve base (a.frameCount - 1), .allocate] =
        some (es, final) ∧
      ∃ ev ∈ es, ev.op = .allocate ∧
        ev.result = .allocated (.ok ⟨a.frameAt (a.frameCount - 1)⟩) := by
  obtain ⟨ha, rfl, -, hempty, -⟩ := FrameAllocator.new_eq_ok hnew
  have hpos := ha.pos
  have hstart : a.indexOf a.base = .ok 0 := ha.indexOf_eq_ok.mpr ⟨hpos, by omega⟩
  obtain ⟨r, b, hreserve, htrans⟩ :=
    step_transition a ha (.reserve a.base (a.frameCount - 1))
  obtain ⟨hb, hbase, hcount⟩ := htrans.valid ha
  have hused : b.usedFrames = Finset.range (a.frameCount - 1) := by
    cases htrans with
    | reserved hfirst hend hbecomes =>
        rw [hstart, Except.ok.injEq] at hfirst
        subst hfirst
        rw [hbecomes.usedFrames, hempty, Finset.empty_union, Nat.zero_add, Finset.range_eq_Ico]
    | notReserved hrange =>
        have := hrange 0 hstart
        omega
  obtain ⟨r', c, hallocate, htrans'⟩ := step_transition a hb .allocate
  have hresult : r' = .allocated (.ok ⟨a.frameAt (a.frameCount - 1)⟩) := by
    cases htrans' with
    | @allocated i c hi hfree =>
        rw [hused, Finset.mem_range] at hfree
        obtain rfl : i = a.frameCount - 1 := by omega
        rw [frameAt, frameAt, hbase]
    | exhausted hfull =>
        have hcard := congrArg Finset.card hfull
        rw [hused, hcount, Finset.card_range, Finset.card_range] at hcard
        omega
  exact ⟨_, c, Machine.exec_cons hreserve (Machine.exec_singleton hallocate), _,
    List.mem_cons_of_mem _ (List.mem_singleton_self _), rfl, hresult⟩

end Overflow

/-- **Addresses do not overflow exactly if the region ends within the address space.**  For
every region that `new` accepts: in all runs every successful `allocate` returns an
address inside the region, which `free` takes back, if and only if the region does not
reach beyond the last address. -/
theorem no_address_overflow_iff {a : FrameAllocator WORDS} {base bytes : BitVec 64}
    (hnew : FrameAllocator.new base bytes = some (.ok a)) :
    (∀ ops, ∃ es final, (frameMachine a).exec a ops = some (es, final) ∧
        ∀ ev ∈ es, AllocatesInRegion base bytes ev) ↔
      base.toNat + bytes.toNat ≤ 2 ^ 64 := by
  constructor
  · intro h
    obtain ⟨ha, hbase, -, -, hbytes⟩ := FrameAllocator.new_eq_ok hnew
    obtain ⟨es, final, hexec, ev, hev, hop, hresult⟩ := allocate_last hnew
    obtain ⟨es', final', hexec', hregion⟩ := h [.reserve base (a.frameCount - 1), .allocate]
    rw [hexec, Option.some.injEq, Prod.mk.injEq] at hexec'
    obtain ⟨hlow, -⟩ := hregion ev (hexec'.1 ▸ hev) _ hop hresult
    -- an address that has wrapped around lies below the base
    have haddress : base.toNat ≤ (a.frameAt (a.frameCount - 1)).toNat := hlow
    rw [toNat_frameAt, hbase] at haddress
    have haligned := ha.aligned
    have hfits := ha.fits
    have hpos := ha.pos
    have hlt := base.isLt
    rw [hbase] at haligned
    omega
  · intro hfit ops
    refine exec_of_transition hnew (fun es _ => ∀ ev ∈ es, AllocatesInRegion base bytes ev)
      (List.forall_mem_nil _) ?_ ops
    rintro es t op r u heach ht rfl hbytes htrans
    rw [List.forall_mem_append, List.forall_mem_singleton]
    exact ⟨heach, htrans.allocatesInRegion ht hbytes hfit⟩

/-- The last frame of the address space can be taken and given back. -/
theorem no_address_overflow_iff_top :
    ∃ es final,
      (frameMachine ⟨0xfffffffffffff000, 1, #v[0xfffffffffffffffe], 0⟩).exec
        (⟨0xfffffffffffff000, 1, #v[0xfffffffffffffffe], 0⟩ : FrameAllocator 1)
        [.allocate, .free ⟨0xfffffffffffff000⟩, .allocate] = some (es, final) ∧
      ∀ ev ∈ es, AllocatesInRegion 0xfffffffffffff000 0x1000 ev := by
  have hnew : FrameAllocator.new 0xfffffffffffff000 0x1000 =
      some (.ok (⟨0xfffffffffffff000, 1, #v[0xfffffffffffffffe], 0⟩ : FrameAllocator 1)) := by
    decide +kernel
  exact (no_address_overflow_iff hnew).mpr (by decide) _

/-- **An address that wraps around.**  `new` accepts two frames of which only the first
lies within the address space.  The second `allocate` returns address 0, and `free` does
not take it back. -/
theorem address_wraps_around :
    FrameAllocator.new 0xfffffffffffff000 0x2000 =
        some (.ok (⟨0xfffffffffffff000, 2, #v[0xfffffffffffffffc], 0⟩ : FrameAllocator 1)) ∧
      ((frameMachine ⟨0xfffffffffffff000, 2, #v[0xfffffffffffffffc], 0⟩).exec
        (⟨0xfffffffffffff000, 2, #v[0xfffffffffffffffc], 0⟩ : FrameAllocator 1)
        [.allocate, .allocate, .free ⟨0⟩]).map (fun run => run.1.map Event.result) =
      some [.allocated (.ok ⟨0xfffffffffffff000⟩), .allocated (.ok ⟨0⟩),
        .done (.error .outOfRange)] := by
  decide +kernel

end Aegis.Memory
