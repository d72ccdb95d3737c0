import Mathlib
import Aegis.Foundation.Bitmap
import Aegis.Foundation.RoundRobin
import Aegis.Memory.Model

/-!
# What the allocator's calls do

The allocator is read as a finite set: `usedFrames` are the numbers of the frames whose
bit is set, and `Transition` says for every call what it returns and which set it leaves,
without bits, masks and loops.  `step_transition` is the only place where the methods are
unfolded: from a valid allocator every call returns, and does what `Transition` says.

Frames are numbers here.  `frameAt` gives the address of a frame and `indexOf` goes back,
where the address does not wrap around.
-/

namespace Aegis.Memory

open Foundation

variable {WORDS : ℕ}

namespace FrameAllocator

variable {a b : FrameAllocator WORDS} {i j : ℕ}

/-- The frames that are allocated or reserved. -/
def usedFrames (a : FrameAllocator WORDS) : Finset ℕ :=
  (Finset.range a.frameCount).filter fun i => bitAt a.used i

/-- The address `allocate` returns for frame `i`. -/
def frameAt (a : FrameAllocator WORDS) (i : ℕ) : BitVec 64 :=
  a.base + BitVec.ofNat 64 i * PAGE_SIZE

/-- What `new` establishes and every call keeps. -/
structure Valid (a : FrameAllocator WORDS) : Prop where
  pos : 0 < a.frameCount
  stored : a.frameCount ≤ WORDS * 64
  hint : a.nextHint < a.frameCount
  fits : a.frameCount * 4096 < 2 ^ 64
  aligned : a.base.toNat % 4096 = 0

/-- `b` is the allocator `a` with other frames in use and another hint. -/
structure Becomes (a b : FrameAllocator WORDS) (used : Finset ℕ) (hint : ℕ) : Prop where
  base : b.base = a.base
  frameCount : b.frameCount = a.frameCount
  usedFrames : b.usedFrames = used
  nextHint : b.nextHint = hint

theorem mem_usedFrames : i ∈ a.usedFrames ↔ i < a.frameCount ∧ bitAt a.used i = true := by
  rw [usedFrames, Finset.mem_filter, Finset.mem_range]

theorem usedFrames_subset : a.usedFrames ⊆ Finset.range a.frameCount :=
  Finset.filter_subset _ _

theorem Becomes.valid {used : Finset ℕ} {hint : ℕ} (h : Becomes a b used hint) (ha : a.Valid)
    (hhint : hint < a.frameCount) : b.Valid where
  pos := h.frameCount ▸ ha.pos
  stored := h.frameCount ▸ ha.stored
  hint := by rw [h.nextHint, h.frameCount]; exact hhint
  fits := h.frameCount ▸ ha.fits
  aligned := h.base ▸ ha.aligned

/-! ## Addresses -/

theorem toNat_frameAt (a : FrameAllocator WORDS) (i : ℕ) :
    (a.frameAt i).toNat = (a.base.toNat + i * 4096) % 2 ^ 64 := by
  rw [frameAt, BitVec.toNat_add, BitVec.toNat_mul, BitVec.toNat_ofNat, toNat_PAGE_SIZE,
    Nat.mod_mul_mod, Nat.add_mod_mod]

/-- The region is smaller than the address space, so no two of its frames share an
address even where the addresses wrap around. -/
theorem Valid.frameAt_inj (ha : a.Valid) (hi : i < a.frameCount) (hj : j < a.frameCount)
    (h : a.frameAt i = a.frameAt j) : i = j := by
  have hfits := ha.fits
  have hnat := congrArg BitVec.toNat h
  rw [toNat_frameAt, toNat_frameAt] at hnat
  omega

/-- `indexOf` finds the frame of an address that lies `i` pages above the base, without
wrapping around. -/
theorem Valid.indexOf_eq_ok (ha : a.Valid) {address : BitVec 64} :
    a.indexOf address = .ok i ↔
      i < a.frameCount ∧ address.toNat = a.base.toNat + i * 4096 := by
  have haligned := ha.aligned
  rw [indexOf]
  by_cases hbad : address % PAGE_SIZE ≠ 0 ∨ address < a.base
  · rw [if_pos hbad, Ne, mod_PAGE_SIZE, BitVec.lt_def] at *
    simp only [reduceCtorEq, false_iff]
    omega
  · rw [if_neg hbad]
    rw [Ne, mod_PAGE_SIZE, BitVec.lt_def] at hbad
    have hindex : ((address - a.base) / PAGE_SIZE).toNat =
        (address.toNat - a.base.toNat) / 4096 := by
      rw [BitVec.toNat_udiv, BitVec.toNat_sub_of_le (by rw [BitVec.le_def]; omega),
        toNat_PAGE_SIZE]
    simp only [hindex]
    split
    · simp only [reduceCtorEq, false_iff]
      omega
    · rw [Except.ok.injEq]
      omega

theorem indexOf_error {address : BitVec 64} {e : FrameError}
    (h : a.indexOf address = .error e) : e = .outOfRange := by
  rw [indexOf] at h
  split at h
  · cases h
    rfl
  · dsimp only at h
    split at h
    · cases h
      rfl
    · cases h

/-! ## The bitmap -/

theorem isUsed_eq (h : i < WORDS * 64) : a.isUsed i = some (bitAt a.used i) := by
  have hword : i / 64 < WORDS := by omega
  rw [isUsed, Vector.getElem?_eq_getElem hword, Option.map_some, bitAt_of_lt _ hword]
  simp only [and_mask_ne_zero _ (Nat.mod_lt i (by decide : 0 < 64)), Bool.decide_eq_true]

/-- `b` has the same region and hint as `a`, and these bits. -/
structure Bits (a b : FrameAllocator WORDS) (bits : ℕ → Bool) : Prop where
  base : b.base = a.base
  frameCount : b.frameCount = a.frameCount
  nextHint : b.nextHint = a.nextHint
  bitAt : ∀ j, Foundation.bitAt b.used j = bits j

theorem setUsed_eq (h : i < WORDS * 64) (used : Bool) :
    ∃ b, a.setUsed i used = some b ∧ Bits a b fun j => if j = i then used else bitAt a.used j := by
  have hword : i / 64 < WORDS := by omega
  rw [setUsed, dif_pos hword]
  exact ⟨_, rfl, rfl, rfl, rfl, fun j => bitAt_write _ _ (by decide) hword⟩

/-- The loop that marks frames: a bit is set afterwards if it was set before, or its turn
came. -/
theorem setAllUsed_eq (indices : List ℕ) (h : ∀ i ∈ indices, i < WORDS * 64) :
    ∃ b, a.setAllUsed indices = some b ∧
      Bits a b fun j => decide (j ∈ indices) || bitAt a.used j := by
  induction indices generalizing a with
  | nil => exact ⟨a, rfl, rfl, rfl, rfl, fun j => by simp⟩
  | cons i indices ih =>
      obtain ⟨b, hb, hab⟩ := setUsed_eq (h i (by simp)) true
      obtain ⟨c, hc, hbc⟩ := ih fun j hj => h j (by simp [hj])
      refine ⟨c, ?_, hbc.base.trans hab.base, hbc.frameCount.trans hab.frameCount,
        hbc.nextHint.trans hab.nextHint, fun j => ?_⟩
      · rw [setAllUsed, List.foldlM_cons, hb]
        exact hc
      · rw [hbc.bitAt, hab.bitAt]
        by_cases hji : j = i <;> simp [hji]

theorem Bits.becomes {bits : ℕ → Bool} (h : Bits a b bits) {used : Finset ℕ}
    (hused : ∀ j < a.frameCount, bits j = true ↔ j ∈ used)
    (hsubset : used ⊆ Finset.range a.frameCount) : Becomes a b used a.nextHint := by
  refine ⟨h.base, h.frameCount, ?_, h.nextHint⟩
  ext j
  rw [mem_usedFrames, h.frameCount, h.bitAt]
  refine ⟨fun ⟨hj, hbit⟩ => (hused j hj).mp hbit, fun hj => ?_⟩
  have hlt := Finset.mem_range.mp (hsubset hj)
  exact ⟨hlt, (hused j hlt).mpr hj⟩

/-! ## What `new` returns -/

theorem new_eq_ok {base bytes : BitVec 64} (h : new base bytes = some (.ok a)) :
    a.Valid ∧ a.base = base ∧ a.nextHint = 0 ∧ a.usedFrames = ∅ ∧
      bytes.toNat = a.frameCount * 4096 := by
  rw [new] at h
  split at h
  · cases h
  · next haligned =>
      rw [not_or, not_not, not_not, mod_PAGE_SIZE, mod_PAGE_SIZE] at haligned
      have hcount : (bytes / PAGE_SIZE).toNat = bytes.toNat / 4096 := by
        rw [BitVec.toNat_udiv, toNat_PAGE_SIZE]
      simp only [hcount] at h
      split at h
      · cases h
      · next hsize =>
          have hbits : bitCount WORDS ≤ WORDS * 64 := Nat.mod_le _ _
          have hbytes := bytes.isLt
          obtain ⟨b, hb, hbits⟩ := setAllUsed_eq
            (a := ⟨base, bytes.toNat / 4096, Vector.replicate WORDS 0, 0⟩)
            (List.range' (bytes.toNat / 4096) (bitCount WORDS - bytes.toNat / 4096))
            fun i hi => by rw [List.mem_range'_1] at hi; omega
          rw [hb, Option.map_some, Option.some.injEq, Except.ok.injEq] at h
          subst h
          -- the padding starts where the frames end
          have hused : Becomes _ b ∅ 0 := hbits.becomes (fun j hj => by
            have hj' : j < bytes.toNat / 4096 := hj
            simp only [List.mem_range'_1, BitVec.ofNat_eq_ofNat, bitAt_replicate_zero,
              Bool.or_false, decide_eq_true_eq, Finset.notMem_empty, iff_false]
            omega) (Finset.empty_subset _)
          refine ⟨⟨?_, ?_, ?_, ?_, ?_⟩, hused.base, hused.nextHint, hused.usedFrames, ?_⟩
          all_goals
            simp only [hused.frameCount, hused.base, hused.nextHint]
            omega

end FrameAllocator

/-! ## The calls -/

/-- Every outcome of a call. -/
inductive Transition (a : FrameAllocator WORDS) :
    FrameOp → FrameResult → FrameAllocator WORDS → Prop
  /-- `allocate` takes the unused frame that lies least far ahead of the hint. -/
  | allocated {i : ℕ} {b : FrameAllocator WORDS} (hi : i < a.frameCount)
      (hfree : i ∉ a.usedFrames)
      (hfirst : ∀ j < a.frameCount, j ∉ a.usedFrames →
        ahead a.frameCount a.nextHint i ≤ ahead a.frameCount a.nextHint j)
      (hb : a.Becomes b (insert i a.usedFrames) ((i + 1) % a.frameCount)) :
      Transition a .allocate (.allocated (.ok ⟨a.frameAt i⟩)) b
  | exhausted (hfull : a.usedFrames = Finset.range a.frameCount) :
      Transition a .allocate (.allocated (.error .outOfMemory)) a
  | reserved {start : BitVec 64} {pages first : ℕ} {b : FrameAllocator WORDS}
      (hstart : a.indexOf start = .ok first) (hend : first + pages ≤ a.frameCount)
      (hb : a.Becomes b (a.usedFrames ∪ Finset.Ico first (first + pages)) a.nextHint) :
      Transition a (.reserve start pages) (.done (.ok ())) b
  | notReserved {start : BitVec 64} {pages : ℕ} {e : FrameError}
      (hrange : ∀ first, a.indexOf start = .ok first → a.frameCount < first + pages)
      (he : e = if start % PAGE_SIZE = 0 then .outOfRange else .unaligned) :
      Transition a (.reserve start pages) (.done (.error e)) a
  | freed {frame : Frame} {i : ℕ} {b : FrameAllocator WORDS}
      (hi : a.indexOf frame.physicalAddress = .ok i) (hused : i ∈ a.usedFrames)
      (hb : a.Becomes b (a.usedFrames.erase i) (min i a.nextHint)) :
      Transition a (.free frame) (.done (.ok ())) b
  | doubleFree {frame : Frame} {i : ℕ} (hi : a.indexOf frame.physicalAddress = .ok i)
      (hfree : i ∉ a.usedFrames) :
      Transition a (.free frame) (.done (.error .doubleFree)) a
  | outOfRange {frame : Frame} (hrange : a.indexOf frame.physicalAddress = .error .outOfRange) :
      Transition a (.free frame) (.done (.error .outOfRange)) a
  | counted : Transition a .available (.counted (a.frameCount - a.usedFrames.card)) a

section Step

variable {a b : FrameAllocator WORDS} {op : FrameOp} {r : FrameResult}

open FrameAllocator

theorem FrameAllocator.Valid.isUsed_eq (ha : a.Valid) {i : ℕ} (hi : i < a.frameCount) :
    a.isUsed i = some (decide (i ∈ a.usedFrames)) := by
  rw [FrameAllocator.isUsed_eq (hi.trans_le ha.stored), Option.some.injEq]
  simp [mem_usedFrames, hi]

theorem findUnused_eq (ha : a.Valid) :
    a.findUnused =
      some (cyclicFind a.frameCount a.nextHint fun i => decide (i ∉ a.usedFrames)) := by
  refine findM_of_some fun i hi => ?_
  obtain ⟨offset, -, rfl⟩ := List.mem_map.mp hi
  rw [ha.isUsed_eq (Nat.mod_lt _ ha.pos), Option.map_some]
  simp

theorem allocate_transition (ha : a.Valid) :
    ∃ r b, allocate a = some (r, b) ∧ Transition a .allocate (.allocated r) b := by
  rw [allocate, findUnused_eq ha]
  cases hfind : cyclicFind a.frameCount a.nextHint fun i => decide (i ∉ a.usedFrames) with
  | none =>
      rw [cyclicFind_eq_none fun _ => ha.hint] at hfind
      refine ⟨_, a, rfl, .exhausted (usedFrames_subset.antisymm fun i hi => ?_)⟩
      simpa using hfind i (Finset.mem_range.mp hi)
  | some i =>
      obtain ⟨hi, hfree, hfirst⟩ := cyclicFind_eq_some (fun _ => ha.hint) hfind
      obtain ⟨b, hb, hbits⟩ := setUsed_eq (a := a) (hi.trans_le ha.stored) true
      have hbecomes : a.Becomes b (insert i a.usedFrames) a.nextHint := by
        refine hbits.becomes (fun j hj => ?_) ?_
        · by_cases hji : j = i <;> simp [hji, hj, mem_usedFrames]
        · exact Finset.insert_subset (Finset.mem_range.mpr hi) usedFrames_subset
      refine ⟨.ok ⟨a.frameAt i⟩, { b with nextHint := (i + 1) % a.frameCount }, ?_,
        .allocated hi (by simpa using hfree) ?_ ?_⟩
      · simp only [hb, Option.map_some]
        rfl
      · exact fun j hj hfree => hfirst j hj (by simpa using hfree)
      · exact ⟨hbecomes.base, hbecomes.frameCount, hbecomes.usedFrames, rfl⟩

theorem reserve_transition (ha : a.Valid) (start : BitVec 64) (pages : ℕ) :
    ∃ r b, reserve start pages a = some (r, b) ∧
      Transition a (.reserve start pages) (.done r) b := by
  rw [reserve]
  split
  · next hunaligned =>
      refine ⟨_, a, rfl, .notReserved (fun first hfirst => ?_) (by rw [if_neg hunaligned])⟩
      have haligned := ha.aligned
      rw [Ne, mod_PAGE_SIZE] at hunaligned
      rw [ha.indexOf_eq_ok] at hfirst
      omega
  · next haligned =>
      rw [not_not] at haligned
      cases hindex : a.indexOf start with
      | error e =>
          refine ⟨_, a, rfl, .notReserved (fun first hfirst => ?_) ?_⟩
          · rw [hindex] at hfirst
            cases hfirst
          · rw [if_pos haligned, indexOf_error hindex]
      | ok first =>
          have hfits := ha.fits
          by_cases hend : first + pages ≤ a.frameCount
          · obtain ⟨b, hb, hbits⟩ := setAllUsed_eq (a := a) (List.range' first pages)
              fun i hi => by
                rw [List.mem_range'_1] at hi
                have := ha.stored
                omega
            have hbecomes : a.Becomes b (a.usedFrames ∪ Finset.Ico first (first + pages))
                a.nextHint := by
              refine hbits.becomes (fun j hj => ?_) ?_
              · simp [mem_usedFrames, hj, List.mem_range'_1, or_comm]
              · refine Finset.union_subset usedFrames_subset fun j hj => ?_
                rw [Finset.mem_Ico] at hj
                exact Finset.mem_range.mpr (by omega)
            refine ⟨.ok (), b, ?_, .reserved hindex hend hbecomes⟩
            simp only [if_neg (show ¬first + pages ≥ 2 ^ 64 by omega),
              if_neg (show ¬first + pages > a.frameCount by omega), hb, Option.map_some]
          · refine ⟨.error .outOfRange, a, ?_, .notReserved (fun first' hfirst => ?_) ?_⟩
            · simp only [if_pos (show first + pages > a.frameCount by omega), ite_self]
            · rw [hindex, Except.ok.injEq] at hfirst
              omega
            · rw [if_pos haligned]

theorem free_transition (ha : a.Valid) (frame : Frame) :
    ∃ r b, free frame a = some (r, b) ∧ Transition a (.free frame) (.done r) b := by
  rw [free]
  cases hindex : a.indexOf frame.physicalAddress with
  | error e =>
      cases indexOf_error hindex
      exact ⟨_, a, rfl, .outOfRange hindex⟩
  | ok i =>
      have hi := (ha.indexOf_eq_ok.mp hindex).1
      simp only [ha.isUsed_eq hi]
      by_cases hused : i ∈ a.usedFrames
      · obtain ⟨b, hb, hbits⟩ := setUsed_eq (a := a) (hi.trans_le ha.stored) false
        have hbecomes : a.Becomes b (a.usedFrames.erase i) a.nextHint := by
          refine hbits.becomes (fun j hj => ?_) ?_
          · by_cases hji : j = i <;> simp [hji, hj, mem_usedFrames]
          · exact (Finset.erase_subset _ _).trans usedFrames_subset
        simp only [hused, decide_true, hb, Option.map_some]
        refine ⟨_, _, rfl, .freed hindex hused ?_⟩
        rw [hbecomes.nextHint]
        split
        · next hlt =>
            exact ⟨hbecomes.base, hbecomes.frameCount, hbecomes.usedFrames,
              (min_eq_left hlt.le).symm⟩
        · next hge =>
            exact ⟨hbecomes.base, hbecomes.frameCount, hbecomes.usedFrames,
              hbecomes.nextHint.trans (min_eq_right (Nat.le_of_not_lt hge)).symm⟩
      · simp only [hused, decide_false]
        exact ⟨_, a, rfl, .doubleFree hindex hused⟩

/-- Counting the clear bits of the region. -/
theorem available_eq (ha : a.Valid) :
    a.available = some (a.frameCount - a.usedFrames.card) := by
  rw [available, mapM_of_some fun i hi => ha.isUsed_eq (List.mem_range.mp hi),
    Option.map_some, Option.some.injEq]
  have hcount : ((List.range a.frameCount).map fun i => decide (i ∈ a.usedFrames)).count false =
      ((Finset.range a.frameCount).filter fun i => i ∉ a.usedFrames).card := by
    rw [List.count, List.countP_map, List.countP_eq_length_filter,
      ← List.toFinset_card_of_nodup (List.nodup_range.filter _), List.toFinset_filter,
      List.toFinset_range]
    simp
  rw [hcount, Finset.filter_notMem_eq_sdiff, Finset.card_sdiff_of_subset usedFrames_subset,
    Finset.card_range]

/-- **Every call returns**, and does what `Transition` says. -/
theorem step_transition (init : FrameAllocator WORDS) (ha : a.Valid) (op : FrameOp) :
    ∃ r b, (frameMachine init).step a op = some (r, b) ∧ Transition a op r b := by
  cases op with
  | allocate =>
      obtain ⟨r, b, hcall, h⟩ := allocate_transition ha
      exact ⟨_, b, congrArg (Option.map _) hcall, h⟩
  | reserve start pages =>
      obtain ⟨r, b, hcall, h⟩ := reserve_transition ha start pages
      exact ⟨_, b, congrArg (Option.map _) hcall, h⟩
  | free frame =>
      obtain ⟨r, b, hcall, h⟩ := free_transition ha frame
      exact ⟨_, b, congrArg (Option.map _) hcall, h⟩
  | available => exact ⟨_, a, congrArg (Option.map _) (available_eq ha), .counted⟩

/-- Calls change neither the region nor the validity of the allocator. -/
theorem Transition.valid (h : Transition a op r b) (ha : a.Valid) :
    b.Valid ∧ b.base = a.base ∧ b.frameCount = a.frameCount := by
  cases h with
  | allocated hi hfree hfirst hb =>
      exact ⟨hb.valid ha (Nat.mod_lt _ ha.pos), hb.base, hb.frameCount⟩
  | reserved hstart hend hb => exact ⟨hb.valid ha ha.hint, hb.base, hb.frameCount⟩
  | freed hi hused hb =>
      exact ⟨hb.valid ha (min_lt_of_right_lt ha.hint), hb.base, hb.frameCount⟩
  | _ => exact ⟨ha, rfl, rfl⟩

end Step

end Aegis.Memory
