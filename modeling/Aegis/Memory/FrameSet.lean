import Mathlib
import Aegis.Foundation.History
import Aegis.Memory.Transition

/-!
# The allocator as a finite set of addresses

What a client of the allocator sees are addresses and its own history: `inUse es` is the
set of addresses that the successful calls in `es` put in (`allocate`, `reserve`) and did
not take out again (`free`).  Nothing of the allocator's state enters into it.

The allocator keeps exactly this set (`Transition.addresses`), and so every answer it
gives is determined by it: `Answers` is the contract of the finite-set allocator.  The
region must not reach beyond the end of the address space; otherwise frames have
addresses that `indexOf` does not find.
-/

namespace Aegis.Memory

open Foundation FrameAllocator

variable {WORDS : ℕ}

/-! ## The history of calls -/

/-- The addresses of the `pages` frames from `start` on. -/
def pagesFrom (start : BitVec 64) (pages : ℕ) : Finset (BitVec 64) :=
  (Finset.range pages).image fun k => start + BitVec.ofNat 64 k * PAGE_SIZE

/-- What a successful `allocate` hands out. -/
def allocates (ev : FrameEvent WORDS) : Finset (BitVec 64) :=
  match ev.op, ev.result with
  | .allocate, .allocated (.ok frame) => {frame.physicalAddress}
  | _, _ => ∅

/-- What a successful `reserve` covers. -/
def reserves (ev : FrameEvent WORDS) : Finset (BitVec 64) :=
  match ev.op, ev.result with
  | .reserve start pages, .done (.ok _) => pagesFrom start pages
  | _, _ => ∅

/-- What a successful `free` gives back. -/
def frees (ev : FrameEvent WORDS) : Finset (BitVec 64) :=
  match ev.op, ev.result with
  | .free frame, .done (.ok _) => {frame.physicalAddress}
  | _, _ => ∅

/-- The addresses in use after these calls. -/
def inUse (es : List (FrameEvent WORDS)) : Finset (BitVec 64) :=
  outstanding (fun ev => allocates ev ∪ reserves ev) frees es

/-! ## The set the allocator keeps -/

section Addresses

variable {a b : FrameAllocator WORDS} {op : FrameOp} {r : FrameResult} {i : ℕ}
  {address : BitVec 64}

/-- The addresses of the frames whose bit is set. -/
def FrameAllocator.addresses (a : FrameAllocator WORDS) : Finset (BitVec 64) :=
  a.usedFrames.image a.frameAt

theorem FrameAllocator.Becomes.addresses {used : Finset ℕ} {hint : ℕ}
    (h : a.Becomes b used hint) : b.addresses = used.image a.frameAt := by
  have hframeAt : b.frameAt = a.frameAt := by
    funext i
    rw [frameAt, frameAt, h.base]
  rw [FrameAllocator.addresses, h.usedFrames, hframeAt]

theorem FrameAllocator.Valid.frameAt_mem_addresses (ha : a.Valid) (hi : i < a.frameCount) :
    a.frameAt i ∈ a.addresses ↔ i ∈ a.usedFrames := by
  refine ⟨fun h => ?_, Finset.mem_image_of_mem _⟩
  obtain ⟨j, hj, hij⟩ := Finset.mem_image.mp h
  have hji := ha.frameAt_inj (Finset.mem_range.mp (usedFrames_subset hj)) hi hij
  exact hji ▸ hj

/-- Where `indexOf` finds a frame, the address is that frame's. -/
theorem FrameAllocator.Valid.eq_frameAt (ha : a.Valid) (h : a.indexOf address = .ok i) :
    address = a.frameAt i := by
  obtain ⟨-, heq⟩ := ha.indexOf_eq_ok.mp h
  have hlt := address.isLt
  rw [← BitVec.toNat_inj, toNat_frameAt, heq, Nat.mod_eq_of_lt (heq ▸ hlt)]

/-- Consecutive frames have consecutive addresses. -/
theorem frameAt_add (a : FrameAllocator WORDS) (i k : ℕ) :
    a.frameAt (i + k) = a.frameAt i + BitVec.ofNat 64 k * PAGE_SIZE := by
  rw [frameAt, frameAt, BitVec.ofNat_add, BitVec.add_mul, BitVec.add_assoc]

theorem image_frameAt_Ico (a : FrameAllocator WORDS) (first pages : ℕ) :
    (Finset.Ico first (first + pages)).image a.frameAt = pagesFrom (a.frameAt first) pages := by
  have hIco : Finset.Ico first (first + pages) = (Finset.range pages).image (first + ·) := by
    rw [Finset.range_eq_Ico, Finset.image_add_left_Ico, add_zero]
  rw [pagesFrom, hIco, Finset.image_image]
  apply Finset.image_congr
  intro k _
  exact frameAt_add a first k

/-- **The allocator keeps the set of addresses in use**: every call changes it the way
the client's record changes. -/
theorem Transition.addresses (h : Transition a op r b) (ha : a.Valid) :
    b.addresses = a.addresses \ frees (⟨a, op, r, b⟩ : FrameEvent WORDS) ∪
      (allocates (⟨a, op, r, b⟩ : FrameEvent WORDS) ∪
        reserves (⟨a, op, r, b⟩ : FrameEvent WORDS)) := by
  cases h with
  | @allocated i b hi hfree hfirst hb =>
      show _ = a.addresses \ ∅ ∪ ({a.frameAt i} ∪ ∅)
      rw [hb.addresses, Finset.image_insert, Finset.sdiff_empty, Finset.union_empty,
        Finset.union_comm]
      rfl
  | @reserved start pages first b hstart hend hb =>
      show _ = a.addresses \ ∅ ∪ (∅ ∪ pagesFrom start pages)
      rw [hb.addresses, Finset.image_union, image_frameAt_Ico, ← ha.eq_frameAt hstart,
        Finset.sdiff_empty, Finset.empty_union]
      rfl
  | @freed frame i b hi hused hb =>
      show _ = a.addresses \ {frame.physicalAddress} ∪ (∅ ∪ ∅)
      have hinj : Set.InjOn a.frameAt a.usedFrames := fun j hj k hk hjk =>
        ha.frameAt_inj (Finset.mem_range.mp (usedFrames_subset hj))
          (Finset.mem_range.mp (usedFrames_subset hk)) hjk
      rw [hb.addresses, ha.eq_frameAt hi, ← Finset.sdiff_singleton_eq_erase,
        Finset.image_sdiff_of_injOn hinj (Finset.singleton_subset_iff.mpr hused),
        Finset.image_singleton, Finset.union_empty, Finset.union_empty]
      rfl
  | _ => simp [frees, allocates, reserves]

end Addresses

/-! ## The contract -/

/-- The address of a frame between `base` and `base + bytes`. -/
def InRegion (base bytes address : BitVec 64) : Prop :=
  address.toNat % 4096 = 0 ∧ base.toNat ≤ address.toNat ∧
    address.toNat < base.toNat + bytes.toNat

/-- What the finite-set allocator answers while `used` is the set of addresses in use. -/
def Answers (base bytes : BitVec 64) (used : Finset (BitVec 64)) (op : FrameOp)
    (r : FrameResult) : Prop :=
  match op with
  | .allocate => ∃ result, r = .allocated result ∧
      (∀ frame, result = .ok frame →
        InRegion base bytes frame.physicalAddress ∧ frame.physicalAddress ∉ used) ∧
      (∀ e, result = .error e → e = .outOfMemory) ∧
      (result = .error .outOfMemory ↔ ∀ address, InRegion base bytes address → address ∈ used)
  | .reserve start pages => ∃ result, r = .done result ∧
      (result = .ok () ↔ InRegion base bytes start ∧
        start.toNat + pages * 4096 ≤ base.toNat + bytes.toNat)
  | .free frame => ∃ result, r = .done result ∧
      (result = .ok () ↔ frame.physicalAddress ∈ used) ∧
      (result = .error .doubleFree ↔
        InRegion base bytes frame.physicalAddress ∧ frame.physicalAddress ∉ used) ∧
      (result = .error .outOfRange ↔ ¬InRegion base bytes frame.physicalAddress)
  | .available => r = .counted (bytes.toNat / 4096 - used.card)

/-- The call returned `Err`. -/
def FrameResult.IsErr : FrameResult → Prop
  | .allocated (.error _) => True
  | .done (.error _) => True
  | _ => False

/-- The allocator serves a call as the finite-set allocator does: it keeps the set of
addresses in use, which lie in the region, answers by that set, and a call that fails
changes nothing. -/
structure ServedBySet (base bytes : BitVec 64) (past : List (FrameEvent WORDS))
    (ev : FrameEvent WORDS) : Prop where
  answers : Answers base bytes (inUse past) ev.op ev.result
  before : ev.before.addresses = inUse past
  after : ev.after.addresses = inUse (past ++ [ev])
  inRegion : ∀ address ∈ inUse past, InRegion base bytes address
  unchanged : ev.result.IsErr → ev.after = ev.before

section Contract

variable {a b : FrameAllocator WORDS} {op : FrameOp} {r : FrameResult} {i : ℕ}
  {bytes address : BitVec 64}

theorem FrameAllocator.Valid.inRegion_iff (ha : a.Valid)
    (hbytes : bytes.toNat = a.frameCount * 4096) :
    InRegion a.base bytes address ↔ ∃ i, a.indexOf address = .ok i := by
  have haligned := ha.aligned
  simp only [ha.indexOf_eq_ok, InRegion, hbytes]
  constructor
  · intro h
    exact ⟨(address.toNat - a.base.toNat) / 4096, by omega, by omega⟩
  · rintro ⟨i, hi, heq⟩
    omega

/-- In a region that ends within the address space no address wraps around. -/
theorem FrameAllocator.Valid.indexOf_frameAt (ha : a.Valid)
    (hfit : a.base.toNat + a.frameCount * 4096 ≤ 2 ^ 64) (hi : i < a.frameCount) :
    a.indexOf (a.frameAt i) = .ok i := by
  rw [ha.indexOf_eq_ok, toNat_frameAt]
  exact ⟨hi, Nat.mod_eq_of_lt (by omega)⟩

theorem FrameAllocator.Valid.mem_addresses (ha : a.Valid) (h : a.indexOf address = .ok i) :
    address ∈ a.addresses ↔ i ∈ a.usedFrames := by
  rw [ha.eq_frameAt h]
  exact ha.frameAt_mem_addresses (ha.indexOf_eq_ok.mp h).1

theorem FrameAllocator.Valid.inRegion_of_mem (ha : a.Valid)
    (hbytes : bytes.toNat = a.frameCount * 4096)
    (hfit : a.base.toNat + bytes.toNat ≤ 2 ^ 64) (h : address ∈ a.addresses) :
    InRegion a.base bytes address := by
  obtain ⟨i, hi, rfl⟩ := Finset.mem_image.mp h
  have hlt := Finset.mem_range.mp (usedFrames_subset hi)
  exact (ha.inRegion_iff hbytes).mpr ⟨i, ha.indexOf_frameAt (hbytes ▸ hfit) hlt⟩

theorem FrameAllocator.Valid.card_addresses (ha : a.Valid) :
    a.addresses.card = a.usedFrames.card := by
  apply Finset.card_image_of_injOn
  intro j hj k hk hjk
  exact ha.frameAt_inj (Finset.mem_range.mp (usedFrames_subset hj))
    (Finset.mem_range.mp (usedFrames_subset hk)) hjk

theorem Transition.answers (h : Transition a op r b) (ha : a.Valid)
    (hbytes : bytes.toNat = a.frameCount * 4096)
    (hfit : a.base.toNat + bytes.toNat ≤ 2 ^ 64) :
    Answers a.base bytes a.addresses op r := by
  have hregion : ∀ {x : BitVec 64}, InRegion a.base bytes x ↔ ∃ i, a.indexOf x = .ok i :=
    ha.inRegion_iff hbytes
  cases h with
  | @allocated i b hi hfree hfirst hb =>
      have hindex := ha.indexOf_frameAt (hbytes ▸ hfit) hi
      have hunused : a.frameAt i ∉ a.addresses := by rwa [ha.frameAt_mem_addresses hi]
      refine ⟨_, rfl, ?_, ?_, ?_⟩
      · rintro frame ⟨⟩
        exact ⟨hregion.mpr ⟨i, hindex⟩, hunused⟩
      · rintro e ⟨⟩
      · simp only [reduceCtorEq, false_iff]
        intro hall
        exact hunused (hall _ (hregion.mpr ⟨i, hindex⟩))
  | exhausted hfull =>
      refine ⟨_, rfl, ?_, ?_, ?_⟩
      · rintro frame ⟨⟩
      · rintro e ⟨⟩
        rfl
      · simp only [true_iff]
        intro address haddress
        obtain ⟨i, hi⟩ := hregion.mp haddress
        rw [ha.mem_addresses hi, hfull, Finset.mem_range]
        exact (ha.indexOf_eq_ok.mp hi).1
  | @reserved start pages first b hstart hend hb =>
      refine ⟨_, rfl, ?_⟩
      obtain ⟨-, heq⟩ := ha.indexOf_eq_ok.mp hstart
      simp only [true_iff]
      exact ⟨hregion.mpr ⟨first, hstart⟩, by omega⟩
  | notReserved hrange he =>
      refine ⟨_, rfl, ?_⟩
      simp only [reduceCtorEq, false_iff]
      rintro ⟨hstart, hend⟩
      obtain ⟨first, hfirst⟩ := hregion.mp hstart
      have hbeyond := hrange first hfirst
      obtain ⟨-, heq⟩ := ha.indexOf_eq_ok.mp hfirst
      omega
  | freed hi hused hb =>
      have hmem := (ha.mem_addresses hi).mpr hused
      have hin := hregion.mpr ⟨_, hi⟩
      exact ⟨_, rfl, by simp [hmem], by simp [hmem], by simp [hin]⟩
  | doubleFree hi hfree =>
      have hmem := mt (ha.mem_addresses hi).mp hfree
      have hin := hregion.mpr ⟨_, hi⟩
      exact ⟨_, rfl, by simp [hmem], by simp [hmem, hin], by simp [hin]⟩
  | @outOfRange frame hrange =>
      have hout : ¬InRegion a.base bytes frame.physicalAddress := by
        rw [hregion, hrange]
        rintro ⟨i, ⟨⟩⟩
      have hmem := mt (ha.inRegion_of_mem hbytes hfit) hout
      exact ⟨_, rfl, by simp [hmem], by simp [hout], by simp [hout]⟩
  | counted =>
      show FrameResult.counted _ = .counted _
      rw [ha.card_addresses, hbytes, Nat.mul_div_cancel _ (by decide)]

theorem Transition.eq_of_isErr (h : Transition a op r b) (herr : r.IsErr) : b = a := by
  cases h <;> first | rfl | cases herr

end Contract

/-- No address is handed out while it is in use. -/
theorem ServedBySet.notMem_inUse {base bytes address : BitVec 64}
    {past : List (FrameEvent WORDS)} {ev : FrameEvent WORDS}
    (h : ServedBySet base bytes past ev) (hev : address ∈ allocates ev) :
    address ∉ inUse past := by
  have hanswer := h.answers
  rw [allocates] at hev
  split at hev
  · next frame hop hresult =>
      rw [hop, hresult] at hanswer
      obtain ⟨result, hr, hok, -⟩ := hanswer
      cases hr
      rw [Finset.mem_singleton] at hev
      exact hev ▸ (hok frame rfl).2
  · cases hev

/-- **The frame allocator refines a finite-set allocator.**  Whatever the calls, they all
return, and each is served as the set of addresses in use demands.  No frame is handed
out twice without a `free` in between. -/
theorem allocator_refines_set {a : FrameAllocator WORDS} {base bytes : BitVec 64}
    (hnew : FrameAllocator.new base bytes = some (.ok a))
    (hfit : base.toNat + bytes.toNat ≤ 2 ^ 64) (ops : List FrameOp) :
    ∃ es final, (frameMachine a).exec a ops = some (es, final) ∧
      AtEach es (ServedBySet base bytes) ∧
      ∀ past first between second future address,
        es = past ++ first :: (between ++ second :: future) →
        address ∈ allocates first → address ∈ allocates second →
        ∃ ev ∈ between, address ∈ frees ev := by
  obtain ⟨hvalid, hbase, -, hused, hbytes⟩ := FrameAllocator.new_eq_ok hnew
  subst hbase
  -- the allocator stays valid, over the same region, and its set is the client's
  obtain ⟨es, final, hexec, -, -, -, -, heach⟩ := Machine.exec_of_invariant
    (M := frameMachine a) (s := a)
    (fun es t => t.Valid ∧ t.base = a.base ∧ t.frameCount = a.frameCount ∧
      t.addresses = inUse es ∧ AtEach es (ServedBySet a.base bytes))
    ⟨hvalid, rfl, rfl, by rw [FrameAllocator.addresses, hused]; rfl, AtEach.nil⟩
    (fun es t op ⟨ht, hbase, hcount, haddresses, heach⟩ => by
      obtain ⟨r, u, hstep, htrans⟩ := step_transition a ht op
      obtain ⟨hu, hubase, hucount⟩ := htrans.valid ht
      have hafter : u.addresses = inUse (es ++ [⟨t, op, r, u⟩]) := by
        rw [htrans.addresses ht, haddresses, inUse, inUse, outstanding_snoc]
      refine ⟨r, u, hstep, hu, hubase.trans hbase, hucount.trans hcount, hafter,
        heach.snoc ⟨?_, haddresses, hafter, ?_, htrans.eq_of_isErr⟩⟩
      · rw [← hbase, ← haddresses]
        exact htrans.answers ht (hcount ▸ hbytes) (hbase ▸ hfit)
      · rw [← hbase, ← haddresses]
        exact fun address => ht.inRegion_of_mem (hcount ▸ hbytes) (hbase ▸ hfit)) ops
  refine ⟨es, final, hexec, heach, ?_⟩
  intro past first between second future address hes hfirst hsecond
  by_contra hnone
  push Not at hnone
  have hheld : address ∈ inUse (past ++ [first] ++ between) := by
    refine mem_outstanding_append ?_ hnone
    rw [outstanding_snoc, Finset.mem_union, Finset.mem_union]
    exact .inr (.inl hfirst)
  exact (heach (past ++ [first] ++ between) second future (by simp [hes])).notMem_inUse
    hsecond hheld

/-- The last frame of the address space, taken, given back and taken again. -/
theorem allocator_refines_set_top :
    ∃ es final,
      (frameMachine ⟨0xfffffffffffff000, 1, #v[0xfffffffffffffffe], 0⟩).exec
        (⟨0xfffffffffffff000, 1, #v[0xfffffffffffffffe], 0⟩ : FrameAllocator 1)
        [.allocate, .allocate, .free ⟨0xfffffffffffff000⟩, .allocate] = some (es, final) ∧
      AtEach es (ServedBySet 0xfffffffffffff000 0x1000) := by
  have hnew : FrameAllocator.new 0xfffffffffffff000 0x1000 =
      some (.ok (⟨0xfffffffffffff000, 1, #v[0xfffffffffffffffe], 0⟩ : FrameAllocator 1)) := by
    decide +kernel
  obtain ⟨es, final, hexec, heach, -⟩ := allocator_refines_set hnew (by decide) _
  exact ⟨es, final, hexec, heach⟩

end Aegis.Memory
