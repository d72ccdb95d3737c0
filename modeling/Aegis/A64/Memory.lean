import Mathlib
import Aegis.A64.Machine

/-!
# Words in a row

Arrays of words in memory, and straight lines of code that save registers to the stack or
restore them: such a line makes one write for each register, whatever the order and
whether it moves them one at a time or in pairs.
-/

namespace A64

open Foundation

/-- The address of a word in an array. -/
def wordAt (base : Word) (i : ℕ) : Word := base + BitVec.ofNat 64 (8 * i)

/-- The address of a word before the end of the address space. -/
theorem toNat_wordAt {base : Word} {i : ℕ} (h : base.toNat + 8 * i < 2 ^ 64) :
    (wordAt base i).toNat = base.toNat + 8 * i := by
  rw [wordAt, BitVec.toNat_add, BitVec.toNat_ofNat, Nat.add_mod_mod, Nat.mod_eq_of_lt h]

theorem wordAt_injective {base : Word} {i j : ℕ} (hi : i < 2 ^ 61) (hj : j < 2 ^ 61)
    (h : wordAt base i = wordAt base j) : i = j := by
  have h' : BitVec.ofNat 64 (8 * i) = BitVec.ofNat 64 (8 * j) := by
    simpa [wordAt] using h
  have hnat := congrArg BitVec.toNat h'
  rw [BitVec.toNat_ofNat, BitVec.toNat_ofNat, Nat.mod_eq_of_lt (by omega),
    Nat.mod_eq_of_lt (by omega)] at hnat
  omega

theorem Aligned.add {a b : Word} (ha : Aligned a) (hb : Aligned b) : Aligned (a + b) := by
  obtain ⟨i, hi⟩ := ha
  obtain ⟨j, hj⟩ := hb
  show 8 ∣ (a + b).toNat
  rw [BitVec.toNat_add, hi, hj]
  omega

theorem Aligned.sub {a b : Word} (ha : Aligned a) (hb : Aligned b) : Aligned (a - b) := by
  obtain ⟨i, hi⟩ := ha
  obtain ⟨j, hj⟩ := hb
  show 8 ∣ (a - b).toNat
  rw [BitVec.toNat_sub, hi, hj]
  omega

theorem Aligned.wordAt {base : Word} (h : Aligned base) (i : ℕ) : Aligned (wordAt base i) := by
  refine h.add ?_
  show 8 ∣ (BitVec.ofNat 64 (8 * i)).toNat
  rw [BitVec.toNat_ofNat]
  omega

/-! ## Saving registers -/

/-- The stack offsets that an instruction stores to, and the registers it stores. -/
def Instr.stores : Instr → Option (List (Word × Reg))
  | .stp t u offset => some [(offset, t), (offset + 8#64, u)]
  | .str (.x t) (.offset .sp offset) => some [(offset, t)]
  | _ => none

/-- What a straight line of stores saves, and where. -/
def storesOf : List Instr → Option (List (Word × Reg))
  | [] => some []
  | i :: is => i.stores.bind fun l => (storesOf is).map fun ls => l ++ ls

/-- The memory after some registers have been saved. -/
def State.save (s : State) (l : List (Word × Reg)) : State :=
  { s with memory := overwrite s.memory (l.map fun p => (s.sp + p.1, s.x p.2)) }

theorem State.save_append (s : State) (l l' : List (Word × Reg)) :
    (s.save l).save l' = s.save (l ++ l') := by
  simp only [save, List.map_append, overwrite_append]

theorem Instr.exec_stores {i : Instr} {l : List (Word × Reg)} {s : State}
    (h : i.stores = some l) (aligned : ∀ p ∈ l, Aligned (s.sp + p.1)) :
    i.exec s = some (s.save l) := by
  unfold stores at h
  split at h
  · next t u offset =>
      cases h
      have hfirst : Aligned (s.sp + offset) := aligned (offset, t) (by simp)
      have hsecond : Aligned (s.sp + (offset + 8#64)) := aligned (offset + 8#64, u) (by simp)
      simp [exec, State.store, State.save, hfirst, hsecond]
  · next t offset =>
      cases h
      have hfirst : Aligned (s.sp + offset) := aligned (offset, t) (by simp)
      simp [exec, State.store, State.save, State.address, State.base, State.source,
        State.moveBase, hfirst]
  · cases h

/-- A straight line of stores saves what its instructions store. -/
theorem execBlock_stores {is : List Instr} {l : List (Word × Reg)} {s : State}
    (h : storesOf is = some l) (aligned : ∀ p ∈ l, Aligned (s.sp + p.1)) :
    execBlock is s = some (s.save l) := by
  induction is generalizing s l with
  | nil =>
      cases h
      rfl
  | cons i is ih =>
      rw [storesOf, Option.bind_eq_some_iff] at h
      obtain ⟨first, hfirst, h⟩ := h
      rw [Option.map_eq_some_iff] at h
      obtain ⟨rest, hrest, rfl⟩ := h
      rw [List.forall_mem_append] at aligned
      rw [execBlock_cons (Instr.exec_stores hfirst aligned.1), ← State.save_append]
      exact ih hrest aligned.2

/-! ## Restoring registers -/

/-- The stack offsets that an instruction loads from, and the registers it loads. -/
def Instr.loads : Instr → Option (List (Word × Reg))
  | .ldp t u offset => some [(offset, t), (offset + 8#64, u)]
  | .ldr t (.offset .sp offset) => some [(offset, t)]
  | _ => none

/-- What a straight line of loads restores, and from where. -/
def loadsOf : List Instr → Option (List (Word × Reg))
  | [] => some []
  | i :: is => i.loads.bind fun l => (loadsOf is).map fun ls => l ++ ls

/-- The registers after some of them have been restored. -/
def State.restore (s : State) (l : List (Word × Reg)) : State :=
  { s with x := overwrite s.x (l.map fun p => (p.2, s.memory (s.sp + p.1))) }

theorem State.restore_append (s : State) (l l' : List (Word × Reg)) :
    (s.restore l).restore l' = s.restore (l ++ l') := by
  simp only [restore, List.map_append, overwrite_append]

theorem Instr.exec_loads {i : Instr} {l : List (Word × Reg)} {s : State}
    (h : i.loads = some l) (aligned : ∀ p ∈ l, Aligned (s.sp + p.1)) :
    i.exec s = some (s.restore l) := by
  unfold loads at h
  split at h
  · next t u offset =>
      cases h
      have hfirst : Aligned (s.sp + offset) := aligned (offset, t) (by simp)
      have hsecond : Aligned (s.sp + (offset + 8#64)) := aligned (offset + 8#64, u) (by simp)
      simp [exec, State.load, State.restore, State.set, hfirst, hsecond]
  · next t offset =>
      cases h
      have hfirst : Aligned (s.sp + offset) := aligned (offset, t) (by simp)
      simp [exec, State.load, State.restore, State.set, State.address, State.base,
        State.moveBase, hfirst]
  · cases h

/-- A straight line of loads restores what its instructions load. -/
theorem execBlock_loads {is : List Instr} {l : List (Word × Reg)} {s : State}
    (h : loadsOf is = some l) (aligned : ∀ p ∈ l, Aligned (s.sp + p.1)) :
    execBlock is s = some (s.restore l) := by
  induction is generalizing s l with
  | nil =>
      cases h
      rfl
  | cons i is ih =>
      rw [loadsOf, Option.bind_eq_some_iff] at h
      obtain ⟨first, hfirst, h⟩ := h
      rw [Option.map_eq_some_iff] at h
      obtain ⟨rest, hrest, rfl⟩ := h
      rw [List.forall_mem_append] at aligned
      rw [execBlock_cons (Instr.exec_loads hfirst aligned.1), ← State.restore_append]
      exact ih hrest aligned.2

end A64
