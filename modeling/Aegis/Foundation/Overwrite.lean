import Mathlib

/-!
# Sequences of writes

A family of cells, and what is in them after writes to some of them.
-/

namespace Foundation

variable {ι V : Type*} [DecidableEq ι]

/-- The cells after a sequence of writes. -/
def overwrite (f : ι → V) (writes : List (ι × V)) : ι → V :=
  writes.foldl (fun f write => Function.update f write.1 write.2) f

@[simp] theorem overwrite_nil (f : ι → V) : overwrite f [] = f := rfl

@[simp] theorem overwrite_cons (f : ι → V) (i : ι) (v : V) (writes : List (ι × V)) :
    overwrite f ((i, v) :: writes) = overwrite (Function.update f i v) writes := rfl

/-- Cells that are not written keep their contents. -/
theorem overwrite_of_notMem {f : ι → V} {writes : List (ι × V)} {i : ι}
    (h : ∀ write ∈ writes, write.1 ≠ i) : overwrite f writes i = f i := by
  induction writes generalizing f with
  | nil => rfl
  | cons write writes ih =>
      rw [List.forall_mem_cons] at h
      rw [overwrite_cons, ih h.2, Function.update_of_ne h.1.symm]

/-- One write can be made before or after writes to other cells. -/
theorem overwrite_update {f : ι → V} {writes : List (ι × V)} {i : ι} {v : V}
    (h : ∀ write ∈ writes, write.1 ≠ i) :
    overwrite (Function.update f i v) writes = Function.update (overwrite f writes) i v := by
  induction writes generalizing f with
  | nil => rfl
  | cons write writes ih =>
      rw [List.forall_mem_cons] at h
      rw [overwrite_cons, overwrite_cons, Function.update_comm h.1.symm, ih h.2]

/-- Writes to different cells commute. -/
theorem overwrite_comm (f : ι → V) {writes writes' : List (ι × V)}
    (h : ∀ write ∈ writes, ∀ write' ∈ writes', write'.1 ≠ write.1) :
    overwrite (overwrite f writes) writes' = overwrite (overwrite f writes') writes := by
  induction writes generalizing f with
  | nil => rfl
  | cons write writes ih =>
      rw [List.forall_mem_cons] at h
      rw [overwrite_cons, overwrite_cons, ih _ h.2, overwrite_update h.1]

section Sum

variable {κ W : Type*} [DecidableEq κ]

theorem map_update_inl (f : ι → V) (g : κ → W) (i : ι) (v : V) :
    Sum.map (Function.update f i v) g = Function.update (Sum.map f g) (.inl i) (.inl v) := by
  funext c
  cases c with
  | inl j =>
      rcases eq_or_ne j i with rfl | hj
      · simp
      · simp [hj]
  | inr k => simp

theorem map_update_inr (f : ι → V) (g : κ → W) (k : κ) (w : W) :
    Sum.map f (Function.update g k w) = Function.update (Sum.map f g) (.inr k) (.inr w) := by
  funext c
  cases c with
  | inl i => simp
  | inr l =>
      rcases eq_or_ne l k with rfl | hl
      · simp
      · simp [hl]

/-- Writes to two families of cells are writes to the cells of both. -/
theorem map_overwrite (f : ι → V) (g : κ → W) (writes : List (ι × V)) (writes' : List (κ × W)) :
    Sum.map (overwrite f writes) (overwrite g writes') =
      overwrite (Sum.map f g)
        (writes.map (Prod.map .inl .inl) ++ writes'.map (Prod.map .inr .inr)) := by
  induction writes generalizing f with
  | cons write writes ih =>
      rw [overwrite_cons, ih, map_update_inl]
      rfl
  | nil =>
      induction writes' generalizing g with
      | nil => rfl
      | cons write writes' ih =>
          rw [overwrite_cons, ih, map_update_inr]
          rfl

end Sum

/-- Writes are made one after the other. -/
theorem overwrite_append (f : ι → V) (writes writes' : List (ι × V)) :
    overwrite f (writes ++ writes') = overwrite (overwrite f writes) writes' :=
  List.foldl_append

/-- What is written to a cell that is written once can be read from it. -/
theorem overwrite_of_mem {f : ι → V} {writes : List (ι × V)} {i : ι} {v : V}
    (nodup : (writes.map Prod.fst).Nodup) (h : (i, v) ∈ writes) : overwrite f writes i = v := by
  induction writes generalizing f with
  | nil => cases h
  | cons write writes ih =>
      rw [List.map_cons, List.nodup_cons] at nodup
      rcases List.mem_cons.mp h with rfl | h
      · have hlater : ∀ write ∈ writes, write.1 ≠ i := by
          rintro write hwrite rfl
          exact nodup.1 (List.mem_map.mpr ⟨write, hwrite, rfl⟩)
        rw [overwrite_cons, overwrite_of_notMem hlater, Function.update_self]
      · exact ih nodup.2 h

/-- What is written to a family of different cells can be read from them. -/
theorem overwrite_family {n : ℕ} (f : ι → V) {key : Fin n → ι} (inj : Function.Injective key)
    (value : Fin n → V) (j : Fin n) :
    overwrite f ((List.finRange n).map fun i => (key i, value i)) (key j) = value j := by
  refine overwrite_of_mem ?_ (List.mem_map.mpr ⟨j, List.mem_finRange j, rfl⟩)
  rw [List.map_map]
  exact (List.nodup_finRange n).map inj

end Foundation
