import Mathlib
import Aegis.Foundation.Overwrite

/-!
# Actions with disjoint footprints commute

A state is read as a family of cells.  An action is local to a set of cells at a state
if it does the same from every state that agrees there: it returns the same value and
makes the same writes, all of them inside the set.  Which cells those are may depend on
the state; two actions whose cells are disjoint at one state commute there, and the
state they lead to is the same in every cell.
-/

namespace Foundation

variable {ι V σ ρ : Type*} [DecidableEq ι]

/-- From every state that agrees with `s` on `F`, the action returns `r` and makes the
same writes, inside `F`. -/
def LocalAt (cell : σ → ι → V) (act : σ → Option (ρ × σ)) (F : Set ι) (s : σ) (r : ρ) : Prop :=
  ∃ writes : List (ι × V), (∀ write ∈ writes, write.1 ∈ F) ∧
    ∀ t, Set.EqOn (cell t) (cell s) F →
      ∃ t', act t = some (r, t') ∧ cell t' = overwrite (cell t) writes

namespace LocalAt

variable {cell : σ → ι → V} {act act' : σ → Option (ρ × σ)} {F G : Set ι} {s : σ} {r r' : ρ}

/-- Writes inside a set do not show outside it. -/
theorem eqOn_overwrite {f : ι → V} {writes : List (ι × V)} (h : ∀ write ∈ writes, write.1 ∈ F)
    (disjoint : Disjoint F G) : Set.EqOn (overwrite f writes) f G := by
  intro i hi
  refine overwrite_of_notMem fun write hwrite heq => ?_
  exact Set.disjoint_left.mp disjoint (h write hwrite) (heq ▸ hi)

/-- **Actions with disjoint footprints commute**: both orders return the same two values
and lead to the same state. -/
theorem commute (ext : Function.Injective cell) (h : LocalAt cell act F s r)
    (h' : LocalAt cell act' G s r') (disjoint : Disjoint F G) :
    ∃ s₁ s₂ u, act s = some (r, s₁) ∧ act' s₁ = some (r', u) ∧
      act' s = some (r', s₂) ∧ act s₂ = some (r, u) := by
  obtain ⟨writes, inside, hact⟩ := h
  obtain ⟨writes', inside', hact'⟩ := h'
  obtain ⟨s₁, hs₁, hcell₁⟩ := hact s (Set.eqOn_refl _ _)
  obtain ⟨s₂, hs₂, hcell₂⟩ := hact' s (Set.eqOn_refl _ _)
  obtain ⟨u, hu, hcell⟩ := hact' s₁ (by rw [hcell₁]; exact eqOn_overwrite inside disjoint)
  obtain ⟨u', hu', hcell'⟩ := hact s₂ (by rw [hcell₂]; exact eqOn_overwrite inside' disjoint.symm)
  have hsame : u' = u := by
    refine ext ?_
    rw [hcell, hcell', hcell₁, hcell₂]
    refine (overwrite_comm _ fun write hwrite write' hwrite' heq => ?_).symm
    exact Set.disjoint_left.mp disjoint (inside write hwrite) (heq ▸ inside' write' hwrite')
  exact ⟨s₁, s₂, u, hs₁, hu, hs₂, hsame ▸ hu'⟩

end LocalAt

end Foundation
