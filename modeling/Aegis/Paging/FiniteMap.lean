import Mathlib
import Aegis.Foundation.History
import Aegis.Foundation.Slots
import Aegis.Paging.Policy

/-!
# An address space is an insert-once map

`accepted` is what an address space is for: the mappings that `map` took, in the order in
which it took them.  The slots hold the same mappings in some order, and no virtual address
twice (`Holds`).  So the search through the slots answers with the first mapping accepted
for an address, a slot is free as long as fewer mappings have been accepted than there are
slots, and what has been accepted stays.
-/

namespace Aegis.Paging

open Foundation

variable {MAPPINGS : ℕ} {space space' : AddressSpace MAPPINGS} {mapping : Mapping}
  {r : Except MapError Unit}

/-- A call of `map` and what it did. -/
abbrev MapEvent (MAPPINGS : ℕ) := Event (AddressSpace MAPPINGS) Mapping (Except MapError Unit)

/-- The mappings that `map` accepted, oldest first. -/
def accepted (es : List (MapEvent MAPPINGS)) : List Mapping :=
  es.filterMap fun ev => if ev.result = .ok () then some ev.op else none

/-- The first mapping accepted for the address. -/
def firstAccepted (es : List (MapEvent MAPPINGS)) (virtualAddress : BitVec 64) : Option Mapping :=
  (accepted es).find? fun entry => entry.virtualAddress = virtualAddress

section Accepted

variable {es : List (MapEvent MAPPINGS)} {ev : MapEvent MAPPINGS}

theorem accepted_snoc_ok (h : ev.result = .ok ()) :
    accepted (es ++ [ev]) = accepted es ++ [ev.op] := by
  simp [accepted, h]

theorem accepted_snoc_error (h : ev.result ≠ .ok ()) : accepted (es ++ [ev]) = accepted es := by
  simp [accepted, h]

/-- What comes first stays first. -/
theorem firstAccepted_append (future : List (MapEvent MAPPINGS)) {virtualAddress : BitVec 64}
    (h : firstAccepted es virtualAddress = some mapping) :
    firstAccepted (es ++ future) virtualAddress = some mapping := by
  rw [firstAccepted] at h
  rw [firstAccepted, accepted, List.filterMap_append, List.find?_append]
  exact Option.or_eq_some_iff.mpr (.inl h)

end Accepted

/-! ## The slots -/

theorem stored_new : (AddressSpace.new : AddressSpace MAPPINGS).stored = [] := by
  rw [AddressSpace.stored, AddressSpace.new, Vector.toList_replicate,
    List.reduceOption_replicate_none]

theorem stored_set {slot : ℕ} (hlt : slot < MAPPINGS) (hslot : space.mappings[slot] = none) :
    (AddressSpace.mk (space.mappings.set slot (some mapping))).stored.Perm
      (mapping :: space.stored) := by
  rw [AddressSpace.stored, Vector.toList_set]
  apply reduceOption_set_perm
  rw [List.getElem?_eq_getElem (by rw [Vector.length_toList]; exact hlt), Vector.getElem_toList,
    hslot]

/-- The slots are used up exactly when as many mappings are stored as there are slots. -/
theorem stored_length_eq_iff : space.stored.length = MAPPINGS ↔
    ∀ (slot : ℕ) (_ : slot < MAPPINGS), space.mappings[slot] ≠ none := by
  have hlength : space.mappings.toList.length = MAPPINGS := Vector.length_toList
  conv_lhs => rhs; rw [← hlength]
  rw [AddressSpace.stored, List.reduceOption_length_eq_iff]
  constructor
  · intro h slot hlt hnone
    have hsome := h space.mappings[slot] (Vector.mem_toList_iff.mpr (Vector.getElem_mem hlt))
    rw [hnone] at hsome
    cases hsome
  · intro h x hx
    obtain ⟨slot, hlt, rfl⟩ := Vector.mem_iff_getElem.mp (Vector.mem_toList_iff.mp hx)
    exact Option.isSome_iff_ne_none.mpr (h slot hlt)

/-! ## The map -/

/-- The slots hold the mappings `log`, which have different virtual addresses. -/
structure Holds (log : List Mapping) (space : AddressSpace MAPPINGS) : Prop where
  perm : space.stored.Perm log
  keyed : Keyed Mapping.virtualAddress log

/-- What a call does to the map `log`. -/
structure Inserts (log : List Mapping) (ev : MapEvent MAPPINGS) : Prop where
  lookup (virtualAddress : BitVec 64) : ev.before.mappingAt virtualAddress =
    log.find? fun entry => entry.virtualAddress = virtualAddress
  rejected : ev.result ≠ .ok () → ev.after = ev.before
  full : Admissible ev.op → ev.before.mappingAt ev.op.virtualAddress = none →
    (ev.result = .error .mapFull ↔ log.length = MAPPINGS) ∧
      (ev.result = .ok () ↔ log.length ≠ MAPPINGS)

section Holds

variable {log : List Mapping}

theorem Holds.start : Holds [] (AddressSpace.new : AddressSpace MAPPINGS) :=
  ⟨by rw [stored_new], Keyed.nil⟩

theorem Holds.mappingAt_eq (h : Holds log space) (virtualAddress : BitVec 64) :
    space.mappingAt virtualAddress =
      log.find? fun entry => entry.virtualAddress = virtualAddress :=
  h.keyed.find?_perm h.perm virtualAddress

theorem Holds.full_iff (h : Holds log space) : log.length = MAPPINGS ↔
    ∀ (slot : ℕ) (_ : slot < MAPPINGS), space.mappings[slot] ≠ none := by
  rw [← h.perm.length_eq, stored_length_eq_iff]

theorem MapTransition.rejected (h : MapTransition space mapping r space') (hr : r ≠ .ok ()) :
    space' = space := by
  cases h with
  | stored => exact absurd rfl hr
  | _ => rfl

/-- **One call**: the slots hold what has been accepted, with what the call accepts. -/
theorem MapTransition.holds (h : MapTransition space mapping r space')
    {es : List (MapEvent MAPPINGS)} (hspace : Holds (accepted es) space) :
    Holds (accepted (es ++ [⟨space, mapping, r, space'⟩])) space' := by
  cases h with
  | @stored slot hlt hmapping hunmapped hslot =>
      rw [accepted_snoc_ok rfl]
      constructor
      · calc List.Perm _ (mapping :: space.stored) := stored_set hlt hslot
          List.Perm _ (mapping :: accepted es) := hspace.perm.cons mapping
          List.Perm _ (accepted es ++ [mapping]) := (List.perm_append_singleton _ _).symm
      · exact hspace.keyed.snoc fun entry hentry =>
          hunmapped entry (hspace.perm.mem_iff.mpr hentry)
  | _ =>
      rw [accepted_snoc_error (by exact nofun)]
      exact hspace

/-- A mapping that passes the checks, for an address that is not mapped, is rejected only
for want of a slot. -/
theorem MapTransition.rejected_iff_full (h : MapTransition space mapping r space')
    (hspace : Holds log space) (hadm : Admissible mapping)
    (hnone : space.mappingAt mapping.virtualAddress = none) :
    (r = .error .mapFull ↔ log.length = MAPPINGS) ∧ (r = .ok () ↔ log.length ≠ MAPPINGS) := by
  cases h with
  | inadmissible h => exact absurd hadm h
  | alreadyMapped _ hentry hsame =>
      exact absurd (decide_eq_true hsame) (List.find?_eq_none.mp hnone _ hentry)
  | full _ _ hfull => simp [hspace.full_iff.mpr hfull]
  | @stored slot hlt _ _ hslot =>
      have hfree : log.length ≠ MAPPINGS := fun hlength =>
        hspace.full_iff.mp hlength slot hlt hslot
      simp [hfree]

end Holds

theorem Holds.exec (ops : List Mapping) :
    ∃ es space, (spaceMachine MAPPINGS).exec AddressSpace.new ops = some (es, space) ∧
      Holds (accepted es) space ∧ AtEach es fun past ev =>
        Inserts (accepted past) ev ∧ Holds (accepted (past ++ [ev])) ev.after := by
  refine Machine.exec_of_invariant
    (fun es space => Holds (accepted es) space ∧ AtEach es fun past ev =>
      Inserts (accepted past) ev ∧ Holds (accepted (past ++ [ev])) ev.after)
    ⟨Holds.start, AtEach.nil⟩ ?_ ops
  rintro es space mapping ⟨hspace, hevents⟩
  obtain ⟨r, space', hstep, htrans⟩ := map_transition space mapping
  have hnext := htrans.holds hspace
  exact ⟨r, space', hstep, hnext, hevents.snoc
    ⟨⟨hspace.mappingAt_eq, htrans.rejected, htrans.rejected_iff_full hspace⟩, hnext⟩⟩

/-- **An address space is an insert-once finite map.**  After any sequence of calls from
`new()`, `mapping_at` answers with the first mapping accepted for the address.  At each call
on the way that was so as well, and an answer given then is the answer at the end; a
rejected call changed nothing; and a mapping that passed the checks, for an address not yet
mapped, was rejected, with `MapFull`, exactly if `MAPPINGS` mappings had been accepted. -/
theorem address_space_insert_once (MAPPINGS : ℕ) (ops : List Mapping) :
    ∃ es space, (spaceMachine MAPPINGS).exec AddressSpace.new ops = some (es, space) ∧
      (∀ virtualAddress, space.mappingAt virtualAddress = firstAccepted es virtualAddress) ∧
      AtEach es fun past ev =>
        Inserts (accepted past) ev ∧
        ∀ virtualAddress mapping, ev.before.mappingAt virtualAddress = some mapping →
          ev.after.mappingAt virtualAddress = some mapping ∧
          space.mappingAt virtualAddress = some mapping := by
  obtain ⟨es, space, hexec, hspace, hevents⟩ := @Holds.exec MAPPINGS ops
  refine ⟨es, space, hexec, hspace.mappingAt_eq, ?_⟩
  intro past ev future heq
  obtain ⟨hinserts, hafter⟩ := hevents past ev future heq
  refine ⟨hinserts, fun virtualAddress mapping hbefore => ?_⟩
  have hfirst : firstAccepted past virtualAddress = some mapping :=
    (hinserts.lookup virtualAddress).symm.trans hbefore
  constructor
  · rw [hafter.mappingAt_eq]
    exact firstAccepted_append [ev] hfirst
  · rw [hspace.mappingAt_eq, heq]
    exact firstAccepted_append (ev :: future) hfirst

end Aegis.Paging
