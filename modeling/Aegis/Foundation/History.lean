import Mathlib
import Aegis.Foundation.Machine

/-!
# Histories

The events of a run, read as its history: the event at index `i` is what happened
at time `i`.  Two notions are enough for the temporal statements about runs:
`At es i p` says that the event at time `i` satisfies `p`, and `Since es i P` that
`P` has held in every state from the one that event `i` led to until now.  Both
survive when the run takes another step, the second one if the new state
satisfies `P`.  `stamped` collects what a family of events says, in order of time, and
`outstanding` what events put in and no later one took out.
-/

namespace Foundation

variable {σ Op Res : Type*} {es : List (Event σ Op Res)} {ev : Event σ Op Res} {i : ℕ}

/-- The event at time `i` satisfies `p`. -/
def At (es : List (Event σ Op Res)) (i : ℕ) (p : Event σ Op Res → Prop) : Prop :=
  ∃ ev, es[i]? = some ev ∧ p ev

/-- Every event from time `i` on satisfies `p`. -/
def Throughout (es : List (Event σ Op Res)) (i : ℕ) (p : Event σ Op Res → Prop) : Prop :=
  ∀ ev ∈ es.drop i, p ev

/-- `P` has held in every state of the run since event `i`. -/
def Since (es : List (Event σ Op Res)) (i : ℕ) (P : σ → Prop) : Prop :=
  Throughout es i fun ev => P ev.after

theorem At.lt_length {p : Event σ Op Res → Prop} (h : At es i p) : i < es.length := by
  obtain ⟨e, he, -⟩ := h
  exact (List.getElem?_eq_some_iff.mp he).1

/-- The past does not change. -/
theorem At.snoc {p : Event σ Op Res → Prop} (h : At es i p) : At (es ++ [ev]) i p := by
  have hi := h.lt_length
  obtain ⟨e, he, hp⟩ := h
  exact ⟨e, by rw [List.getElem?_append_left hi, he], hp⟩

/-- The event just added is the one at time `es.length`. -/
theorem at_length {p : Event σ Op Res → Prop} (h : p ev) : At (es ++ [ev]) es.length p :=
  ⟨ev, by simp, h⟩

theorem Throughout.snoc {p : Event σ Op Res → Prop} (h : Throughout es i p) (hlast : p ev) :
    Throughout (es ++ [ev]) i p := by
  intro e he
  rw [List.drop_append, List.mem_append] at he
  rcases he with he | he
  · exact h e he
  · rw [List.mem_singleton.mp (List.mem_of_mem_drop he)]
    exact hlast

theorem throughout_length {p : Event σ Op Res → Prop} (hlast : p ev) :
    Throughout (es ++ [ev]) es.length p := by
  intro e he
  rw [List.drop_left, List.mem_singleton] at he
  exact he ▸ hlast

theorem Since.snoc {P : σ → Prop} (h : Since es i P) (hlast : P ev.after) :
    Since (es ++ [ev]) i P :=
  Throughout.snoc h hlast

theorem since_length {P : σ → Prop} (hlast : P ev.after) :
    Since (es ++ [ev]) es.length P :=
  throughout_length hlast

/-- What has held since time `i` holds after every later event. -/
theorem Since.after_at {P : σ → Prop} {p : Event σ Op Res → Prop} {j : ℕ} (h : Since es i P)
    (hj : At es j p) (hij : i ≤ j) : ∃ ev, p ev ∧ P ev.after := by
  obtain ⟨e, he, hp⟩ := hj
  refine ⟨e, hp, h e ?_⟩
  obtain ⟨d, rfl⟩ := Nat.exists_eq_add_of_le hij
  exact List.mem_of_getElem? (by rw [List.getElem?_drop, he])

/-- What has held until now held until before the last event, and holds after it. -/
theorem Since.of_snoc {P : σ → Prop} (h : Since (es ++ [ev]) i P) (hi : i ≤ es.length) :
    Since es i P ∧ P ev.after := by
  have hdrop : (es ++ [ev]).drop i = es.drop i ++ [ev] := List.drop_append_of_le_length hi
  refine ⟨fun e he => h e ?_, h ev ?_⟩
  · rw [hdrop]
    exact List.mem_append_left _ he
  · rw [hdrop]
    exact List.mem_append_right _ (List.mem_singleton_self _)

/-- An event is what it is. -/
theorem At.and {p q : Event σ Op Res → Prop} (hp : At es i p) (hq : At es i q) :
    ∃ e, p e ∧ q e := by
  obtain ⟨e, he, hpe⟩ := hp
  obtain ⟨e', he', hqe⟩ := hq
  rw [he, Option.some.injEq] at he'
  exact ⟨e, hpe, he' ▸ hqe⟩

/-- What happened before time `j` is what the history up to `j` says. -/
theorem at_take {p : Event σ Op Res → Prop} {j : ℕ} (hij : i < j) :
    At (es.take j) i p ↔ At es i p := by
  rw [At, At, List.getElem?_take_of_lt hij]

/-- An event of the extended history is an event of the past or the new one. -/
theorem At.snoc_cases {p : Event σ Op Res → Prop} (h : At (es ++ [ev]) i p) :
    At es i p ∨ i = es.length ∧ p ev := by
  obtain ⟨e, he, hp⟩ := h
  rcases Nat.lt_or_ge i es.length with hi | hi
  · rw [List.getElem?_append_left hi] at he
    exact .inl ⟨e, he, hp⟩
  · rw [List.getElem?_append_right hi, List.getElem?_singleton] at he
    split at he
    · next h0 =>
        cases he
        exact .inr ⟨by omega, hp⟩
    · cases he

/-- Every event of the history satisfies `p`, together with the history before it. -/
def AtEach (es : List (Event σ Op Res)) (p : List (Event σ Op Res) → Event σ Op Res → Prop) :
    Prop :=
  ∀ past e future, es = past ++ e :: future → p past e

theorem AtEach.nil {p : List (Event σ Op Res) → Event σ Op Res → Prop} : AtEach [] p := by
  intro past e future h
  cases past <;> cases h

theorem AtEach.snoc {p : List (Event σ Op Res) → Event σ Op Res → Prop} (h : AtEach es p)
    (hlast : p es ev) : AtEach (es ++ [ev]) p := by
  intro past e future heq
  rcases List.eq_nil_or_concat future with rfl | ⟨future, last, rfl⟩
  · obtain ⟨rfl, hev⟩ := List.append_inj' heq rfl
    cases hev
    exact hlast
  · rw [List.concat_eq_append, ← List.cons_append, ← List.append_assoc] at heq
    exact h past e future (List.append_inj' heq rfl).1

/-- What holds at each event holds at the last one, and held before it came. -/
theorem AtEach.of_snoc {p : List (Event σ Op Res) → Event σ Op Res → Prop}
    (h : AtEach (es ++ [ev]) p) : AtEach es p ∧ p es ev := by
  refine ⟨fun past e future heq => h past e (future ++ [ev]) ?_, h es ev [] rfl⟩
  rw [heq, List.append_assoc, List.cons_append]

theorem atEach_iff {p : List (Event σ Op Res) → Event σ Op Res → Prop} :
    AtEach es p ↔ ∀ i : Fin es.length, p (es.take i) es[i] := by
  constructor
  · intro h i
    refine h _ _ (es.drop (i + 1)) ?_
    rw [Fin.getElem_fin, List.getElem_cons_drop, List.take_append_drop]
  · rintro h past e future rfl
    simpa using h ⟨past.length, by simp⟩

instance {p : List (Event σ Op Res) → Event σ Op Res → Prop} [∀ past e, Decidable (p past e)] :
    Decidable (AtEach es p) :=
  decidable_of_iff _ atEach_iff.symm

/-! ## What was said, and when -/

/-- The records that `p` makes of the events and their times, oldest first. -/
def stamped {β : Type*} (p : ℕ → Event σ Op Res → Option β) (es : List (Event σ Op Res)) :
    List β :=
  es.zipIdx.filterMap fun x => p x.2 x.1

section Stamped

variable {β : Type*} {p : ℕ → Event σ Op Res → Option β}

theorem stamped_snoc (es : List (Event σ Op Res)) (ev : Event σ Op Res) :
    stamped p (es ++ [ev]) = stamped p es ++ (p es.length ev).toList := by
  rw [stamped, List.zipIdx_append, List.filterMap_append, stamped]
  cases h : p es.length ev <;> simp [h]

/-- An event that `p` ignores leaves no record. -/
theorem stamped_snoc_none (h : p es.length ev = none) :
    stamped p (es ++ [ev]) = stamped p es := by
  rw [stamped_snoc, h, Option.toList_none, List.append_nil]

theorem stamped_snoc_some {b : β} (h : p es.length ev = some b) :
    stamped p (es ++ [ev]) = stamped p es ++ [b] := by
  rw [stamped_snoc, h, Option.toList_some]

/-- Every record was made at the time of an event. -/
theorem exists_at_of_mem_stamped {b : β} (h : b ∈ stamped p es) :
    ∃ i, At es i fun ev => p i ev = some b := by
  obtain ⟨⟨e, i⟩, hmem, hp⟩ := List.mem_filterMap.mp h
  exact ⟨i, e, List.mem_zipIdx_iff_getElem?.mp hmem, hp⟩

variable {time : β → ℕ}

theorem time_lt_length (stamp : ∀ i ev b, p i ev = some b → time b = i) {b : β}
    (h : b ∈ stamped p es) : time b < es.length := by
  obtain ⟨i, hi⟩ := exists_at_of_mem_stamped h
  have hlt := hi.lt_length
  obtain ⟨e, -, hp⟩ := hi
  rw [stamp i e b hp]
  exact hlt

/-- Records that carry their time are in order of time. -/
theorem stamped_pairwise (stamp : ∀ i ev b, p i ev = some b → time b = i) :
    (stamped p es).Pairwise fun a b => time a < time b := by
  induction es using List.reverseRecOn with
  | nil => exact List.Pairwise.nil
  | append_singleton es ev ih =>
      cases h : p es.length ev with
      | none =>
          rw [stamped_snoc_none h]
          exact ih
      | some b =>
          rw [stamped_snoc_some h]
          refine List.pairwise_append.mpr ⟨ih, List.pairwise_singleton _ _, ?_⟩
          intro x hx y hy
          rw [List.mem_singleton.mp hy, stamp _ _ _ h]
          exact time_lt_length stamp hx

end Stamped

/-! ## What is outstanding -/

section Outstanding

variable {β : Type*} [DecidableEq β] {put take : Event σ Op Res → Finset β}

/-- What some event put in and no later one took out. -/
def outstanding (put take : Event σ Op Res → Finset β) (es : List (Event σ Op Res)) :
    Finset β :=
  es.foldl (fun held ev => held \ take ev ∪ put ev) ∅

theorem outstanding_snoc (es : List (Event σ Op Res)) (ev : Event σ Op Res) :
    outstanding put take (es ++ [ev]) = outstanding put take es \ take ev ∪ put ev := by
  rw [outstanding, List.foldl_append]
  rfl

/-- What nobody takes out stays. -/
theorem mem_outstanding_append {b : β} {fs : List (Event σ Op Res)}
    (h : b ∈ outstanding put take es) (hkept : ∀ ev ∈ fs, b ∉ take ev) :
    b ∈ outstanding put take (es ++ fs) := by
  induction fs using List.reverseRecOn with
  | nil => rwa [List.append_nil]
  | append_singleton fs ev ih =>
      rw [← List.append_assoc, outstanding_snoc, Finset.mem_union, Finset.mem_sdiff]
      exact .inl ⟨ih fun e he => hkept e (by simp [he]), hkept ev (by simp)⟩

end Outstanding

end Foundation
