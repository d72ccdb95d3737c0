import Mathlib

/-!
# Deterministic machines, runs and simulations

A `Machine` has an initial state and a step function that takes one operation
and returns a result; `none` means that the operation does not return at all.
Everything a specification says about "every sequence of operations" is said
about `exec`, which runs a list of operations and records one `Event` for each:
the state before, the operation, its result and the state after.

* `exec_of_invariant` is the induction rule.  An invariant may mention the whole
  history of events, and it is required to show at each step that the operation
  returns; the conclusion is that every run exists *and* satisfies it.
* `Simulation` relates a machine to another one, more abstract or the machine itself,
  with the same operations and results.  States of one machine that it relates are
  `Indistinguishable`: no sequence of operations tells them apart.
-/

namespace Foundation

variable {σ α Op Res : Type*}

/-- A deterministic machine.  A step that yields `none` does not return. -/
structure Machine (σ Op Res : Type*) where
  init : σ
  step : σ → Op → Option (Res × σ)

/-- One completed operation of a run. -/
structure Event (σ Op Res : Type*) where
  before : σ
  op : Op
  result : Res
  after : σ

namespace Machine

variable (M : Machine σ Op Res) (N : Machine α Op Res)

/-- Run a sequence of operations from `s`, recording one event for each. -/
def exec : σ → List Op → Option (List (Event σ Op Res) × σ)
  | s, [] => some ([], s)
  | s, op :: ops =>
      match M.step s op with
      | none => none
      | some (r, s') =>
          match exec s' ops with
          | none => none
          | some (es, t) => some (⟨s, op, r, s'⟩ :: es, t)

/-- The results a sequence of operations returns. -/
def results (s : σ) (ops : List Op) : Option (List Res) :=
  (M.exec s ops).map fun p => p.1.map Event.result

/-- A state some sequence of operations leads to from the initial state. -/
def Reachable (s : σ) : Prop :=
  ∃ ops es, M.exec M.init ops = some (es, s)

/-- Every sequence of operations returns, and returns the same results from the two
states. -/
def Indistinguishable (s t : σ) : Prop :=
  ∀ ops, ∃ rs, M.results s ops = some rs ∧ M.results t ops = some rs

variable {M N}

@[simp] theorem exec_nil (s : σ) : M.exec s [] = some ([], s) := rfl

/-- Executing one more operation at the front. -/
theorem exec_cons {s s' t : σ} {op : Op} {ops : List Op} {r : Res}
    {es : List (Event σ Op Res)} (hstep : M.step s op = some (r, s'))
    (hexec : M.exec s' ops = some (es, t)) :
    M.exec s (op :: ops) = some (⟨s, op, r, s'⟩ :: es, t) := by
  simp [exec, hstep, hexec]

/-- A run splits at every operation. -/
theorem exec_cons_inv {s t : σ} {op : Op} {ops : List Op}
    {es : List (Event σ Op Res)} (h : M.exec s (op :: ops) = some (es, t)) :
    ∃ r s' fs, M.step s op = some (r, s') ∧ M.exec s' ops = some (fs, t) ∧
      es = ⟨s, op, r, s'⟩ :: fs := by
  unfold exec at h
  cases hstep : M.step s op with
  | none => simp [hstep] at h
  | some p =>
      obtain ⟨r, s'⟩ := p
      cases hexec : M.exec s' ops with
      | none => simp [hstep, hexec] at h
      | some q =>
          obtain ⟨fs, t'⟩ := q
          simp only [hstep, hexec, Option.some.injEq, Prod.mk.injEq] at h
          obtain ⟨rfl, rfl⟩ := h
          exact ⟨r, s', fs, rfl, hexec, rfl⟩

/-- Runs compose. -/
theorem exec_append {s t u : σ} {ops ops' : List Op}
    {es fs : List (Event σ Op Res)} (h : M.exec s ops = some (es, t))
    (h' : M.exec t ops' = some (fs, u)) :
    M.exec s (ops ++ ops') = some (es ++ fs, u) := by
  induction ops generalizing s es with
  | nil =>
      simp only [exec_nil, Option.some.injEq, Prod.mk.injEq] at h
      obtain ⟨rfl, rfl⟩ := h
      exact h'
  | cons op ops ih =>
      obtain ⟨r, s', es', hstep, hexec, rfl⟩ := exec_cons_inv h
      exact exec_cons hstep (ih hexec)

/-- A run splits at every point of its history. -/
theorem exec_split {s u : σ} {ops : List Op} {es fs : List (Event σ Op Res)}
    (h : M.exec s ops = some (es ++ fs, u)) :
    ∃ t ops₁ ops₂, M.exec s ops₁ = some (es, t) ∧ M.exec t ops₂ = some (fs, u) ∧
      ops = ops₁ ++ ops₂ := by
  induction es generalizing s ops with
  | nil => exact ⟨s, [], ops, rfl, h, rfl⟩
  | cons e es ih =>
      cases ops with
      | nil => cases h
      | cons op ops =>
          obtain ⟨r, s', gs, hstep, hexec, hgs⟩ := exec_cons_inv h
          rw [List.cons_append, List.cons.injEq] at hgs
          obtain ⟨rfl, rfl⟩ := hgs
          obtain ⟨t, ops₁, ops₂, h₁, h₂, rfl⟩ := ih hexec
          exact ⟨t, op :: ops₁, ops₂, exec_cons hstep h₁, h₂, rfl⟩

/-- Each event of a run begins where the one before it ended. -/
theorem exec_chain {s t : σ} {ops : List Op} {es : List (Event σ Op Res)}
    (h : M.exec s ops = some (es, t)) :
    es.map Event.before ++ [t] = s :: es.map Event.after := by
  induction ops generalizing s es with
  | nil =>
      simp only [exec_nil, Option.some.injEq, Prod.mk.injEq] at h
      obtain ⟨rfl, rfl⟩ := h
      rfl
  | cons op ops ih =>
      obtain ⟨r, s', fs, hstep, hexec, rfl⟩ := exec_cons_inv h
      rw [List.map_cons, List.map_cons, List.cons_append, ih hexec]

/-- The events of a run are those of its operations. -/
theorem exec_ops {s t : σ} {ops : List Op} {es : List (Event σ Op Res)}
    (h : M.exec s ops = some (es, t)) : es.map Event.op = ops := by
  induction ops generalizing s es with
  | nil =>
      simp only [exec_nil, Option.some.injEq, Prod.mk.injEq] at h
      obtain ⟨rfl, rfl⟩ := h
      rfl
  | cons op ops ih =>
      obtain ⟨r, s', fs, hstep, hexec, rfl⟩ := exec_cons_inv h
      rw [List.map_cons, ih hexec]

/-- What holds at the start and after every event but the last holds before every
event. -/
theorem before_of_after {P : σ → Prop} {s t : σ} {ops : List Op} {es : List (Event σ Op Res)}
    {ev : Event σ Op Res} (h : M.exec s ops = some (es ++ [ev], t)) (start : P s)
    (after : ∀ e ∈ es, P e.after) : ∀ e ∈ es ++ [ev], P e.before := by
  have hchain := exec_chain h
  rw [List.map_append, List.map_append, List.map_singleton, List.map_singleton,
    ← List.cons_append] at hchain
  have hbefore := (List.append_inj' hchain rfl).1
  intro e he
  have hmem : e.before ∈ s :: es.map Event.after := by
    rw [← hbefore]
    simpa using List.mem_map_of_mem (f := Event.before) he
  rcases List.mem_cons.mp hmem with hs | hmem
  · exact hs ▸ start
  · obtain ⟨e', he', heq⟩ := List.mem_map.mp hmem
    exact heq ▸ after e' he'

theorem exec_singleton {s s' : σ} {op : Op} {r : Res}
    (h : M.step s op = some (r, s')) :
    M.exec s [op] = some ([⟨s, op, r, s'⟩], s') :=
  exec_cons h (exec_nil s')

/-- **The induction rule for runs.**  The invariant sees the history of events;
each step must be shown to return and to extend the history within the
invariant.  Every run then exists, and satisfies the invariant. -/
theorem exec_of_invariant {s : σ} (I : List (Event σ Op Res) → σ → Prop)
    (start : I [] s)
    (next : ∀ es t op, I es t →
      ∃ r u, M.step t op = some (r, u) ∧ I (es ++ [⟨t, op, r, u⟩]) u)
    (ops : List Op) : ∃ es t, M.exec s ops = some (es, t) ∧ I es t := by
  induction ops using List.reverseRecOn with
  | nil => exact ⟨[], s, rfl, start⟩
  | append_singleton ops op ih =>
      obtain ⟨es, t, hexec, hI⟩ := ih
      obtain ⟨r, u, hstep, hI'⟩ := next es t op hI
      exact ⟨_, u, exec_append hexec (exec_singleton hstep), hI'⟩

/-- The same rule for runs with operations of one kind. -/
theorem exec_of_invariant_of {s : σ} (P : Op → Prop) (I : List (Event σ Op Res) → σ → Prop)
    (start : I [] s)
    (next : ∀ es t op, P op → I es t →
      ∃ r u, M.step t op = some (r, u) ∧ I (es ++ [⟨t, op, r, u⟩]) u)
    (ops : List Op) (hops : ∀ op ∈ ops, P op) : ∃ es t, M.exec s ops = some (es, t) ∧ I es t := by
  induction ops using List.reverseRecOn with
  | nil => exact ⟨[], s, rfl, start⟩
  | append_singleton ops op ih =>
      rw [List.forall_mem_append, List.forall_mem_singleton] at hops
      obtain ⟨es, t, hexec, hI⟩ := ih hops.1
      obtain ⟨r, u, hstep, hI'⟩ := next es t op hops.2 hI
      exact ⟨_, u, exec_append hexec (exec_singleton hstep), hI'⟩

/-- A property of states that holds initially and that every step keeps holds of
every reachable state. -/
theorem Reachable.invariant {s : σ} (h : M.Reachable s) (I : σ → Prop)
    (start : I M.init)
    (next : ∀ t op r u, I t → M.step t op = some (r, u) → I u) : I s := by
  obtain ⟨ops, es, hexec⟩ := h
  have run : ∀ (ops : List Op) {t u : σ} {es : List (Event σ Op Res)},
      I t → M.exec t ops = some (es, u) → I u := by
    intro ops
    induction ops with
    | nil =>
        intro t u es ht hexec
        simp only [exec_nil, Option.some.injEq, Prod.mk.injEq] at hexec
        exact hexec.2 ▸ ht
    | cons op ops ih =>
        intro t u es ht hexec
        obtain ⟨r, t', fs, hstep, hrest, -⟩ := exec_cons_inv hexec
        exact ih (next t op r t' ht hstep) hrest
  exact run ops start hexec

theorem reachable_init : M.Reachable M.init := ⟨[], [], rfl⟩

theorem Reachable.exec {s t : σ} {ops : List Op} {es : List (Event σ Op Res)}
    (h : M.Reachable s) (hexec : M.exec s ops = some (es, t)) : M.Reachable t := by
  obtain ⟨ops', fs, hpre⟩ := h
  exact ⟨ops' ++ ops, fs ++ es, exec_append hpre hexec⟩

theorem Reachable.step {s t : σ} {op : Op} {r : Res} (h : M.Reachable s)
    (hstep : M.step s op = some (r, t)) : M.Reachable t :=
  h.exec (exec_singleton hstep)

/-- Every event of a run from a reachable state is a step from a reachable
state. -/
theorem Reachable.event {s t : σ} {ops : List Op} {es : List (Event σ Op Res)}
    (h : M.Reachable s) (hexec : M.exec s ops = some (es, t)) :
    ∀ ev ∈ es, M.Reachable ev.before ∧
      M.step ev.before ev.op = some (ev.result, ev.after) := by
  induction ops generalizing s es with
  | nil =>
      simp only [exec_nil, Option.some.injEq, Prod.mk.injEq] at hexec
      obtain ⟨rfl, -⟩ := hexec
      simp
  | cons op ops ih =>
      obtain ⟨r, s', fs, hstep, hrest, rfl⟩ := exec_cons_inv hexec
      intro ev hev
      rcases List.mem_cons.mp hev with rfl | hev
      · exact ⟨h, hstep⟩
      · exact ih (h.step hstep) hrest ev hev

/-! ## Simulation -/

/-- `R` is a simulation of `M` by `N`: related states answer every operation
alike, both of them do answer, and the states they move to are related. -/
structure Simulation (M : Machine σ Op Res) (N : Machine α Op Res)
    (R : σ → α → Prop) : Prop where
  init : R M.init N.init
  step : ∀ {s a} op, R s a →
    ∃ r s' a', M.step s op = some (r, s') ∧ N.step a op = some (r, a') ∧ R s' a'

namespace Simulation

variable {R : σ → α → Prop}

/-- A simulation lifts to runs, result by result. -/
theorem exec (sim : Simulation M N R) {s : σ} {a : α} (h : R s a)
    (ops : List Op) :
    ∃ es t fs b, M.exec s ops = some (es, t) ∧ N.exec a ops = some (fs, b) ∧
      es.map Event.result = fs.map Event.result ∧ R t b := by
  induction ops generalizing s a with
  | nil => exact ⟨[], s, [], a, rfl, rfl, rfl, h⟩
  | cons op ops ih =>
      obtain ⟨r, s', a', hstep, hstep', h'⟩ := sim.step op h
      obtain ⟨es, t, fs, b, hexec, hexec', hres, hR⟩ := ih h'
      refine ⟨_, t, _, b, exec_cons hstep hexec, exec_cons hstep' hexec', ?_, hR⟩
      simp [hres]

/-- States that a machine simulates in itself cannot be told apart. -/
theorem indistinguishable {R : σ → σ → Prop} (sim : Simulation M M R) {s t : σ}
    (h : R s t) : M.Indistinguishable s t := by
  intro ops
  obtain ⟨es, s', fs, t', hexec, hexec', hres, -⟩ := sim.exec h ops
  refine ⟨es.map Event.result, ?_, ?_⟩
  · rw [results, hexec, Option.map_some]
  · rw [results, hexec', Option.map_some, hres]

/-- Every reachable state represents some abstract state. -/
theorem exists_of_reachable (sim : Simulation M N R) {s : σ}
    (h : M.Reachable s) : ∃ a, R s a := by
  refine h.invariant (fun s => ∃ a, R s a) ⟨_, sim.init⟩ ?_
  rintro t op r u ⟨a, ha⟩ hstep
  obtain ⟨r', u', a', hstep', -, ha'⟩ := sim.step op ha
  rw [hstep, Option.some.injEq, Prod.mk.injEq] at hstep'
  exact ⟨a', hstep'.2 ▸ ha'⟩

end Simulation

end Machine

end Foundation
