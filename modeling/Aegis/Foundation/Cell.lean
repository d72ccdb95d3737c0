import Mathlib

/-!
# One-place cells

A cell holds at most one value.  It is written without looking at what it holds and
emptied by whoever takes the value.  A log of the accesses to a cell says everything
about it: the cell holds the value put in last, unless that has been taken
(`content`), and a log is `Faithful` if every take returned what the cell held.

A value that was put in meets exactly one `Fate`: the next access takes it, or the
next access puts another value over it, or there is no next access and it is still
waiting.  Accesses carry their time, so that no two entries of a log are equal.
-/

namespace Foundation

variable {β : Type*}

/-- A value is put into the cell, or taken out of it, at some time. -/
inductive Access (β : Type*)
  | put (time : ℕ) (value : β)
  | take (time : ℕ) (value : β)
  deriving DecidableEq

namespace Access

def time : Access β → ℕ
  | put time _ => time
  | take time _ => time

/-- What the cell holds after the accesses of the log. -/
def content (log : List (Access β)) : Option β :=
  match log.getLast? with
  | some (put _ value) => some value
  | _ => none

variable {log : List (Access β)} {i j : ℕ} {v w : β} {x : Access β}

theorem content_snoc_put : content (log ++ [put j v]) = some v := by
  rw [content, List.getLast?_concat]

theorem content_snoc_take : content (log ++ [take j v]) = none := by
  rw [content, List.getLast?_concat]

/-- A cell holds a value if putting it in was the last access. -/
theorem content_eq_some : content log = some v ↔ ∃ i, [put i v] <:+ log := by
  rw [content]
  constructor
  · intro h
    split at h
    · next i u hlast =>
        obtain ⟨past, rfl⟩ := List.getLast?_eq_some_iff.mp hlast
        cases h
        exact ⟨i, List.suffix_append _ _⟩
    · cases h
  · rintro ⟨i, past, rfl⟩
    rw [List.getLast?_concat]

/-- Every take returned what the cell held. -/
def Faithful (log : List (Access β)) : Prop :=
  ∀ past j v future, log = past ++ take j v :: future → content past = some v

theorem faithful_nil : Faithful ([] : List (Access β)) := by
  intro past j v future h
  cases past <;> cases h

/-- A log stays faithful if its next access, when it is a take, returns what the cell
holds. -/
theorem Faithful.snoc (h : Faithful log)
    (hlast : ∀ j v, x = take j v → content log = some v) : Faithful (log ++ [x]) := by
  intro past j v future heq
  rcases List.eq_nil_or_concat future with rfl | ⟨future, last, rfl⟩
  · obtain ⟨rfl, hx⟩ := List.append_inj' heq rfl
    exact hlast j v (List.cons.inj hx).1
  · rw [List.concat_eq_append, ← List.cons_append, ← List.append_assoc] at heq
    exact h past j v future (List.append_inj' heq rfl).1

/-! ## What becomes of a value -/

/-- What can become of a value. -/
inductive Fate (β : Type*)
  | taken (time : ℕ)
  | replaced (time : ℕ) (value : β)
  | waiting

/-- What became of the value that was put in at time `i`. -/
def Meets (log : List (Access β)) (i : ℕ) (v : β) : Fate β → Prop
  | .taken j => [put i v, take j v] <:+: log
  | .replaced j w => [put i v, put j w] <:+: log
  | .waiting => [put i v] <:+ log

/-- Every value meets a fate. -/
theorem Faithful.exists_fate (h : Faithful log) (hput : put i v ∈ log) :
    ∃ fate, Meets log i v fate := by
  obtain ⟨past, future, rfl⟩ := List.append_of_mem hput
  cases future with
  | nil => exact ⟨.waiting, List.suffix_append _ _⟩
  | cons next future =>
      have hpair : past ++ put i v :: next :: future = past ++ [put i v, next] ++ future := by simp
      cases next with
      | put j w => exact ⟨.replaced j w, past, future, hpair.symm⟩
      | take j w =>
          have hheld := h (past ++ [put i v]) j w future (by simp)
          rw [content_snoc_put, Option.some.injEq] at hheld
          subst hheld
          exact ⟨.taken j, past, future, hpair.symm⟩

/-- Every take follows the put of the value it returned. -/
theorem Faithful.exists_put (h : Faithful log) (htake : take j v ∈ log) :
    ∃ i, [put i v, take j v] <:+: log := by
  obtain ⟨past, future, rfl⟩ := List.append_of_mem htake
  obtain ⟨i, before, rfl⟩ := content_eq_some.mp (h past j v future rfl)
  exact ⟨i, before, future, by simp⟩

/-- In a log without repetitions an entry has one continuation. -/
theorem continuation_unique (hlog : log.Nodup) {past past' future future' : List (Access β)}
    (h : log = past ++ x :: future) (h' : log = past' ++ x :: future') :
    past = past' ∧ future = future' := by
  subst h
  have hx := List.nodup_middle.mp hlog
  rw [List.nodup_cons, List.mem_append, not_or] at hx
  obtain ⟨hpast, -, hfuture⟩ := (List.append_cons_inj_of_notMem hx.1.1 hx.1.2).mp h'
  exact ⟨hpast, hfuture⟩

/-- What comes next after the value was put in, if anything does. -/
def Fate.next (v : β) : Fate β → Option (Access β)
  | .taken j => some (take j v)
  | .replaced j w => some (put j w)
  | .waiting => none

theorem Fate.next_injective (v : β) : Function.Injective (Fate.next v) := by
  intro f g h
  cases f <;> cases g <;> simp_all [next]

theorem Meets.split {fate : Fate β} (h : Meets log i v fate) :
    ∃ past future, log = past ++ put i v :: future ∧ future.head? = fate.next v := by
  cases fate with
  | taken j =>
      obtain ⟨past, future, rfl⟩ := h
      exact ⟨past, take j v :: future, by simp, rfl⟩
  | replaced j w =>
      obtain ⟨past, future, rfl⟩ := h
      exact ⟨past, put j w :: future, by simp, rfl⟩
  | waiting =>
      obtain ⟨past, rfl⟩ := h
      exact ⟨past, [], rfl, rfl⟩

/-- **Every value meets exactly one fate.** -/
theorem Faithful.existsUnique_fate (h : Faithful log) (hlog : log.Nodup)
    (hput : put i v ∈ log) : ∃! fate, Meets log i v fate := by
  obtain ⟨fate, hfate⟩ := h.exists_fate hput
  refine ⟨fate, hfate, fun other hother => Fate.next_injective v ?_⟩
  obtain ⟨past, future, hsplit, hnext⟩ := hfate.split
  obtain ⟨past', future', hsplit', hnext'⟩ := hother.split
  obtain ⟨-, rfl⟩ := continuation_unique hlog hsplit hsplit'
  rw [← hnext, ← hnext']

/-- **Every take returns exactly one value that was put in.** -/
theorem Faithful.existsUnique_put (h : Faithful log) (hlog : log.Nodup)
    (htake : take j v ∈ log) : ∃! i, [put i v, take j v] <:+: log := by
  obtain ⟨i, hi⟩ := h.exists_put htake
  refine ⟨i, hi, fun i' hi' => ?_⟩
  obtain ⟨past, future, hsplit⟩ := hi
  obtain ⟨past', future', hsplit'⟩ := hi'
  have hone : log = (past ++ [put i v]) ++ take j v :: future := by simp [← hsplit]
  have hother : log = (past' ++ [put i' v]) ++ take j v :: future' := by simp [← hsplit']
  obtain ⟨hpast, -⟩ := continuation_unique hlog hother hone
  have hlast := (List.append_inj' hpast rfl).2
  rw [List.cons.injEq, put.injEq] at hlast
  exact hlast.1.1

/-- A value that is replaced was replaced before, or the last access replaces it. -/
theorem replaced_snoc (h : [put i v, put j w] <:+: log ++ [x]) :
    [put i v, put j w] <:+: log ∨ [put i v] <:+ log ∧ x = put j w := by
  rcases List.infix_concat_iff.mp h with hlast | hold
  · obtain ⟨past, hpast⟩ := hlast
    have heq : (past ++ [put i v]) ++ [put j w] = log ++ [x] := by simpa using hpast
    obtain ⟨hlog, hx⟩ := List.append_inj' heq rfl
    exact .inr ⟨⟨past, hlog⟩, (List.cons.inj hx).1.symm⟩
  · exact .inl hold

end Access

end Foundation
