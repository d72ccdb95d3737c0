import Mathlib
import Aegis.Foundation.History
import Aegis.Preempt.Switching

/-!
# Context isolation

Each task is to see the registers it was last seen with: those in the CPU when it was last
preempted, or the context it was spawned with.  `lastSeen` computes them from the history of
the system alone, and `occupant` the task that the CPU was last given to.

A run is used as the kernel uses the scheduler if the first task is launched only while no
task runs, and tasks are blocked, woken and faulted only while they do not run.  In such a
run the saved context of every task that is not running is what it was last seen with, and
the running task stays runnable, so that a preemption always finds somebody to switch to.
-/

namespace Aegis.Preempt

open Foundation A64 Sched

variable {TASKS : ℕ}

/-! ## What a run shows of its tasks -/

/-- What an event shows of the registers of a task. -/
def observe (t : TaskId) (seen : Option UserContext) (ev : SystemEvent TASKS) :
    Option UserContext :=
  match ev.op, ev.result with
  | .spawn context, .spawned (.ok id) => if id = t then some context else seen
  | .preempt _, _ =>
      if ev.before.scheduler.current = some t then some (userContext ev.before.cpu) else seen
  | _, _ => seen

/-- The registers a task was last seen with: when it was last preempted, or spawned. -/
def lastSeen (t : TaskId) (es : List (SystemEvent TASKS)) : Option UserContext :=
  es.foldl (observe t) none

/-- The task an event gives the CPU to. -/
def occupy (occupant : Option TaskId) (ev : SystemEvent TASKS) : Option TaskId :=
  match ev.result with
  | .launched switch => switch.map Switch.next
  | .preempted (some (_, next)) => some next
  | _ => occupant

/-- The task whose context was last put into the CPU. -/
def occupant (es : List (SystemEvent TASKS)) : Option TaskId :=
  es.foldl occupy none

theorem lastSeen_snoc (t : TaskId) (es : List (SystemEvent TASKS)) (ev : SystemEvent TASKS) :
    lastSeen t (es ++ [ev]) = observe t (lastSeen t es) ev :=
  List.foldl_concat ..

theorem occupant_snoc (es : List (SystemEvent TASKS)) (ev : SystemEvent TASKS) :
    occupant (es ++ [ev]) = occupy (occupant es) ev :=
  List.foldl_concat ..

/-- The first task is launched while no task runs; tasks are blocked, woken and faulted
while they do not run. -/
def WellUsed (ev : SystemEvent TASKS) : Prop :=
  match ev.op with
  | .launch => ev.before.scheduler.current = none
  | .block task | .wake task | .fault task => ev.before.scheduler.current ≠ some task
  | .spawn _ | .run _ _ | .preempt _ => True

/-! ## Steps of the system -/

/-- The scheduler operation that a system operation is. -/
def SystemOp.scheduling : SystemOp → Option SchedulerOp
  | .spawn context => some (.spawn context)
  | .block task => some (.block task)
  | .wake task => some (.wake task)
  | .fault task => some (.fault task)
  | .launch => some .schedule
  | .run _ _ | .preempt _ => none

/-- What a scheduler operation returns, as a result of the system. -/
def ofScheduling : SchedulerResult → SystemResult
  | .spawned result => .spawned result
  | .switched switch => .launched switch
  | .done result => .done result

/-- What every state of the system satisfies: nothing panics, and the frame is aligned. -/
structure Sound (system : System TASKS) : Prop where
  valid : system.scheduler.Valid
  aligned : Aligned system.cpu.sp

section Steps

variable {system : System TASKS}

theorem step_scheduling {op : SystemOp} {sop : SchedulerOp} (h : op.scheduling = some sop)
    {r : SchedulerResult} {s' : Scheduler TASKS}
    (hstep : (schedulerMachine TASKS).step system.scheduler sop = some (r, s')) :
    systemStep system op =
      some (ofScheduling r, { system with scheduler := s' }) := by
  have lift : ∀ {α : Type} {run : Option (α × Scheduler TASKS)} {f : α → SchedulerResult}
      {g : α → SystemResult}, (∀ a, ofScheduling (f a) = g a) →
      run.map (Prod.map f id) = some (r, s') →
        run.map (fun p => (g p.1, { system with scheduler := p.2 })) =
          some (ofScheduling r, { system with scheduler := s' }) := by
    intro α run f g hg hrun
    obtain ⟨⟨a, s₁⟩, rfl, heq⟩ := Option.map_eq_some_iff.mp hrun
    cases heq
    rw [Option.map_some, hg]
    rfl
  cases op with
  | spawn context => cases h; exact lift (fun _ => rfl) hstep
  | block task => cases h; exact lift (fun _ => rfl) hstep
  | wake task => cases h; exact lift (fun _ => rfl) hstep
  | fault task => cases h; exact lift (fun _ => rfl) hstep
  | launch => cases h; exact lift (fun _ => rfl) hstep
  | run => cases h
  | preempt => cases h

theorem step_preempt (sound : Sound system) (scratch : Scratch) {s' : Scheduler TASKS}
    {selected : Option (TaskId × TaskId × UserContext)}
    (h : selectNext (userContext system.cpu) system.scheduler = some (selected, s')) :
    ∃ cpu', systemStep system (.preempt scratch) =
        some (.preempted (selected.map fun p => (p.1, p.2.1)), ⟨s', cpu'⟩) ∧
      cpu'.sp = system.cpu.sp ∧
      userContext cpu' = selected.elim (userContext system.cpu) (fun p => p.2.2) := by
  obtain ⟨cpu', heval, hsp, hcontext⟩ := preempt_eq scratch sound.aligned h
  refine ⟨cpu', ?_, hsp, hcontext⟩
  show (preempt scratch system.scheduler system.cpu).map _ = _
  rw [heval]
  rfl

/-- Every operation returns. -/
theorem step_sound (sound : Sound system) (op : SystemOp) :
    ∃ r system', systemStep system op = some (r, system') ∧
      Sound system' := by
  have scheduling : ∀ sop, op.scheduling = some sop → ∃ r system',
      systemStep system op = some (r, system') ∧ Sound system' := by
    intro sop hop
    obtain ⟨r, s', hstep, htrans⟩ := step_transition sound.valid sop
    exact ⟨_, _, step_scheduling hop hstep, htrans.valid sound.valid, sound.aligned⟩
  cases op with
  | spawn context => exact scheduling _ rfl
  | block task => exact scheduling _ rfl
  | wake task => exact scheduling _ rfl
  | fault task => exact scheduling _ rfl
  | launch => exact scheduling _ rfl
  | run context memory => exact ⟨_, _, rfl, sound.valid, sound.aligned⟩
  | preempt scratch =>
      obtain ⟨selected, s', hselect, valid'⟩ := selectNext_total sound.valid
      obtain ⟨cpu', hstep, hsp, -⟩ := step_preempt sound scratch hselect
      refine ⟨_, _, hstep, valid', ?_⟩
      show Aligned cpu'.sp
      rw [hsp]
      exact sound.aligned

end Steps

/-! ## The invariant -/

/-- The running task is runnable and is the one the CPU was given to, and every other task
has been saved as it was last seen. -/
structure Tracks (es : List (SystemEvent TASKS)) (s : Scheduler TASKS) : Prop where
  running : ∀ t : Fin TASKS, s.current = some t.val → (s.taskAt t).state = .runnable
  saved : ∀ t : Fin TASKS, (s.taskAt t).state ≠ .unused → s.current ≠ some t.val →
    lastSeen t es = some (s.taskAt t).context
  occupied : s.current = occupant es

theorem tracks_new : Tracks [] (Scheduler.new : Scheduler TASKS) where
  running _ h := by cases h
  saved t h := by
    rw [Scheduler.taskAt_new] at h
    exact absurd rfl h
  occupied := rfl

/-- An event that shows nothing of the registers of any task, and gives the CPU to
nobody. -/
structure Quiet (ev : SystemEvent TASKS) : Prop where
  observe : ∀ t seen, observe t seen ev = seen
  occupy : ∀ o, occupy o ev = o

namespace Tracks

variable {es : List (SystemEvent TASKS)} {ev : SystemEvent TASKS} {s s' : Scheduler TASKS}

theorem quiet (h : Tracks es s) (hev : Quiet ev) : Tracks (es ++ [ev]) s where
  running := h.running
  saved t hused hcurrent := by
    rw [lastSeen_snoc, hev.observe]
    exact h.saved t hused hcurrent
  occupied := by
    rw [occupant_snoc, hev.occupy]
    exact h.occupied

/-- Blocking, waking or faulting a task that does not run. -/
theorem setState (h : Tracks es s) (hev : Quiet ev) {t : Fin TASKS} {state : TaskState}
    (hused : (s.taskAt t).state ≠ .unused) (hcurrent : s.current ≠ some t.val) :
    Tracks (es ++ [ev]) (s.setTask t { s.taskAt t with state }) where
  running u hu := by
    have hne : u ≠ t := by
      rintro rfl
      exact hcurrent hu
    rw [Scheduler.taskAt_setTask, Function.update_of_ne hne]
    exact h.running u hu
  saved u hu hucurrent := by
    rw [Scheduler.taskAt_setTask] at hu ⊢
    rw [lastSeen_snoc, hev.observe]
    rcases eq_or_ne u t with rfl | hne
    · rw [Function.update_self]
      exact h.saved u hused hucurrent
    · rw [Function.update_of_ne hne] at hu ⊢
      exact h.saved u hu hucurrent
  occupied := by
    rw [occupant_snoc, hev.occupy]
    exact h.occupied

/-- Spawning a task. -/
theorem spawn (h : Tracks es s) {id : Fin TASKS} {context : UserContext}
    (hid : (s.taskAt id).state = .unused)
    (hobserve : ∀ t seen, observe t seen ev = if id.val = t then some context else seen)
    (hoccupy : ∀ o, occupy o ev = o) :
    Tracks (es ++ [ev]) (s.setTask id { state := .runnable, context, runtimeTicks := 0 }) where
  running t ht := by
    rw [Scheduler.taskAt_setTask]
    rcases eq_or_ne t id with rfl | hne
    · rw [Function.update_self]
    · rw [Function.update_of_ne hne]
      exact h.running t ht
  saved t hused hcurrent := by
    rw [Scheduler.taskAt_setTask] at hused ⊢
    rw [lastSeen_snoc, hobserve]
    rcases eq_or_ne t id with rfl | hne
    · rw [Function.update_self, if_pos rfl]
    · rw [Function.update_of_ne hne] at hused ⊢
      rw [if_neg fun heq => hne (Fin.ext heq.symm)]
      exact h.saved t hused hcurrent
  occupied := by
    rw [occupant_snoc, hoccupy]
    exact h.occupied

/-- Launching the first task, when there is one to launch. -/
theorem launch (h : Tracks es s) (hnone : s.current = none)
    (hobserve : ∀ t seen, observe t seen ev = seen) (next : Option (Fin TASKS))
    (hoccupy : ∀ o, occupy o ev = next.map Fin.val) (tasks : s'.taskAt = s.charge)
    (current : s'.current = next.map Fin.val)
    (hnext : ∀ t, next = some t → (s.taskAt t).state = .runnable) : Tracks (es ++ [ev]) s' where
  running t ht := by
    rw [tasks, Scheduler.charge_state]
    rw [current, Option.map_eq_some_iff] at ht
    obtain ⟨u, hu, heq⟩ := ht
    rw [← Fin.ext heq]
    exact hnext u hu
  saved t hused hcurrent := by
    rw [tasks, Scheduler.charge_state] at hused
    rw [tasks, Scheduler.charge_context, lastSeen_snoc, hobserve]
    exact h.saved t hused (by rw [hnone]; nofun)
  occupied := by
    rw [occupant_snoc, hoccupy, current]

/-- Preempting the running task. -/
theorem preempt (h : Tracks es s) (ev : SystemEvent TASKS) {p next : Fin TASKS}
    {context : UserContext} (hcurrent : s.current = some p.val)
    (hobserve : ∀ t seen, observe t seen ev = if p.val = t then some context else seen)
    (hoccupy : ∀ o, occupy o ev = some next.val) (current : s'.current = some next.val)
    (hnext : (s'.taskAt next).state = .runnable)
    (states : ∀ t, (s'.taskAt t).state = (s.taskAt t).state)
    (saved : (s'.taskAt p).context = context)
    (others : ∀ t ≠ p, (s'.taskAt t).context = (s.taskAt t).context) :
    Tracks (es ++ [ev]) s' ∧ lastSeen next (es ++ [ev]) = some (s'.taskAt next).context := by
  have hseen : ∀ t, (s'.taskAt t).state ≠ .unused →
      lastSeen t (es ++ [ev]) = some (s'.taskAt t).context := by
    intro t hused
    rw [lastSeen_snoc, hobserve]
    rcases eq_or_ne t p with rfl | hne
    · rw [if_pos rfl, saved]
    · have hne' : p.val ≠ t.val := fun heq => hne (Fin.ext heq.symm)
      rw [if_neg hne', others t hne]
      refine h.saved t (states t ▸ hused) ?_
      rw [hcurrent]
      exact fun heq => hne' (Option.some.inj heq)
  refine ⟨⟨fun t ht => ?_, fun t hused _ => hseen t hused, ?_⟩,
    hseen next (by rw [hnext]; nofun)⟩
  · rw [current, Option.some.injEq] at ht
    rw [← Fin.ext ht]
    exact hnext
  · rw [occupant_snoc, hoccupy, current]

end Tracks

/-! ## Runs -/

/-- What isolation says of an event and the history before it: a preemption puts into the
CPU what the next task was last seen with and leaves the saved contexts of the other tasks
alone, and it does switch if a task runs; the current task is the one the CPU was given
to. -/
structure Isolated (past : List (SystemEvent TASKS)) (ev : SystemEvent TASKS) : Prop where
  restored : ∀ scratch previous next, ev.op = .preempt scratch →
    ev.result = .preempted (some (previous, next)) →
      lastSeen next (past ++ [ev]) = some (userContext ev.after.cpu)
  preserved : ∀ scratch t, ev.op = .preempt scratch → ev.before.scheduler.current ≠ some t →
    ev.after.scheduler.context t = ev.before.scheduler.context t
  switches : ∀ scratch t, ev.op = .preempt scratch → ev.before.scheduler.current = some t →
    ∃ next, ev.result = .preempted (some (t, next))
  current : ev.after.scheduler.current = occupant (past ++ [ev])

theorem Isolated.of_tracks {es : List (SystemEvent TASKS)} {ev : SystemEvent TASKS}
    (hop : ∀ scratch, ev.op ≠ .preempt scratch) (h : Tracks (es ++ [ev]) ev.after.scheduler) :
    Isolated es ev where
  restored scratch _ _ hpreempt := absurd hpreempt (hop scratch)
  preserved scratch _ hpreempt := absurd hpreempt (hop scratch)
  switches scratch _ hpreempt := absurd hpreempt (hop scratch)
  current := h.occupied

section Runs

variable {es : List (SystemEvent TASKS)} {system system' : System TASKS}

/-- A step of the scheduler. -/
theorem tracks_scheduling {op : SystemOp} {sop : SchedulerOp} (hop : op.scheduling = some sop)
    {r : SchedulerResult} {s' : Scheduler TASKS} (h : Tracks es system.scheduler)
    (htrans : Transition system.scheduler sop r s')
    (used : WellUsed ⟨system, op, ofScheduling r, { system with scheduler := s' }⟩) :
    Tracks (es ++ [⟨system, op, ofScheduling r, { system with scheduler := s' }⟩]) s' := by
  cases op with
  | spawn context =>
      cases hop
      cases htrans with
      | full => exact h.quiet ⟨fun _ _ => rfl, fun _ => rfl⟩
      | spawned hid => exact h.spawn hid (fun _ _ => rfl) fun _ => rfl
      | refused hw => cases hw
      | wrote hw => cases hw
  | block task | wake task | fault task =>
      cases hop
      cases htrans with
      | refused => exact h.quiet ⟨fun _ _ => rfl, fun _ => rfl⟩
      | wrote hw hused =>
          cases hw
          exact h.setState ⟨fun _ _ => rfl, fun _ => rfl⟩ hused used
  | launch =>
      cases hop
      cases htrans with
      | refused hw => cases hw
      | wrote hw => cases hw
      | idle hidle tasks current =>
          exact h.launch used (fun _ _ => rfl) none (fun _ => rfl) tasks current nofun
      | @switched _ next hfind tasks current =>
          refine h.launch used (fun _ _ => rfl) (some next) (fun _ => rfl) tasks current ?_
          rintro t ⟨⟩
          exact Scheduler.runnable_of_cyclicFind hfind
  | run => cases hop
  | preempt => cases hop

/-- An interrupt while no task is current changes nothing. -/
theorem isolated_preempt_idle (sound : Sound system) (h : Tracks es system.scheduler)
    (hcurrent : system.scheduler.current = none) {scratch : Scratch} {r : SystemResult}
    (hstep : systemStep system (.preempt scratch) = some (r, system')) :
    Tracks (es ++ [⟨system, .preempt scratch, r, system'⟩]) system'.scheduler ∧
      Isolated es ⟨system, .preempt scratch, r, system'⟩ := by
  obtain ⟨cpu', hstep', -, -⟩ := step_preempt sound scratch (selectNext_idle hcurrent)
  rw [hstep, Option.some.injEq, Prod.mk.injEq] at hstep'
  obtain ⟨rfl, rfl⟩ := hstep'
  have htracks : Tracks (es ++ [⟨system, .preempt scratch, .preempted none,
      ⟨system.scheduler, cpu'⟩⟩]) system.scheduler := by
    refine h.quiet ⟨fun t seen => ?_, fun _ => rfl⟩
    show (if system.scheduler.current = some t then _ else seen) = seen
    rw [hcurrent, if_neg nofun]
  refine ⟨htracks, fun _ _ _ _ hr => ?_, fun _ _ _ _ => rfl, fun _ t _ ht => ?_,
    htracks.occupied⟩
  · cases hr
  · rw [hcurrent] at ht
    cases ht

/-- A preemption of the current task. -/
theorem isolated_preempt_running (sound : Sound system) (h : Tracks es system.scheduler)
    {p : Fin TASKS} (hcurrent : system.scheduler.current = some p.val) {scratch : Scratch}
    {r : SystemResult} (hstep : systemStep system (.preempt scratch) = some (r, system')) :
    Tracks (es ++ [⟨system, .preempt scratch, r, system'⟩]) system'.scheduler ∧
      Isolated es ⟨system, .preempt scratch, r, system'⟩ := by
  have hrun := h.running p hcurrent
  obtain ⟨next, s', hselect, hcurrent', hnext, states, saved, others⟩ :=
    selectNext_of_runnable (userContext system.cpu) sound.valid hcurrent (by rw [hrun]; nofun)
      ⟨p, hrun⟩
  obtain ⟨cpu', hstep', -, hcontext⟩ := step_preempt sound scratch hselect
  rw [hstep, Option.some.injEq, Prod.mk.injEq] at hstep'
  obtain ⟨rfl, rfl⟩ := hstep'
  have hcontext : userContext cpu' = (s'.taskAt next).context := hcontext
  have hobserve : ∀ t seen, (if system.scheduler.current = some t then
      some (userContext system.cpu) else seen) =
        if p.val = t then some (userContext system.cpu) else seen := by
    intro t seen
    rw [hcurrent]
    simp only [Option.some.injEq]
  obtain ⟨htracks, hseen⟩ := h.preempt
    ⟨system, .preempt scratch, .preempted (some (p.val, next.val)), ⟨s', cpu'⟩⟩
    hcurrent hobserve (fun _ => rfl) hcurrent' hnext states saved others
  refine ⟨htracks, ?_, ?_, ?_, htracks.occupied⟩
  · rintro _ previous _ - ⟨⟩
    exact hseen.trans (congrArg some hcontext.symm)
  · -- only the context of the preempted task is written
    rintro _ t - ht
    show s'.context t = system.scheduler.context t
    by_cases hlt : t < TASKS
    · lift t to Fin TASKS using hlt
      refine Scheduler.context_congr (states t) (others t ?_)
      rintro rfl
      exact ht hcurrent
    · rw [Scheduler.context_absent (Nat.le_of_not_lt hlt),
        Scheduler.context_absent (Nat.le_of_not_lt hlt)]
  · rintro _ t - ht
    have ht : system.scheduler.current = some t := ht
    rw [hcurrent] at ht
    cases ht
    exact ⟨next, rfl⟩

theorem isolated_preempt (sound : Sound system) (h : Tracks es system.scheduler)
    {scratch : Scratch} {r : SystemResult}
    (hstep : systemStep system (.preempt scratch) = some (r, system')) :
    Tracks (es ++ [⟨system, .preempt scratch, r, system'⟩]) system'.scheduler ∧
      Isolated es ⟨system, .preempt scratch, r, system'⟩ := by
  cases hcurrent : system.scheduler.current with
  | none => exact isolated_preempt_idle sound h hcurrent hstep
  | some p =>
      have hp := sound.valid p hcurrent
      lift p to Fin TASKS using hp
      exact isolated_preempt_running sound h hcurrent hstep

/-- One step keeps track, and is isolated. -/
theorem isolated_step (sound : Sound system) (h : Tracks es system.scheduler) {op : SystemOp}
    {r : SystemResult} (hstep : systemStep system op = some (r, system'))
    (used : WellUsed ⟨system, op, r, system'⟩) :
    Tracks (es ++ [⟨system, op, r, system'⟩]) system'.scheduler ∧
      Isolated es ⟨system, op, r, system'⟩ := by
  cases hop : op.scheduling with
  | some sop =>
      obtain ⟨r₁, s', hsched, htrans⟩ := step_transition sound.valid sop
      have heq := step_scheduling hop hsched
      rw [hstep, Option.some.injEq, Prod.mk.injEq] at heq
      obtain ⟨rfl, rfl⟩ := heq
      have htracks := tracks_scheduling hop h htrans used
      refine ⟨htracks, .of_tracks (fun scratch hpreempt => ?_) htracks⟩
      have hpreempt : op = .preempt scratch := hpreempt
      rw [hpreempt] at hop
      cases hop
  | none =>
      cases op with
      | preempt scratch => exact isolated_preempt sound h hstep
      | run context memory =>
          cases hstep
          have htracks : Tracks (es ++ [⟨system, .run context memory, .ran,
              { system with cpu := ran system.cpu context memory }⟩]) system.scheduler :=
            h.quiet ⟨fun _ _ => rfl, fun _ => rfl⟩
          exact ⟨htracks, .of_tracks (fun _ => nofun) htracks⟩
      | spawn => cases hop
      | block => cases hop
      | wake => cases hop
      | fault => cases hop
      | launch => cases hop

end Runs

/-- **Context isolation across preemption.**  From `new()` and any CPU with an aligned
kernel stack, every run of the system exists.  If the first task was launched while no task
ran, and tasks were blocked, woken and faulted only while they did not run, then each
preemption that switches to a task puts into the CPU the 35 registers the task was last
seen with, when it was last preempted or else spawned; no preemption changes the saved
context of a task that was not running; and the current task is at every point the one
whose context was put into the CPU. -/
theorem context_isolation (cpu : State) (aligned : Aligned cpu.sp) (ops : List SystemOp) :
    ∃ es system, (systemMachine TASKS cpu).exec ⟨Scheduler.new, cpu⟩ ops = some (es, system) ∧
      ((∀ ev ∈ es, WellUsed ev) → AtEach es Isolated) := by
  obtain ⟨es, system, hexec, -, hrun⟩ := Machine.exec_of_invariant
    (M := systemMachine TASKS cpu) (s := ⟨Scheduler.new, cpu⟩)
    (fun es system => Sound system ∧ ((∀ ev ∈ es, WellUsed ev) →
      Tracks es system.scheduler ∧ AtEach es Isolated))
    ⟨⟨valid_new, aligned⟩, fun _ => ⟨tracks_new, .nil⟩⟩
    (fun es system op ⟨sound, h⟩ => by
      obtain ⟨r, system', hstep, sound'⟩ := step_sound sound op
      refine ⟨r, system', hstep, sound', fun used => ?_⟩
      rw [List.forall_mem_append, List.forall_mem_singleton] at used
      obtain ⟨htracks, hisolated⟩ := h used.1
      obtain ⟨htracks', hlast⟩ := isolated_step sound htracks hstep used.2
      exact ⟨htracks', hisolated.snoc hlast⟩) ops
  exact ⟨es, system, hexec, fun used => (hrun used).2⟩

/-- Registers that all differ. -/
def sampleContext (first : Word) : UserContext where
  x := Vector.ofFn fun i => first + BitVec.ofNat 64 i
  spEl0 := first + 31
  elrEl1 := first + 32
  spsrEl1 := first + 33
  ttbr0El1 := first + 34

/-- The CPU of the sample, with the end of its kernel stack at 4096. -/
def sampleCpu : State where
  x _ := 7
  sp := 0x1000
  sys _ := 8
  memory _ := 9
  flags := .clear

/-- Two tasks: the first runs and is preempted, the second runs and is preempted in turn. -/
def sampleTurns : List SystemOp := [
  .spawn (sampleContext 100),
  .spawn (sampleContext 200),
  .launch,
  .run (sampleContext 300) 0,
  .preempt ⟨1, 1, .clear⟩,
  .run (sampleContext 400) 2,
  .preempt ⟨3, 3, .clear⟩]

/-- The first task gets back the registers that it left. -/
theorem context_isolation_switch :
    ∃ es system, (systemMachine 2 sampleCpu).exec ⟨Scheduler.new, sampleCpu⟩ sampleTurns =
        some (es, system) ∧
      (∀ ev ∈ es, WellUsed ev) ∧ AtEach es Isolated ∧
      (es.map fun ev => ev.after.scheduler.current) =
        [none, none, some 0, some 0, some 1, some 1, some 0] ∧
      userContext system.cpu = sampleContext 300 := by
  obtain ⟨es, system, hexec, h⟩ := @context_isolation 2 sampleCpu (by decide) sampleTurns
  have heval : ((systemMachine 2 sampleCpu).exec ⟨Scheduler.new, sampleCpu⟩ sampleTurns).map
      (fun run => (run.1.map fun ev => ev.after.scheduler.current, userContext run.2.cpu)) =
        some ([none, none, some 0, some 0, some 1, some 1, some 0], sampleContext 300) := by
    decide +kernel
  rw [hexec, Option.map_some, Option.some.injEq, Prod.mk.injEq] at heval
  have used : ∀ ev ∈ es, WellUsed ev := by
    obtain ⟨r₁, s₁, es₁, h₁, hexec₁, rfl⟩ := Machine.exec_cons_inv hexec
    obtain ⟨r₂, s₂, es₂, h₂, hexec₂, rfl⟩ := Machine.exec_cons_inv hexec₁
    obtain ⟨r₃, s₃, es₃, h₃, hexec₃, rfl⟩ := Machine.exec_cons_inv hexec₂
    obtain ⟨r₄, s₄, es₄, h₄, hexec₄, rfl⟩ := Machine.exec_cons_inv hexec₃
    obtain ⟨r₅, s₅, es₅, h₅, hexec₅, rfl⟩ := Machine.exec_cons_inv hexec₄
    obtain ⟨r₆, s₆, es₆, h₆, hexec₆, rfl⟩ := Machine.exec_cons_inv hexec₅
    obtain ⟨r₇, s₇, es₇, h₇, hexec₇, rfl⟩ := Machine.exec_cons_inv hexec₆
    cases hexec₇
    have hlaunch : s₂.scheduler.current = none := by
      cases h₁
      cases h₂
      rfl
    simp [WellUsed, hlaunch]
  exact ⟨es, system, hexec, used, h used, heval⟩

end Aegis.Preempt
