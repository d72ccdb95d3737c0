import Mathlib
import Aegis.Preempt.Model

/-!
# What a preemption does

The vector hands the registers of the interrupted task to the dispatcher and the registers
it gets back to the next one, through the same frame.  So a preemption comes down to what
`selectNext` does with the context in the CPU: it saves that one for the current task and
returns that of the next.
-/

namespace Aegis.Preempt

open Foundation A64 Sched

variable {TASKS : ℕ}

/-! ## The vector -/

/-- Where the vector keeps `x0` to `x30`, relative to the stack pointer. -/
def frameLayout : List (Word × Reg) :=
  (List.finRange 31).map fun i : Reg => (BitVec.ofNat 64 (8 * i.val), i)

theorem storesOf_saveRegisters : storesOf saveRegisters = some frameLayout := rfl

theorem loadsOf_loadRegisters : loadsOf loadRegisters = some frameLayout := rfl

theorem aligned_frameLayout {sp : Word} (h : Aligned sp) :
    ∀ p ∈ frameLayout, Aligned (sp + p.1) := by
  intro p hp
  obtain ⟨i, -, rfl⟩ := List.mem_map.mp hp
  exact h.wordAt i

theorem frame_injective (frame : Word) :
    Function.Injective fun i : Fin 31 => wordAt frame i := by
  intro i j h
  exact Fin.ext (wordAt_injective (by omega) (by omega) h)

@[simp] theorem readFrame_writeFrame (memory : Word → Word) (frame : Word) (x : Vector Word 31) :
    readFrame (writeFrame memory frame x) frame = x := by
  apply Vector.ext
  intro i hi
  simp only [readFrame, Vector.getElem_ofFn]
  exact overwrite_family memory (frame_injective frame) (fun i : Fin 31 => x[i]) ⟨i, hi⟩

theorem vectorEntry_eq {cpu : State} (aligned : Aligned cpu.sp) :
    ∃ entered, execBlock vectorEntry cpu = some entered ∧ entered.x 0 = entered.sp ∧
      entered.sp = cpu.sp - 256 ∧ entered.sys = cpu.sys ∧
      frameContext entered entered.sp = userContext cpu := by
  have aligned' : Aligned (cpu.sp - 256) := aligned.sub (by decide)
  have hsaved : execBlock saveRegisters { cpu with sp := cpu.sp - 256 } =
      some (State.save { cpu with sp := cpu.sp - 256 } frameLayout) :=
    execBlock_stores storesOf_saveRegisters (aligned_frameLayout aligned')
  have hmemory : readFrame (State.save { cpu with sp := cpu.sp - 256 } frameLayout).memory
      (cpu.sp - 256) = Vector.ofFn cpu.x := by
    apply Vector.ext
    intro i hi
    simp only [readFrame, Vector.getElem_ofFn, State.save, frameLayout, List.map_map]
    exact overwrite_family cpu.memory (frame_injective (cpu.sp - 256)) cpu.x ⟨i, hi⟩
  refine ⟨(State.save { cpu with sp := cpu.sp - 256 } frameLayout).set 0 (cpu.sp - 256),
    ?_, by rw [State.set_x, Function.update_self]; rfl, rfl, rfl, ?_⟩
  · rw [vectorEntry, execBlock_cons (t := { cpu with sp := cpu.sp - 256 }) rfl,
      execBlock_append hsaved]
    rfl
  · rw [frameContext, userContext, userContext, UserContext.mk.injEq]
    exact ⟨hmemory, rfl, rfl, rfl, rfl⟩

theorem vectorExit_eq {cpu : State} (aligned : Aligned cpu.sp) :
    ∃ resumed, execBlock vectorExit cpu = some resumed ∧ resumed.sp = cpu.sp + 256 ∧
      resumed.sys = cpu.sys ∧ userContext resumed = frameContext cpu cpu.sp := by
  have hloaded : execBlock loadRegisters cpu = some (cpu.restore frameLayout) :=
    execBlock_loads loadsOf_loadRegisters (aligned_frameLayout aligned)
  have hx : (cpu.restore frameLayout).x = fun i : Reg => cpu.memory (wordAt cpu.sp i) := by
    funext i
    simp only [State.restore, frameLayout, List.map_map]
    exact overwrite_family cpu.x Function.injective_id
      (fun i : Reg => cpu.memory (wordAt cpu.sp i)) i
  refine ⟨{ cpu.restore frameLayout with sp := cpu.sp + 256 }, ?_, rfl, rfl, ?_⟩
  · rw [vectorExit, execBlock_append hloaded]
    rfl
  · rw [frameContext, userContext, userContext, UserContext.mk.injEq]
    exact ⟨by rw [readFrame, ← hx], rfl, rfl, rfl, rfl⟩

/-! ## The dispatcher -/

@[simp] theorem frameContext_returned (cpu : State) (frame : Word) (scratch : Scratch) :
    frameContext (returned cpu frame scratch) frame = frameContext cpu frame := by
  simp [frameContext, returned, userContext]

@[simp] theorem frameContext_loadContext (cpu : State) (frame : Word) (context : UserContext) :
    frameContext (loadContext cpu frame context) frame = context := by
  simp [frameContext, loadContext, userContext, writeSystem]

/-- **One preemption**, in terms of the registers of the tasks: those in the CPU are
handed to `selectNext`, and those it selects, if any, are in the CPU afterwards. -/
theorem preempt_eq (scratch : Scratch) {scheduler scheduler' : Scheduler TASKS} {cpu : State}
    {selected : Option (TaskId × TaskId × UserContext)} (aligned : Aligned cpu.sp)
    (h : selectNext (userContext cpu) scheduler = some (selected, scheduler')) :
    ∃ cpu', preempt scratch scheduler cpu =
        some (selected.map fun p => (p.1, p.2.1), scheduler', cpu') ∧
      cpu'.sp = cpu.sp ∧ userContext cpu' = selected.elim (userContext cpu) (fun p => p.2.2) := by
  obtain ⟨entered, hentry, hframe, hsp, -, hcontext⟩ := vectorEntry_eq aligned
  rw [← hframe] at hcontext
  have aligned' : Aligned entered.sp := hsp ▸ aligned.sub (by decide)
  -- whatever the dispatcher leaves in the frame, the task gets
  have exit : ∀ dispatched : State, dispatched.sp = entered.sp → ∃ cpu',
      execBlock vectorExit (returned dispatched (entered.x 0) scratch) = some cpu' ∧
        cpu'.sp = cpu.sp ∧ userContext cpu' = frameContext dispatched (entered.x 0) := by
    intro dispatched hdispatched
    have hreturned : (returned dispatched (entered.x 0) scratch).sp = entered.x 0 := by
      rw [hframe, ← hdispatched]
      rfl
    have hreturned' : Aligned (returned dispatched (entered.x 0) scratch).sp := by
      rw [hreturned, hframe]
      exact aligned'
    obtain ⟨cpu', hexit, hsp', -, hcontext'⟩ := vectorExit_eq hreturned'
    refine ⟨cpu', hexit, ?_, ?_⟩
    · rw [hsp', hreturned, hframe, hsp, BitVec.sub_add_cancel]
    · rw [hcontext', hreturned, frameContext_returned]
  unfold preempt scheduleLowerFrame
  simp only [hentry, hcontext, h]
  cases selected with
  | none =>
      obtain ⟨cpu', hexit, hsp', hcontext'⟩ := exit entered rfl
      exact ⟨cpu', by simp [hexit], hsp', by rw [hcontext', hcontext]; rfl⟩
  | some p =>
      obtain ⟨previous, next, context⟩ := p
      obtain ⟨cpu', hexit, hsp', hcontext'⟩ := exit (loadContext entered (entered.x 0) context) rfl
      exact ⟨cpu', by simp [hexit], hsp', by rw [hcontext', frameContext_loadContext]; rfl⟩

/-! ## Selecting the next task -/

section SelectNext

variable {context : UserContext} {s : Scheduler TASKS}

theorem schedule_eq {s' : Scheduler TASKS} {r : SchedulerResult}
    (h : (schedulerMachine TASKS).step s .schedule = some (r, s')) :
    ∃ switch, r = .switched switch ∧ s.schedule = some (switch, s') := by
  obtain ⟨⟨switch, s₁⟩, hschedule, heq⟩ := Option.map_eq_some_iff.mp h
  cases heq
  exact ⟨switch, rfl, hschedule⟩

/-- Saving the context of a task in use. -/
theorem saveContext_eq (context : UserContext) {t : Fin TASKS} (h : (s.taskAt t).state ≠ .unused) :
    Scheduler.saveContext t context s =
      some (.ok (), s.setTask t { s.taskAt t with context }) := by
  have h' : s.tasks[t.val].state ≠ .unused := h
  rw [Scheduler.saveContext, Scheduler.writeTask, dif_pos t.isLt, if_neg h']
  rfl

/-- Without a current task nothing is saved and nothing selected. -/
theorem selectNext_idle (h : s.current = none) : selectNext context s = some (none, s) := by
  rw [selectNext, h]

/-- With a current task in use, selecting is saving its context and scheduling, and the
context of the task scheduled is looked up. -/
theorem selectNext_eq (context : UserContext) (valid : s.Valid) {p : Fin TASKS}
    (hcurrent : s.current = some p.val) (hused : (s.taskAt p).state ≠ .unused) :
    ∃ switch s', Transition (s.setTask p { s.taskAt p with context }) .schedule
        (.switched switch) s' ∧
      selectNext context s = some (switch.bind fun switch =>
        (s'.context switch.next).map fun next => (p.val, switch.next, next), s') := by
  have hsave := saveContext_eq context hused
  obtain ⟨r, s', hstep, htrans⟩ := step_transition
    (s := s.setTask p { s.taskAt p with context }) valid .schedule
  obtain ⟨switch, rfl, hschedule⟩ := schedule_eq hstep
  refine ⟨switch, s', htrans, ?_⟩
  cases switch with
  | none => simp only [selectNext, hcurrent, Scheduler.context_coe hused, hsave, hschedule,
      Option.bind_none]
  | some switch =>
      cases hcontext : s'.context switch.next with
      | none => simp only [selectNext, hcurrent, Scheduler.context_coe hused, hsave, hschedule,
          hcontext, Option.bind_some, Option.map_none]
      | some next => simp only [selectNext, hcurrent, Scheduler.context_coe hused, hsave,
          hschedule, hcontext, Option.bind_some, Option.map_some]

/-- A current task in use is saved, and if there is a runnable task, itself or another, one
comes next. -/
theorem selectNext_of_runnable (context : UserContext) (valid : s.Valid) {p : Fin TASKS}
    (hcurrent : s.current = some p.val) (hused : (s.taskAt p).state ≠ .unused)
    (hrun : ∃ t, (s.taskAt t).state = .runnable) :
    ∃ (next : Fin TASKS) (s' : Scheduler TASKS),
      selectNext context s = some (some (p.val, next.val, (s'.taskAt next).context), s') ∧
        s'.current = some next.val ∧ (s'.taskAt next).state = .runnable ∧
        (∀ t, (s'.taskAt t).state = (s.taskAt t).state) ∧ (s'.taskAt p).context = context ∧
        ∀ t ≠ p, (s'.taskAt t).context = (s.taskAt t).context := by
  obtain ⟨switch, s', htrans, hselect⟩ := selectNext_eq context valid hcurrent hused
  have hstate : ∀ t, ((s.setTask p { s.taskAt p with context }).taskAt t).state =
      (s.taskAt t).state := by
    intro t
    rw [Scheduler.taskAt_setTask]
    rcases eq_or_ne t p with rfl | ht
    · rw [Function.update_self]
    · rw [Function.update_of_ne ht]
  cases htrans with
  | idle h =>
      obtain ⟨t, ht⟩ := hrun
      exact absurd ((hstate t).trans ht) (h t)
  | @switched _ next h tasks current =>
      have hnext : (s'.taskAt next).state = .runnable := by
        rw [tasks, Scheduler.charge_state, Scheduler.runnable_of_cyclicFind h]
      refine ⟨next, s', ?_, current, hnext, fun t => ?_, ?_, fun t ht => ?_⟩
      · rw [hselect, Option.bind_some, Scheduler.context_coe (by rw [hnext]; nofun),
          Option.map_some]
      · rw [tasks, Scheduler.charge_state, hstate]
      · rw [tasks, Scheduler.charge_context, Scheduler.taskAt_setTask, Function.update_self]
      · rw [tasks, Scheduler.charge_context, Scheduler.taskAt_setTask, Function.update_of_ne ht]

/-- Selecting returns, whatever the state. -/
theorem selectNext_total (valid : s.Valid) :
    ∃ selected s', selectNext context s = some (selected, s') ∧ s'.Valid := by
  cases hcurrent : s.current with
  | none => exact ⟨none, s, selectNext_idle hcurrent, valid⟩
  | some p =>
      have hp := valid p hcurrent
      lift p to Fin TASKS using hp
      by_cases hused : (s.taskAt p).state = .unused
      · refine ⟨none, s, ?_, valid⟩
        simp only [selectNext, hcurrent, Scheduler.context_unused hused]
      · obtain ⟨switch, s', htrans, hselect⟩ := selectNext_eq context valid hcurrent hused
        exact ⟨_, s', hselect, htrans.valid valid⟩

end SelectNext

end Aegis.Preempt
