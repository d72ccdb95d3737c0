import Mathlib
import Aegis.Live.Sandbox
import Aegis.Preempt.Switching

/-!
# Guarded memory

The pages of user code and the boot tables change in one way only: user code stores to its
stacks.  The vectors write to a frame on the kernel stack, which the linker script places
elsewhere, and what compiled code leaves is confined.  So the tables stay as the boot code
built them, and translation stays the identity on what user code may access.
-/

namespace Aegis.Live

open Foundation A64 Sched Preempt Boot

variable {layout : Layout} {memory memory' : Word → Word} {va : Word}

/-! ## Access through the boot tables -/

/-- Memory that agrees on the tables translates in the same way. -/
theorem BuiltTables.congr (h : BuiltTables layout memory)
    (heq : ∀ table, table = layout.bootL1Table ∨ table = layout.bootL2Table ∨
      table = layout.bootL3Table → ∀ i < 512, memory' (wordAt table i) = memory (wordAt table i)) :
    BuiltTables layout memory' where
  devices := by rw [heq _ (.inl rfl) 0 (by decide), h.devices]
  ram := by rw [heq _ (.inl rfl) 1 (by decide), h.ram]
  beyond i hi hi' := by rw [heq _ (.inl rfl) i hi', h.beyond i hi hi']
  firstPages := by rw [heq _ (.inr (.inl rfl)) 0 (by decide), h.firstPages]
  block i hi hi' := by rw [heq _ (.inr (.inl rfl)) i hi', h.block i hi hi']
  page i hi := by rw [heq _ (.inr (.inr rfl)) i hi, h.page i hi]

section Access

variable (h : BuiltTables layout memory)
include h

/-- An allowed access goes to the address itself. -/
theorem translateIf_eq (hva : va.toNat < 2 ^ 39) {allows : Word → Bool} {P : Prop} [Decidable P]
    (hP : (∃ leaf, walk memory layout.bootL1Table va = some leaf ∧ allows leaf.entry = true) ↔ P) :
    translateIf memory layout.bootL1Table va allows = if P then some va else none := by
  rw [translateIf, if_pos hva]
  rcases walk_cases h hva with ⟨hwalk, -⟩ | ⟨leaf, -, hwalk, -, houtput, -⟩
  · have hnot : ¬P := by
      rw [← hP, hwalk]
      rintro ⟨leaf, hleaf, -⟩
      cases hleaf
    rw [hwalk, if_neg hnot]
    rfl
  · have hiff : allows leaf.entry = true ↔ P := by
      rw [← hP, hwalk]
      constructor
      · exact fun hallows => ⟨leaf, rfl, hallows⟩
      · rintro ⟨leaf', hleaf, hallows⟩
        cases hleaf
        exact hallows
    rw [hwalk, Option.bind_some, houtput]
    simp only [hiff]

theorem el0Load_eq (hva : va.toNat < 2 ^ 39) :
    el0Load memory layout.bootL1Table va =
      if InPage layout.userTextStart va ∨ InStack layout va then some va else none :=
  translateIf_eq h hva (el0Reads_iff h hva)

theorem el0Store_eq : el0Store memory layout.bootL1Table va =
    if InStack layout va then some va else none := by
  by_cases hva : va.toNat < 2 ^ 39
  · refine translateIf_eq h hva (Iff.trans ?_ (el0Writes_iff h hva))
    simp only [Bool.and_eq_true, Bool.not_eq_true']
    rfl
  · have hnot : ¬InStack layout va := by
      rintro (hin | hin)
      · have := layout.userStackA_page.range_of_inPage hin
        omega
      · have := layout.userStackB_page.range_of_inPage hin
        omega
    rw [el0Store, translateIf, if_neg hva, if_neg hnot]

theorem el0Fetch_eq (hva : InPage layout.userTextStart va) :
    el0Fetch memory layout.bootL1Table va = some va := by
  have hrange := layout.userText_page.range_of_inPage hva
  have hlt : va.toNat < 2 ^ 39 := by omega
  have hexecutes : ∃ leaf, walk memory layout.bootL1Table va = some leaf ∧
      (!leaf.entry.getLsbD 54) = true := by
    simp only [Bool.not_eq_true']
    exact (el0Executes_iff h hlt).mpr ⟨hrange, fun hstack => not_inPage_userText hstack hva⟩
  rw [el0Fetch, translateIf_eq h hlt (iff_true_intro hexecutes), if_pos trivial]

end Access

/-! ## Stores of user code -/

@[simp] theorem storeStacks_nil : storeStacks layout memory [] = memory := rfl

theorem storeStacks_cons (store : Word × Word) (stores : List (Word × Word)) :
    storeStacks layout memory (store :: stores) =
      storeStacks layout (storeStacks layout memory [store]) stores := rfl

/-- Stores change the stacks only. -/
theorem storeStacks_of_not {address : Word} (h : ¬InStack layout address)
    (stores : List (Word × Word)) :
    storeStacks layout memory stores address = memory address := by
  induction stores generalizing memory with
  | nil => rfl
  | cons store stores ih =>
      rw [storeStacks_cons, ih]
      show (if InStack layout store.1 ∧ Aligned store.1 then
        Function.update memory store.1 store.2 else memory) address = memory address
      split_ifs with hstore
      · rw [Function.update_of_ne]
        rintro rfl
        exact h hstore.1
      · rfl

/-- What stores leave in the stacks depends on what was in the stacks. -/
theorem storeStacks_congr (h : ∀ a, InStack layout a → memory a = memory' a)
    (stores : List (Word × Word)) {a : Word} (ha : InStack layout a) :
    storeStacks layout memory stores a = storeStacks layout memory' stores a := by
  induction stores generalizing memory memory' with
  | nil => exact h a ha
  | cons store stores ih =>
      rw [storeStacks_cons, storeStacks_cons _ stores]
      apply ih
      intro b hb
      show (if InStack layout store.1 ∧ Aligned store.1 then
        Function.update memory store.1 store.2 else memory) b =
          (if InStack layout store.1 ∧ Aligned store.1 then
            Function.update memory' store.1 store.2 else memory') b
      split_ifs with hstore
      · rcases eq_or_ne b store.1 with rfl | hne
        · rw [Function.update_self, Function.update_self]
        · rw [Function.update_of_ne hne, Function.update_of_ne hne, h b hb]
      · exact h b hb

/-! ## Where things are -/

/-- What the linker script says of the places of things, and the stack pointer of EL1 while
user code runs: the user text comes before the BSS and the user stacks after it; in the BSS
the boot stack comes before the boot tables, and has room for a frame. -/
structure Placement (layout : Layout) (sp : Word) : Prop where
  text_le : layout.userTextStart.toNat + 4096 ≤ layout.bssStart.toNat
  bssEnd_le : layout.bssEnd.toNat ≤ layout.userStackABottom.toNat
  stackB_eq : layout.userStackBBottom.toNat = layout.userStackABottom.toNat + 4096
  aligned : Aligned sp
  le_sp : layout.bssStart.toNat + 256 ≤ sp.toNat
  sp_le_l1 : sp.toNat ≤ layout.bootL1Table.toNat
  sp_le_l2 : sp.toNat ≤ layout.bootL2Table.toNat
  sp_le_l3 : sp.toNat ≤ layout.bootL3Table.toNat

section Placement

variable {sp : Word} (h : Placement layout sp)
include h

/-- The frame of a vector is not guarded. -/
theorem Placement.frame_unguarded (i : Fin 31) : ¬Guarded layout (wordAt (sp - 256) i) := by
  have htoNat : (wordAt (sp - 256) i).toNat = sp.toNat - 256 + 8 * i.val := by
    have hsp := h.le_sp
    have hi := i.isLt
    have hsub : (sp - 256).toNat = sp.toNat - 256 := by
      rw [BitVec.toNat_sub]
      show (2 ^ 64 - 256 + sp.toNat) % 2 ^ 64 = _
      omega
    rw [toNat_wordAt (by omega), hsub]
  have := h.text_le
  have := h.bssEnd_le
  have := h.stackB_eq
  have := h.le_sp
  have := h.sp_le_l1
  have := h.sp_le_l2
  have := h.sp_le_l3
  have := layout.l1_table.end_le
  have := i.isLt
  rintro (hin | hin | hin | hin | hin | hin) <;>
    · obtain ⟨hle, hlt⟩ := hin
      rw [htoNat] at hle hlt
      omega

/-- The words of the tables are guarded, and not in the stacks. -/
theorem Placement.table_guarded {table : Word} (htable : table = layout.bootL1Table ∨
    table = layout.bootL2Table ∨ table = layout.bootL3Table) {i : ℕ} (hi : i < 512) :
    Guarded layout (wordAt table i) ∧ ¬InStack layout (wordAt table i) := by
  have hbss : BootTable layout.bssStart layout.bssEnd table := by
    rcases htable with rfl | rfl | rfl
    · exact layout.l1_table
    · exact layout.l2_table
    · exact layout.l3_table
  have hend := hbss.end_le
  have hstack := h.bssEnd_le
  have hstackB := h.stackB_eq
  have hlast := layout.bssEnd_le
  have htoNat : (wordAt table i).toNat = table.toNat + 8 * i := toNat_wordAt (by omega)
  have hpage : InPage table (wordAt table i) := by
    constructor <;> rw [htoNat] <;> omega
  constructor
  · rcases htable with rfl | rfl | rfl
    · exact .inr (.inr (.inr (.inl hpage)))
    · exact .inr (.inr (.inr (.inr (.inl hpage))))
    · exact .inr (.inr (.inr (.inr (.inr hpage))))
  · rintro (⟨hle, -⟩ | ⟨hle, -⟩) <;> rw [htoNat] at hle <;> omega

/-- The tables stay while the guarded words outside the stacks do. -/
theorem Placement.builtTables (htables : BuiltTables layout memory)
    (hguard : ∀ a, Guarded layout a → ¬InStack layout a → memory' a = memory a) :
    BuiltTables layout memory' := by
  refine BuiltTables.congr htables fun table htable i hi => ?_
  obtain ⟨hin, hout⟩ := h.table_guarded htable hi
  exact hguard _ hin hout

/-- User code stores to its stacks, at the addresses it names. -/
theorem Placement.storeAll_eq (htables : BuiltTables layout memory)
    (stores : List (Word × Word)) :
    storeAll layout.bootL1Table memory stores = storeStacks layout memory stores := by
  induction stores generalizing memory with
  | nil => rfl
  | cons store stores ih =>
      have hfirst : storeAll layout.bootL1Table memory [store] =
          storeStacks layout memory [store] := by
        simp only [storeAll, storeStacks, List.foldl_cons, List.foldl_nil, el0Store_eq htables]
        by_cases hin : InStack layout store.1
        · simp only [hin, if_true, true_and]
        · simp only [hin, if_false, false_and]
      have htables' : BuiltTables layout (storeStacks layout memory [store]) :=
        h.builtTables htables fun a _ hout => storeStacks_of_not hout _
      calc storeAll layout.bootL1Table memory (store :: stores)
          = storeAll layout.bootL1Table (storeAll layout.bootL1Table memory [store]) stores := rfl
        _ = storeStacks layout memory (store :: stores) := by rw [hfirst, ih htables']; rfl

end Placement

/-! ## The vectors -/

/-- A state differs from another in unguarded memory only. -/
def SameGuarded (layout : Layout) (memory memory' : Word → Word) : Prop :=
  ∀ a, Guarded layout a → memory' a = memory a

/-- Writes to the frame leave guarded memory alone. -/
theorem Placement.overwrite_frame {sp : Word} (h : Placement layout sp) {value : Fin 31 → Word}
    {a : Word} (ha : Guarded layout a) :
    overwrite memory ((List.finRange 31).map fun i : Fin 31 => (wordAt (sp - 256) i, value i)) a =
      memory a := by
  apply overwrite_of_notMem
  intro write hwrite
  obtain ⟨i, -, rfl⟩ := List.mem_map.mp hwrite
  rintro rfl
  exact h.frame_unguarded i ha

theorem Placement.writeFrame_eq {sp : Word} (h : Placement layout sp) (x : Vector Word 31)
    {a : Word} (ha : Guarded layout a) : writeFrame memory (sp - 256) x a = memory a :=
  h.overwrite_frame ha

/-- **Into the dispatcher**: the registers are in the frame. -/
theorem Placement.vectorEntry_eq {cpu : State} (h : Placement layout cpu.sp) :
    ∃ entered, execBlock vectorEntry cpu = some entered ∧ entered.x 0 = cpu.sp - 256 ∧
      entered.sp = cpu.sp - 256 ∧ entered.sys = cpu.sys ∧
      frameContext entered (cpu.sp - 256) = userContext cpu ∧
      SameGuarded layout cpu.memory entered.memory := by
  obtain ⟨entered, hentry, hx, hsp, hsys, hcontext⟩ := Preempt.vectorEntry_eq h.aligned
  refine ⟨entered, hentry, hx.trans hsp, hsp, hsys, hsp ▸ hcontext, ?_⟩
  have hsaved : execBlock saveRegisters { cpu with sp := cpu.sp - 256 } =
      some (State.save { cpu with sp := cpu.sp - 256 } frameLayout) :=
    execBlock_stores storesOf_saveRegisters (aligned_frameLayout (h.aligned.sub (by decide)))
  rw [vectorEntry, execBlock_cons (t := { cpu with sp := cpu.sp - 256 }) rfl,
    execBlock_append hsaved] at hentry
  obtain rfl := Option.some.inj hentry
  intro a ha
  show overwrite cpu.memory (frameLayout.map fun p => (cpu.sp - 256 + p.1, cpu.x p.2)) a = _
  rw [frameLayout, List.map_map]
  exact h.overwrite_frame ha

/-- **Out of the dispatcher**: whatever is in the frame and the system registers, user code
gets, and guarded memory is as the dispatcher left it. -/
theorem Placement.vectorExit_eq {sp : Word} (h : Placement layout sp) {dispatched : State}
    (hsp : dispatched.sp = sp - 256) (scratch : Scratch) :
    ∃ resumed, execBlock vectorExit
        (returned dispatched (sp - 256) (confine layout dispatched scratch)) = some resumed ∧
      resumed.sp = sp ∧ resumed.sys = dispatched.sys ∧
      userContext resumed = frameContext dispatched (sp - 256) ∧
      SameGuarded layout dispatched.memory resumed.memory := by
  let left := returned dispatched (sp - 256) (confine layout dispatched scratch)
  have hleft : left.sp = sp - 256 := hsp
  have aligned : Aligned left.sp := hleft ▸ h.aligned.sub (by decide)
  obtain ⟨resumed, hexit, hsp', hsys, hcontext⟩ := Preempt.vectorExit_eq aligned
  refine ⟨resumed, hexit, ?_, hsys, ?_, ?_⟩
  · rw [hsp', hleft, BitVec.sub_add_cancel]
  · rw [hcontext, hleft]
    exact frameContext_returned ..
  · have hloaded : execBlock loadRegisters left = some (left.restore frameLayout) :=
      execBlock_loads loadsOf_loadRegisters (aligned_frameLayout aligned)
    rw [vectorExit, execBlock_append hloaded] at hexit
    obtain rfl := Option.some.inj hexit
    intro a ha
    show writeFrame (confine layout dispatched scratch).memory (sp - 256)
      (readFrame dispatched.memory (sp - 256)) a = dispatched.memory a
    rw [h.writeFrame_eq _ ha]
    exact if_pos ha

end Aegis.Live
