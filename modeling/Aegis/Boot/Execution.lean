import Mathlib
import Aegis.Boot.Model

/-!
# Running the boot code

From any state the boot code runs to the call of `kernel_main`, and leaves memory as
`bootMemory` describes it, one expression for the five phases of the code: the BSS
cleared, the first entries of the tables, the kernel's pages, the user's pages, the
blocks.
-/

namespace Aegis.Boot

open Foundation A64

variable (layout : Layout) (memory : Word → Word)

/-! ## Memory, phase by phase -/

/-- Zeroes up to the end of the section, in whole words. -/
def clearedBss : Word → Word :=
  fill memory layout.bssStart 0 (fun _ => 0) ((layout.bssEnd.toNat - layout.bssStart.toNat + 7) / 8)

/-- The device block and the two pointers to tables below. -/
def withRoots : Word → Word :=
  Function.update
    (Function.update
      (Function.update memory layout.bootL1Table 0x0060000000000401)
      (layout.bootL1Table + 8) (layout.bootL2Table ||| 3))
    layout.bootL2Table (layout.bootL3Table ||| 3)

/-- The first 2 MiB of RAM, page by page, for EL1 only. -/
def withPages : Word → Word :=
  fill memory layout.bootL3Table 0 (fun k => 0x40000707 + BitVec.ofNat 64 k * 0x1000) 512

/-- The entry of a page in the level-3 table, as the code computes it. -/
def pageEntry (page : Word) : Word :=
  layout.bootL3Table + (page - 0x40000000) >>> 12 <<< 3

/-- The three pages that EL0 may use: its code, and the stacks. -/
def withUserPages : Word → Word :=
  Function.update
    (Function.update
      (Function.update memory (pageEntry layout layout.userTextStart)
        (layout.userTextStart ||| 0x00200000000007c7))
      (pageEntry layout layout.userStackABottom) (layout.userStackABottom ||| 0x0060000000000747))
    (pageEntry layout layout.userStackBBottom) (layout.userStackBBottom ||| 0x0060000000000747)

/-- The rest of the gigabyte, in blocks of 2 MiB. -/
def withBlocks : Word → Word :=
  fill memory layout.bootL2Table 1
    (fun k => 0x0060000040200705 + BitVec.ofNat 64 k * 0x200000) 511

/-- Memory when `kernel_main` is called. -/
def bootMemory : Word → Word :=
  withBlocks layout (withUserPages layout (withPages layout (withRoots layout
    (clearedBss layout memory))))

variable {s : State}

/-! ## Running the phases -/

theorem BootTable.word_aligned {bssStart bssEnd table : Word}
    (h : BootTable bssStart bssEnd table) : Aligned table := by
  have := h.aligned
  show 8 ∣ table.toNat
  omega

theorem reaches_bssReady (s : State) :
    ∃ t, (bootCode layout).Reaches (0, s) (8, t) ∧ t.memory = clearedBss layout s.memory ∧
      t.sys = s.sys := by
  set u := (s.set 0 layout.bssStart).set 1 layout.bssEnd with hu
  have hexec : execBlock [.ldrLiteral 0 layout.bssStart, .ldrLiteral 1 layout.bssEnd] s = some u :=
    rfl
  have hload : (bootCode layout).Reaches (0, s) (3, u) :=
    (Code.Reaches.label rfl).trans (Code.Reaches.block (by rfl) hexec)
  have hlabel : (bootCode layout).lineOf .clearBss = 3 := rfl
  have hcode : (bootCode layout).drop 3 =
      Code.clearLoop 0 1 .clearBss .bssReady ++ (bootCode layout).drop 8 := rfl
  have hend : (u.x 1).toNat + 8 ≤ 2 ^ 64 := by
    have := layout.bssEnd_le
    show layout.bssEnd.toNat + 8 ≤ 2 ^ 64
    omega
  obtain ⟨t, hloop, ht⟩ :=
    Code.Reaches.clearLoop (s := u) hlabel hcode (by decide) layout.bss_aligned hend
  exact ⟨t, hload.trans hloop, ht.memory, ht.sys⟩

theorem reaches_mapL3 (s : State) :
    ∃ t, (bootCode layout).Reaches (8, s) (21, t) ∧ t.memory = withRoots layout s.memory ∧
      t.x 0 = layout.bootL1Table ∧ t.x 2 = layout.bootL3Table ∧ t.x 3 = 0 ∧
      t.x 4 = 0x40000707 ∧ t.sys = s.sys := by
  have aligned₁ : Aligned layout.bootL1Table := layout.l1_table.word_aligned
  have aligned₁' : Aligned (layout.bootL1Table + 8#64) := aligned₁.add (by decide)
  have aligned₂ : Aligned layout.bootL2Table := layout.l2_table.word_aligned
  obtain ⟨t, hexec, ht⟩ : ∃ t, execBlock [
      .ldrLiteral 0 layout.bootL1Table,
      .ldrLiteral 1 0x0060000000000401,
      .str (.x 1) (.offset (.x 0) 0),
      .ldrLiteral 1 layout.bootL2Table,
      .orr 1 1 (.imm 3),
      .str (.x 1) (.offset (.x 0) 8),
      .ldrLiteral 2 layout.bootL3Table,
      .orr 1 2 (.imm 3),
      .ldrLiteral 3 layout.bootL2Table,
      .str (.x 1) (.offset (.x 3) 0),
      .mov 3 0,
      .ldrLiteral 4 0x40000707] s = some t ∧ t.memory = withRoots layout s.memory ∧
      t.x 0 = layout.bootL1Table ∧ t.x 2 = layout.bootL3Table ∧ t.x 3 = 0 ∧
      t.x 4 = 0x40000707 ∧ t.sys = s.sys := by
    simp [execBlock, Instr.exec, State.address, State.base, State.source, State.store,
      State.moveBase, State.operand, aligned₁, aligned₁', aligned₂, withRoots]
  exact ⟨t, (Code.Reaches.label rfl).trans (Code.Reaches.block (by rfl) hexec), ht⟩

/-- The kernel's pages. -/
theorem reaches_mapped (hs : s.x 2 = layout.bootL3Table) (hindex : s.x 3 = 0)
    (hvalue : s.x 4 = 0x40000707) :
    ∃ t, (bootCode layout).Reaches (21, s) (27, t) ∧ t.memory = withPages layout s.memory ∧
      t.x 0 = s.x 0 ∧ t.x 2 = s.x 2 ∧ t.sys = s.sys := by
  have hlabel : (bootCode layout).lineOf .mapL3 = 21 := rfl
  have hcode : (bootCode layout).drop 21 = .label .mapL3 ::
      ((Code.fillBody 2 3 4 0x1000 (BitVec.ofNat 64 512)).map Line.instr ++
        .branch .ne .mapL3 :: (bootCode layout).drop 27) := rfl
  obtain ⟨t, hloop, ht⟩ := Code.Reaches.fillLoop (s := s) hlabel hcode (by decide) (by decide)
    (by decide) (hs ▸ layout.l3_table.word_aligned) hindex (by decide : 0 < 512) (by decide)
  refine ⟨t, hloop, ?_, ht.others 0 (by decide) (by decide), ht.others 2 (by decide) (by decide),
    ht.sys⟩
  rw [ht.memory, hs, hvalue]
  rfl

theorem UserPage.index_eq {page : Word} (h : UserPage page) :
    (page - 0x40000000) >>> 12 = BitVec.ofNat 64 ((page.toNat - 0x40000000) / 4096) := by
  have hbase : (0x40000000 : Word).toNat = 0x40000000 := rfl
  rw [← BitVec.toNat_inj, BitVec.toNat_ushiftRight, Nat.shiftRight_eq_div_pow,
    BitVec.toNat_sub_of_le (by rw [BitVec.le_def, hbase]; exact h.le), hbase, BitVec.toNat_ofNat]
  have := h.lt
  omega

theorem pageEntry_eq {page : Word} (h : UserPage page) :
    pageEntry layout page = wordAt layout.bootL3Table ((page.toNat - 0x40000000) / 4096) := by
  rw [pageEntry, h.index_eq, add_shiftLeft_three]

theorem aligned_pageEntry {page : Word} (h : UserPage page) : Aligned (pageEntry layout page) := by
  rw [pageEntry_eq layout h]
  exact layout.l3_table.word_aligned.wordAt _

/-- The user's pages. -/
theorem reaches_mapL2 (hs : s.x 2 = layout.bootL3Table) :
    ∃ t, (bootCode layout).Reaches (27, s) (49, t) ∧ t.memory = withUserPages layout s.memory ∧
      t.x 0 = s.x 0 ∧ t.x 3 = layout.bootL2Table ∧ t.x 4 = 1 ∧ t.x 5 = 0x0060000040200705 ∧
      t.sys = s.sys := by
  have alignedText := aligned_pageEntry layout layout.userText_page
  have alignedA := aligned_pageEntry layout layout.userStackA_page
  have alignedB := aligned_pageEntry layout layout.userStackB_page
  simp only [pageEntry, BitVec.ofNat_eq_ofNat] at alignedText alignedA alignedB
  obtain ⟨t, hexec, ht⟩ : ∃ t, execBlock [
      .ldrLiteral 4 layout.userTextStart,
      .ldrLiteral 6 0x40000000,
      .sub 3 4 (.x 6),
      .lsr 3 3 12,
      .ldrLiteral 5 0x00200000000007c7,
      .orr 5 4 (.x 5),
      .str (.x 5) (.index (.x 2) 3),
      .ldrLiteral 4 layout.userStackABottom,
      .sub 3 4 (.x 6),
      .lsr 3 3 12,
      .ldrLiteral 5 0x0060000000000747,
      .orr 5 4 (.x 5),
      .str (.x 5) (.index (.x 2) 3),
      .ldrLiteral 4 layout.userStackBBottom,
      .sub 3 4 (.x 6),
      .lsr 3 3 12,
      .ldrLiteral 5 0x0060000000000747,
      .orr 5 4 (.x 5),
      .str (.x 5) (.index (.x 2) 3),
      .ldrLiteral 3 layout.bootL2Table,
      .mov 4 1,
      .ldrLiteral 5 0x0060000040200705] s = some t ∧ t.memory = withUserPages layout s.memory ∧
      t.x 0 = s.x 0 ∧ t.x 3 = layout.bootL2Table ∧ t.x 4 = 1 ∧ t.x 5 = 0x0060000040200705 ∧
      t.sys = s.sys := by
    simp [execBlock, Instr.exec, State.address, State.base, State.source, State.store,
      State.moveBase, State.operand, alignedText, alignedA, alignedB, hs, withUserPages,
      pageEntry]
  exact ⟨t, Code.Reaches.block (by rfl) hexec, ht⟩

/-- The blocks. -/
theorem reaches_blocks (hs : s.x 3 = layout.bootL2Table) (hindex : s.x 4 = 1)
    (hvalue : s.x 5 = 0x0060000040200705) :
    ∃ t, (bootCode layout).Reaches (49, s) (55, t) ∧ t.memory = withBlocks layout s.memory ∧
      t.x 0 = s.x 0 ∧ t.sys = s.sys := by
  have hlabel : (bootCode layout).lineOf .mapL2 = 49 := rfl
  have hcode : (bootCode layout).drop 49 = .label .mapL2 ::
      ((Code.fillBody 3 4 5 0x200000 (BitVec.ofNat 64 512)).map Line.instr ++
        .branch .ne .mapL2 :: (bootCode layout).drop 55) := rfl
  obtain ⟨t, hloop, ht⟩ := Code.Reaches.fillLoop (s := s) hlabel hcode (by decide) (by decide)
    (by decide) (hs ▸ layout.l2_table.word_aligned) hindex (by decide : 1 < 512) (by decide)
  refine ⟨t, hloop, ?_, ht.others 0 (by decide) (by decide), ht.sys⟩
  rw [ht.memory, hs, hvalue]
  rfl

/-- Translation is turned on. -/
theorem reaches_end (s : State) :
    ∃ t, (bootCode layout).Reaches (55, s) (70, t) ∧ t.memory = s.memory ∧
      t.sys .ttbr0El1 = s.x 0 ∧ t.sys .mairEl1 = 0xff00 ∧ t.sys .tcrEl1 = 0x200803519 ∧
      t.sys .sctlrEl1 = s.sys .sctlrEl1 ||| 1 ||| 4 ||| 0x1000 := by
  obtain ⟨t, hexec, ht⟩ : ∃ t, execBlock [
      .ldrLiteral 1 0x000000000000ff00,
      .msr .mairEl1 1,
      .ldrLiteral 1 0x0000000200803519,
      .msr .tcrEl1 1,
      .msr .ttbr0El1 0,
      .barrier,
      .barrier,
      .barrier,
      .barrier,
      .mrs 1 .sctlrEl1,
      .orr 1 1 (.imm 1),
      .orr 1 1 (.imm 4),
      .orr 1 1 (.imm 0x1000),
      .msr .sctlrEl1 1,
      .barrier] s = some t ∧ t.memory = s.memory ∧
      t.sys .ttbr0El1 = s.x 0 ∧ t.sys .mairEl1 = 0xff00 ∧ t.sys .tcrEl1 = 0x200803519 ∧
      t.sys .sctlrEl1 = s.sys .sctlrEl1 ||| 1 ||| 4 ||| 0x1000 := by
    simp [execBlock, Instr.exec, State.operand]
  exact ⟨t, Code.Reaches.block (by rfl) hexec, ht⟩

/-- **The boot code runs to its end**, with the tables in memory and translation set up
to use them. -/
theorem boots (layout : Layout) (s : State) :
    ∃ t, Boots layout s t ∧ t.memory = bootMemory layout s.memory ∧
      t.sys .ttbr0El1 = layout.bootL1Table ∧ t.sys .mairEl1 = 0xff00 ∧
      t.sys .tcrEl1 = 0x200803519 ∧
      t.sys .sctlrEl1 = s.sys .sctlrEl1 ||| 1 ||| 4 ||| 0x1000 := by
  obtain ⟨s₁, h₁, hmem₁, hsys₁⟩ := reaches_bssReady layout s
  obtain ⟨s₂, h₂, hmem₂, hx0, hx2, hx3, hx4, hsys₂⟩ := reaches_mapL3 layout s₁
  obtain ⟨s₃, h₃, hmem₃, hx0₃, hx2₃, hsys₃⟩ := reaches_mapped layout hx2 hx3 hx4
  obtain ⟨s₄, h₄, hmem₄, hx0₄, hx3₄, hx4₄, hx5₄, hsys₄⟩ := reaches_mapL2 layout (hx2₃.trans hx2)
  obtain ⟨s₅, h₅, hmem₅, hx0₅, hsys₅⟩ := reaches_blocks layout hx3₄ hx4₄ hx5₄
  obtain ⟨t, h₆, hmem₆, httbr, hmair, htcr, hsctlr⟩ := reaches_end layout s₅
  refine ⟨t, ((((h₁.trans h₂).trans h₃).trans h₄).trans h₅).trans h₆, ?_, ?_, hmair, htcr, ?_⟩
  · rw [hmem₆, hmem₅, hmem₄, hmem₃, hmem₂, hmem₁]
    rfl
  · rw [httbr, hx0₅, hx0₄, hx0₃, hx0]
  · rw [hsctlr, hsys₅, hsys₄, hsys₃, hsys₂, hsys₁]

end Aegis.Boot
