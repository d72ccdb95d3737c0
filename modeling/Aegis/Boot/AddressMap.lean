import Mathlib
import Aegis.Boot.Tables
import Aegis.Paging.Encoding

/-!
# The address map at boot

A walk through the tables that the boot code builds ends, for a 39-bit address,
* below 1 GiB, in the level-1 block of the devices,
* in the first 2 MiB of RAM, in a page,
* in the rest of the first GiB of RAM, in a 2 MiB block,
* and nowhere above that.

`attributesAt` is this case distinction, and `walk_cases` says that it is right and that
every leaf maps its addresses to themselves.  What EL0 may do at an address is then a
matter of four constants.
-/

namespace Aegis.Boot

open A64 Paging

variable {layout : Layout} {memory : Word → Word} {va : Word}

/-- The address lies in the page. -/
def InPage (page va : Word) : Prop := page.toNat ≤ va.toNat ∧ va.toNat < page.toNat + 4096

instance (page va : Word) : Decidable (InPage page va) :=
  inferInstanceAs (Decidable (page.toNat ≤ va.toNat ∧ va.toNat < page.toNat + 4096))

/-- The attributes of the leaf for an address. -/
def attributesAt (layout : Layout) (va : Word) : Option Word :=
  if va.toNat < 0x40000000 then some 0x0060000000000401
  else if va.toNat < 0x40200000 then some (pageAttributes layout (pageAt (tableIndex va 3)))
  else if va.toNat < 0x80000000 then some 0x0060000000000705
  else none

theorem attributes_pageAttributes (layout : Layout) (page : Word) :
    Attributes (pageAttributes layout page) ∧ (pageAttributes layout page).getLsbD 0 = true ∧
      (pageAttributes layout page).getLsbD 1 = true := by
  rw [pageAttributes]
  split_ifs <;> decide

/-! ## Walks -/

section Walk

theorem tableIndex_one (va : Word) : tableIndex va 1 = va.toNat / 2 ^ 30 % 512 :=
  toNat_tableIndex va 1

theorem tableIndex_two (va : Word) : tableIndex va 2 = va.toNat / 2 ^ 21 % 512 :=
  toNat_tableIndex va 2

theorem tableIndex_three (va : Word) : tableIndex va 3 = va.toNat / 2 ^ 12 % 512 :=
  toNat_tableIndex va 3

variable (h : BuiltTables layout memory)
include h

theorem walk_devices (hva : va.toNat < 0x40000000) :
    walk memory layout.bootL1Table va = some (Leaf.of (0 ||| 0x0060000000000401) va 30) := by
  have hentry : memory (wordAt layout.bootL1Table (tableIndex va 1)) =
      0 ||| 0x0060000000000401 := by
    have hindex : tableIndex va 1 = 0 := by
      rw [tableIndex_one]
      omega
    rw [hindex, h.devices]
  rw [walk, (pageAddress_table layout.l1_table).addressField_self]
  exact walkFrom_block hentry ⟨rfl, by decide⟩ rfl rfl

/-- The second GiB goes through the level-2 table. -/
theorem walk_ram (hle : 0x40000000 ≤ va.toNat) (hlt : va.toNat < 0x80000000) :
    walk memory layout.bootL1Table va = walkFrom memory va 1 layout.bootL2Table := by
  have hentry : memory (wordAt layout.bootL1Table (tableIndex va 1)) =
      layout.bootL2Table ||| 3 := by
    have hindex : tableIndex va 1 = 1 := by
      rw [tableIndex_one]
      omega
    rw [hindex, h.ram]
  rw [walk, (pageAddress_table layout.l1_table).addressField_self]
  exact walkFrom_table hentry (pageAddress_table layout.l2_table) (by decide) rfl rfl

theorem walk_page (hle : 0x40000000 ≤ va.toNat) (hlt : va.toNat < 0x40200000) :
    walk memory layout.bootL1Table va = some (Leaf.of (pageAt (tableIndex va 3) |||
      pageAttributes layout (pageAt (tableIndex va 3))) va 12) := by
  have hentry : memory (wordAt layout.bootL2Table (tableIndex va 2)) =
      layout.bootL3Table ||| 3 := by
    have hindex : tableIndex va 2 = 0 := by
      rw [tableIndex_two]
      omega
    rw [hindex, h.firstPages]
  have hl3 : walkFrom memory va 1 layout.bootL2Table =
      walkFrom memory va 0 layout.bootL3Table :=
    walkFrom_table hentry (pageAddress_table layout.l3_table) (by decide) rfl rfl
  obtain ⟨-, hvalid, hpage⟩ := attributes_pageAttributes layout (pageAt (tableIndex va 3))
  rw [walk_ram h hle (by omega), hl3]
  exact walkFrom_page (h.page _ (tableIndex_lt va 3)) (pageAddress_pageAt (tableIndex_lt va 3))
    hvalid hpage

theorem walk_block (hle : 0x40200000 ≤ va.toNat) (hlt : va.toNat < 0x80000000) :
    walk memory layout.bootL1Table va =
      some (Leaf.of (blockAt (tableIndex va 2) ||| 0x0060000000000705) va 21) := by
  have hindex : 1 ≤ tableIndex va 2 := by
    rw [tableIndex_two]
    omega
  rw [walk_ram h (by omega) hlt]
  exact walkFrom_block (h.block _ hindex (tableIndex_lt va 2))
    (pageAddress_blockAt (tableIndex_lt va 2)) rfl rfl

theorem walk_beyond (hle : 0x80000000 ≤ va.toNat) (hlt : va.toNat < 2 ^ 39) :
    walk memory layout.bootL1Table va = none := by
  have hentry : (memory (wordAt layout.bootL1Table (tableIndex va 1))).getLsbD 0 = false := by
    have hindex : 2 ≤ tableIndex va 1 := by
      rw [tableIndex_one]
      omega
    rw [h.beyond _ hindex (tableIndex_lt va 1)]
    rfl
  rw [walk, (pageAddress_table layout.l1_table).addressField_self]
  exact walkFrom_invalid hentry

/-- **Every walk**: it ends in a leaf with these attributes, which maps the address to
itself, or in a fault. -/
theorem walk_cases (hva : va.toNat < 2 ^ 39) :
    (walk memory layout.bootL1Table va = none ∧ attributesAt layout va = none) ∨
      ∃ leaf attributes, walk memory layout.bootL1Table va = some leaf ∧
        attributesAt layout va = some attributes ∧ leaf.output = va ∧
        ∀ i, i < 12 ∨ 48 ≤ i → leaf.entry.getLsbD i = attributes.getLsbD i := by
  rw [attributesAt]
  by_cases hdevices : va.toNat < 0x40000000
  · have hzero : PageAddress 0 := ⟨rfl, by decide⟩
    refine .inr ⟨_, _, walk_devices h hdevices, if_pos hdevices, ?_, fun i hi => ?_⟩
    · exact hzero.output_entry (by decide) (by decide) (dvd_zero _)
        ((Nat.mod_eq_of_lt hdevices).symm.trans (Nat.zero_add _).symm)
    · exact hzero.getLsbD_entry _ hi
  rw [if_neg hdevices]
  by_cases hpage : va.toNat < 0x40200000
  · have hi := tableIndex_lt va 3
    have haddress := pageAddress_pageAt hi
    refine .inr ⟨_, _, walk_page h (by omega) hpage, if_pos hpage, ?_, fun i hi => ?_⟩
    · refine haddress.output_entry (attributes_pageAttributes layout _).1 le_rfl
        (Nat.dvd_of_mod_eq_zero haddress.aligned) ?_
      rw [pageAt, BitVec.toNat_ofNat, tableIndex_three]
      omega
    · exact haddress.getLsbD_entry _ hi
  rw [if_neg hpage]
  by_cases hblock : va.toNat < 0x80000000
  · have hi := tableIndex_lt va 2
    have haddress := pageAddress_blockAt hi
    refine .inr ⟨_, _, walk_block h (by omega) hblock, if_pos hblock, ?_, fun i hi => ?_⟩
    · have htoNat : (blockAt (tableIndex va 2)).toNat =
          0x40000000 + 0x200000 * tableIndex va 2 := by
        rw [blockAt, BitVec.toNat_ofNat, Nat.mod_eq_of_lt (by omega)]
      refine haddress.output_entry (by decide) (by decide)
        ⟨0x200 + tableIndex va 2, by rw [htoNat]; omega⟩ ?_
      rw [htoNat, tableIndex_two]
      omega
    · exact haddress.getLsbD_entry _ hi
  · exact .inl ⟨walk_beyond h (by omega) hva, if_neg hblock⟩

end Walk

/-! ## What EL0 may do -/

section Access

theorem UserPage.range_of_inPage {page : Word} (h : UserPage page) (hva : InPage page va) :
    0x40000000 ≤ va.toNat ∧ va.toNat < 0x40200000 := by
  have haligned := h.aligned
  have hle := h.le
  have hlt := h.lt
  obtain ⟨hfirst, hlast⟩ := hva
  omega

/-- The page that a walk ends in is the page that the address lies in. -/
theorem UserPage.pageAt_eq_iff {page : Word} (h : UserPage page) (hle : 0x40000000 ≤ va.toNat)
    (hlt : va.toNat < 0x40200000) : pageAt (tableIndex va 3) = page ↔ InPage page va := by
  have haligned := h.aligned
  have hle' := h.le
  have hlt' := h.lt
  rw [← BitVec.toNat_inj, pageAt, BitVec.toNat_ofNat, tableIndex_three, InPage]
  omega

theorem attributesAt_page (hle : 0x40000000 ≤ va.toNat) (hlt : va.toNat < 0x40200000) :
    attributesAt layout va = some (
      if InPage layout.userTextStart va then 0x00200000000007c7
      else if InPage layout.userStackABottom va ∨ InPage layout.userStackBBottom va then
        0x0060000000000747
      else 0x707) := by
  rw [attributesAt, if_neg (by omega), if_pos hlt, pageAttributes]
  simp only [layout.userText_page.pageAt_eq_iff hle hlt,
    layout.userStackA_page.pageAt_eq_iff hle hlt, layout.userStackB_page.pageAt_eq_iff hle hlt]

/-- Outside the first 2 MiB of RAM nothing is for EL0. -/
theorem attributesAt_outside (hout : ¬(0x40000000 ≤ va.toNat ∧ va.toNat < 0x40200000)) :
    ∀ attributes ∈ attributesAt layout va,
      attributes.getLsbD 6 = false ∧ attributes.getLsbD 54 = true := by
  intro attributes hattributes
  rw [attributesAt, Option.mem_def] at hattributes
  split_ifs at hattributes with hdevices hpage hblock
  · cases hattributes
    exact ⟨rfl, rfl⟩
  · omega
  · cases hattributes
    exact ⟨rfl, rfl⟩

/-- An address is in at most one of the user's pages. -/
theorem not_inPage_userText (hstack : InPage layout.userStackABottom va ∨
    InPage layout.userStackBBottom va) : ¬InPage layout.userTextStart va := by
  intro htext
  obtain ⟨hle, hlt⟩ := layout.userText_page.range_of_inPage htext
  rw [← layout.userText_page.pageAt_eq_iff hle hlt] at htext
  rw [← layout.userStackA_page.pageAt_eq_iff hle hlt,
    ← layout.userStackB_page.pageAt_eq_iff hle hlt, htext] at hstack
  exact hstack.elim layout.userText_ne_userStackA layout.userText_ne_userStackB

variable (h : BuiltTables layout memory)
include h

/-- Access depends on the attributes only. -/
theorem access_iff (hva : va.toNat < 2 ^ 39) (allows : Word → Prop)
    (hallows : ∀ d d' : Word, (∀ i, i < 12 ∨ 48 ≤ i → d.getLsbD i = d'.getLsbD i) →
      (allows d ↔ allows d')) :
    (∃ leaf, walk memory layout.bootL1Table va = some leaf ∧ allows leaf.entry) ↔
      ∃ attributes ∈ attributesAt layout va, allows attributes := by
  rcases walk_cases h hva with ⟨hwalk, hnone⟩ | ⟨leaf, attributes, hwalk, hsome, -, hbits⟩
  · simp [hwalk, hnone]
  · simp [hwalk, hsome, hallows _ _ hbits]

theorem el0Reads_iff (hva : va.toNat < 2 ^ 39) :
    El0Reads memory layout.bootL1Table va ↔
      InPage layout.userTextStart va ∨ InPage layout.userStackABottom va ∨
        InPage layout.userStackBBottom va := by
  rw [El0Reads, access_iff h hva (fun d => d.getLsbD 6 = true)
    fun d d' hbits => by rw [hbits 6 (by decide)]]
  by_cases hin : 0x40000000 ≤ va.toNat ∧ va.toNat < 0x40200000
  · rw [attributesAt_page hin.1 hin.2]
    simp only [Option.mem_some_iff, exists_eq_left']
    split_ifs with htext hstack
    · simp [htext]
    · simp [hstack]
    · simp [htext, hstack]
  · constructor
    · rintro ⟨attributes, hattributes, hbit⟩
      rw [(attributesAt_outside hin attributes hattributes).1] at hbit
      cases hbit
    · rintro (hpage | hpage | hpage)
      · exact absurd (layout.userText_page.range_of_inPage hpage) hin
      · exact absurd (layout.userStackA_page.range_of_inPage hpage) hin
      · exact absurd (layout.userStackB_page.range_of_inPage hpage) hin

theorem el0Writes_iff (hva : va.toNat < 2 ^ 39) :
    El0Writes memory layout.bootL1Table va ↔
      InPage layout.userStackABottom va ∨ InPage layout.userStackBBottom va := by
  rw [El0Writes, access_iff h hva (fun d => d.getLsbD 6 = true ∧ d.getLsbD 7 = false)
    fun d d' hbits => by rw [hbits 6 (by decide), hbits 7 (by decide)]]
  by_cases hin : 0x40000000 ≤ va.toNat ∧ va.toNat < 0x40200000
  · rw [attributesAt_page hin.1 hin.2]
    simp only [Option.mem_some_iff, exists_eq_left']
    split_ifs with htext hstack
    · have hnot := mt not_inPage_userText (not_not.mpr htext)
      simp [hnot]
    · simp [hstack]
    · simp [hstack]
  · constructor
    · rintro ⟨attributes, hattributes, hbit, -⟩
      rw [(attributesAt_outside hin attributes hattributes).1] at hbit
      cases hbit
    · rintro (hpage | hpage)
      · exact absurd (layout.userStackA_page.range_of_inPage hpage) hin
      · exact absurd (layout.userStackB_page.range_of_inPage hpage) hin

/-- EL0 may execute every page of the first 2 MiB of RAM but its own stacks. -/
theorem el0Executes_iff (hva : va.toNat < 2 ^ 39) :
    El0Executes memory layout.bootL1Table va ↔
      (0x40000000 ≤ va.toNat ∧ va.toNat < 0x40200000) ∧
        ¬(InPage layout.userStackABottom va ∨ InPage layout.userStackBBottom va) := by
  rw [El0Executes, access_iff h hva (fun d => d.getLsbD 54 = false)
    fun d d' hbits => by rw [hbits 54 (by decide)]]
  by_cases hin : 0x40000000 ≤ va.toNat ∧ va.toNat < 0x40200000
  · rw [attributesAt_page hin.1 hin.2]
    simp only [Option.mem_some_iff, exists_eq_left', hin, and_self, true_and]
    split_ifs with htext hstack
    · have hnot := mt not_inPage_userText (not_not.mpr htext)
      simp [hnot]
    · simp [hstack]
    · simp [hstack]
  · constructor
    · rintro ⟨attributes, hattributes, hbit⟩
      rw [(attributesAt_outside hin attributes hattributes).2] at hbit
      cases hbit
    · rintro ⟨hpage, -⟩
      exact absurd hpage hin

end Access

/-! ## The map is the identity -/

/-- The level-3 entry of a page is its descriptor, and it is where the walks of all
addresses in the page end. -/
structure UserLeaf (layout : Layout) (memory : Word → Word) (ttbr page : Word)
    (permissions : PagePermissions) : Prop where
  descriptor : pageDescriptor page permissions =
    .ok (memory (wordAt layout.bootL3Table (tableIndex page 3)))
  walk : ∀ va, InPage page va → ∃ leaf, A64.walk memory ttbr va = some leaf ∧
    leaf.entry = memory (wordAt layout.bootL3Table (tableIndex page 3))

theorem BuiltTables.userLeaf (h : BuiltTables layout memory) {page : Word}
    {permissions : PagePermissions} (hpage : UserPage page)
    (hexclusive : ¬(permissions.writable = true ∧ permissions.executable = true))
    (hattributes : pageAttributes layout page = attributes permissions) :
    UserLeaf layout memory layout.bootL1Table page permissions := by
  have hself : pageAt (tableIndex page 3) = page :=
    (hpage.pageAt_eq_iff hpage.le hpage.lt).mpr ⟨le_rfl, by omega⟩
  have hentry := h.page _ (tableIndex_lt page 3)
  rw [hself] at hentry
  have haddress : PageAddress page := hself ▸ pageAddress_pageAt (tableIndex_lt page 3)
  have hmask : page &&& OUTPUT_ADDRESS_MASK = page := haddress.and_mask
  constructor
  · rw [hentry, hattributes, pageDescriptor_eq _ hexclusive, hmask]
    exact (Memory.mod_PAGE_SIZE page).mpr hpage.aligned
  · intro va hva
    obtain ⟨hle, hlt⟩ := hpage.range_of_inPage hva
    refine ⟨_, walk_page h hle hlt, ?_⟩
    rw [(hpage.pageAt_eq_iff hle hlt).mpr hva, hentry]
    rfl

/-- **Translation at boot is the identity** below 2 GiB, and faults above; and the leaves
of the user's pages are what `page_descriptor` makes of them. -/
theorem boot_translation_identity (layout : Layout) (s : State) :
    ∃ t, Boots layout s t ∧
      (∀ va : Word, va.toNat < 2 ^ 39 →
        (∀ level, level = 1 ∨ level = 2 ∨ level = 3 →
          levelIndex va level = .ok (tableIndex va level)) ∧
        (va.toNat < 0x80000000 → ∃ leaf,
          walk t.memory (t.sys .ttbr0El1) va = some leaf ∧ leaf.output = va) ∧
        (0x80000000 ≤ va.toNat → walk t.memory (t.sys .ttbr0El1) va = none)) ∧
      UserLeaf layout t.memory (t.sys .ttbr0El1) layout.userTextStart .USER_CODE ∧
      UserLeaf layout t.memory (t.sys .ttbr0El1) layout.userStackABottom .USER_DATA ∧
      UserLeaf layout t.memory (t.sys .ttbr0El1) layout.userStackBBottom .USER_DATA := by
  obtain ⟨t, hboots, hmemory, httbr, -⟩ := boots layout s
  have htables : BuiltTables layout t.memory := hmemory ▸ builtTables layout s.memory
  refine ⟨t, hboots, fun va hva => ⟨fun level hlevel => levelIndex_eq va (by omega),
    fun hlt => ?_, fun hle => ?_⟩, ?_, ?_, ?_⟩
  · rw [httbr]
    rcases walk_cases htables hva with ⟨-, hnone⟩ | ⟨leaf, -, hwalk, -, houtput, -⟩
    · rw [attributesAt] at hnone
      split_ifs at hnone
    · exact ⟨leaf, hwalk, houtput⟩
  · rw [httbr]
    exact walk_beyond htables hle hva
  · rw [httbr]
    refine htables.userLeaf layout.userText_page (by decide) ?_
    rw [pageAttributes, if_pos rfl]
    decide
  · rw [httbr]
    refine htables.userLeaf layout.userStackA_page (by decide) ?_
    rw [pageAttributes, if_neg layout.userText_ne_userStackA.symm, if_pos (.inl rfl)]
    decide
  · rw [httbr]
    refine htables.userLeaf layout.userStackB_page (by decide) ?_
    rw [pageAttributes, if_neg layout.userText_ne_userStackB.symm, if_pos (.inr rfl)]
    decide

/-! ## Isolation -/

/-- A page of the first 2 MiB of RAM that is none of the user's. -/
def InKernelPage (layout : Layout) (va : Word) : Prop :=
  (0x40000000 ≤ va.toNat ∧ va.toNat < 0x40200000) ∧
    ¬InPage layout.userTextStart va ∧ ¬InPage layout.userStackABottom va ∧
      ¬InPage layout.userStackBBottom va

/-- **What EL0 can reach at boot**: it reads its three pages, writes its stacks, and,
outside the kernel's pages, executes its text only.  The kernel's pages it can execute:
the entries of the level-3 loop lack the UXN bit. -/
theorem el0_isolation (layout : Layout) (s : State) :
    ∃ t, Boots layout s t ∧ ∀ va : Word, va.toNat < 2 ^ 39 →
      (El0Reads t.memory (t.sys .ttbr0El1) va →
        InPage layout.userTextStart va ∨ InPage layout.userStackABottom va ∨
          InPage layout.userStackBBottom va) ∧
      (El0Writes t.memory (t.sys .ttbr0El1) va →
        InPage layout.userStackABottom va ∨ InPage layout.userStackBBottom va) ∧
      (¬InKernelPage layout va → El0Executes t.memory (t.sys .ttbr0El1) va →
        InPage layout.userTextStart va) ∧
      (InKernelPage layout va → El0Executes t.memory (t.sys .ttbr0El1) va) := by
  obtain ⟨t, hboots, hmemory, httbr, -⟩ := boots layout s
  have htables : BuiltTables layout t.memory := hmemory ▸ builtTables layout s.memory
  refine ⟨t, hboots, fun va hva => ?_⟩
  rw [httbr]
  refine ⟨(el0Reads_iff htables hva).mp, (el0Writes_iff htables hva).mp, ?_, ?_⟩
  · intro hkernel hexecutes
    obtain ⟨hrange, hstack⟩ := (el0Executes_iff htables hva).mp hexecutes
    by_contra htext
    exact hkernel ⟨hrange, htext, fun hA => hstack (.inl hA), fun hB => hstack (.inr hB)⟩
  · rintro ⟨hrange, -, hA, hB⟩
    exact (el0Executes_iff htables hva).mpr ⟨hrange, fun hstack => hstack.elim hA hB⟩

/-- Addresses as the linker script lays them out. -/
def sampleLayout : Layout where
  bssStart := 0x4008a000
  bssEnd := 0x40091000
  userTextStart := 0x40088000
  userStackABottom := 0x40091000
  userStackBBottom := 0x40092000
  bootL1Table := 0x4008e000
  bootL2Table := 0x4008f000
  bootL3Table := 0x40090000
  userText_page := ⟨by decide, by decide, by decide⟩
  userStackA_page := ⟨by decide, by decide, by decide⟩
  userStackB_page := ⟨by decide, by decide, by decide⟩
  userText_ne_userStackA := by decide
  userText_ne_userStackB := by decide
  userStackA_ne_userStackB := by decide
  bss_aligned := by decide
  bssEnd_le := by decide
  l1_table := ⟨by decide, by decide, by decide⟩
  l2_table := ⟨by decide, by decide, by decide⟩
  l3_table := ⟨by decide, by decide, by decide⟩
  l1_ne_l2 := by decide
  l1_ne_l3 := by decide
  l2_ne_l3 := by decide

/-- A machine with nothing in its registers and memory. -/
def resetState : State where
  x _ := 0
  sp := 0
  sys _ := 0
  memory _ := 0
  flags := .clear

/-- **EL0 can execute the kernel**: `_start` itself, at the start of the kernel's text. -/
theorem el0_executes_kernel :
    ∃ t, Boots sampleLayout resetState t ∧
      El0Executes t.memory (t.sys .ttbr0El1) 0x40080000 ∧
      ¬InPage sampleLayout.userTextStart 0x40080000 := by
  obtain ⟨t, hboots, hmemory, httbr, -⟩ := boots sampleLayout resetState
  have htables : BuiltTables sampleLayout t.memory :=
    hmemory ▸ builtTables sampleLayout resetState.memory
  refine ⟨t, hboots, ?_, by decide⟩
  rw [httbr]
  exact (el0Executes_iff htables (by decide)).mpr (by decide)

end Aegis.Boot
