import Mathlib
import Aegis.A64.Translation
import Aegis.Boot.Execution

/-!
# The tables that the boot code builds

`BuiltTables` lists what the three tables hold, entry by entry and in the form
`address ||| attributes`.  The boot code reaches its end with such tables in memory: a
phase writes to one table only, and different tables do not share words.
-/

namespace Aegis.Boot

open Foundation A64

/-- Page `i` of the first 2 MiB of RAM. -/
def pageAt (i : ℕ) : Word := BitVec.ofNat 64 (0x40000000 + 0x1000 * i)

/-- Block `i` of RAM. -/
def blockAt (i : ℕ) : Word := BitVec.ofNat 64 (0x40000000 + 0x200000 * i)

/-- The attributes of a page, by whose page it is. -/
def pageAttributes (layout : Layout) (page : Word) : Word :=
  if page = layout.userTextStart then 0x00200000000007c7
  else if page = layout.userStackABottom ∨ page = layout.userStackBBottom then 0x0060000000000747
  else 0x707

/-- The tables of the early address map. -/
structure BuiltTables (layout : Layout) (memory : Word → Word) : Prop where
  devices : memory (wordAt layout.bootL1Table 0) = 0 ||| 0x0060000000000401
  ram : memory (wordAt layout.bootL1Table 1) = layout.bootL2Table ||| 3
  beyond : ∀ i, 2 ≤ i → i < 512 → memory (wordAt layout.bootL1Table i) = 0
  firstPages : memory (wordAt layout.bootL2Table 0) = layout.bootL3Table ||| 3
  block : ∀ i, 1 ≤ i → i < 512 →
    memory (wordAt layout.bootL2Table i) = blockAt i ||| 0x0060000000000705
  page : ∀ i < 512,
    memory (wordAt layout.bootL3Table i) = pageAt i ||| pageAttributes layout (pageAt i)

variable {layout : Layout} {memory : Word → Word} {i j : ℕ}

/-! ## Words of the tables -/

/-- Page addresses have room for attributes in their low bits. -/
theorem pageAddress_pageAt (hi : i < 512) : PageAddress (pageAt i) := by
  have htoNat : (pageAt i).toNat = 0x40000000 + 0x1000 * i := by
    rw [pageAt, BitVec.toNat_ofNat, Nat.mod_eq_of_lt (by omega)]
  constructor <;> rw [htoNat] <;> omega

theorem pageAddress_blockAt (hi : i < 512) : PageAddress (blockAt i) := by
  have htoNat : (blockAt i).toNat = 0x40000000 + 0x200000 * i := by
    rw [blockAt, BitVec.toNat_ofNat, Nat.mod_eq_of_lt (by omega)]
  constructor <;> rw [htoNat] <;> omega

theorem pageAddress_table {table : Word} (h : BootTable layout.bssStart layout.bssEnd table) :
    PageAddress table := by
  have := h.end_le
  have := layout.bssEnd_le
  exact ⟨h.aligned, by omega⟩

/-- A user page is one of the first 512 pages of RAM. -/
theorem UserPage.eq_pageAt {page : Word} (h : UserPage page) :
    page = pageAt ((page.toNat - 0x40000000) / 4096) := by
  have haligned := h.aligned
  have hle := h.le
  have hlt := h.lt
  rw [← BitVec.toNat_inj, pageAt, BitVec.toNat_ofNat]
  omega

theorem pageAt_inj (hi : i < 512) (hj : j < 512) (h : pageAt i = pageAt j) : i = j := by
  have hnat := congrArg BitVec.toNat h
  rw [pageAt, pageAt, BitVec.toNat_ofNat, BitVec.toNat_ofNat] at hnat
  omega

theorem wordAt_zero (table : Word) : wordAt table 0 = table := by
  simp [wordAt]

/-- Different tables have no words in common. -/
theorem wordAt_ne {table table' : Word} (h : BootTable layout.bssStart layout.bssEnd table)
    (h' : BootTable layout.bssStart layout.bssEnd table') (hne : table ≠ table') (hi : i < 512)
    (hj : j < 512) : wordAt table i ≠ wordAt table' j := by
  have hend := (pageAddress_table h).lt
  have hend' := (pageAddress_table h').lt
  have haligned := h.aligned
  have haligned' := h'.aligned
  have hnat : table.toNat ≠ table'.toNat := fun heq => hne (BitVec.toNat_inj.mp heq)
  intro heq
  have hword := congrArg BitVec.toNat heq
  rw [toNat_wordAt (by omega), toNat_wordAt (by omega)] at hword
  omega

theorem wordAt_ne_self {table : Word} (hi : i < 512) (hj : j < 512) (hne : i ≠ j) :
    wordAt table i ≠ wordAt table j :=
  fun h => hne (wordAt_injective (by omega) (by omega) h)

/-! ## What each phase leaves alone -/

/-- The loop over blocks writes to the second table only, and the one over pages to the third. -/
theorem withBlocks_of_ne {a : Word} (h : ∀ j < 512, wordAt layout.bootL2Table j ≠ a) :
    withBlocks layout memory a = memory a :=
  fill_of_ne fun k hk => h (1 + k) (by omega)

theorem withPages_of_ne {a : Word} (h : ∀ j < 512, wordAt layout.bootL3Table j ≠ a) :
    withPages layout memory a = memory a :=
  fill_of_ne fun k hk => h (0 + k) (by omega)

theorem UserPage.index_lt {page : Word} (h : UserPage page) :
    (page.toNat - 0x40000000) / 4096 < 512 := by
  have := h.lt
  omega

/-- The three entries of user pages are entries of the third table. -/
theorem withUserPages_of_ne {a : Word} (h : ∀ j < 512, wordAt layout.bootL3Table j ≠ a) :
    withUserPages layout memory a = memory a := by
  have hentry : ∀ page, UserPage page → a ≠ pageEntry layout page := by
    intro page hpage
    rw [pageEntry_eq layout hpage]
    exact (h _ hpage.index_lt).symm
  rw [withUserPages, Function.update_of_ne (hentry _ layout.userStackB_page),
    Function.update_of_ne (hentry _ layout.userStackA_page),
    Function.update_of_ne (hentry _ layout.userText_page)]

/-- The loop clears every word of a table. -/
theorem clearedBss_table {table : Word} (h : BootTable layout.bssStart layout.bssEnd table)
    (hi : i < 512) : clearedBss layout memory (wordAt table i) = 0 := by
  obtain ⟨q, hq⟩ := layout.bss_aligned
  have hle := h.le
  have hend := h.end_le
  have haligned := h.aligned
  have hbss := layout.bssEnd_le
  have hword : wordAt table i =
      wordAt layout.bssStart (0 + ((table.toNat - layout.bssStart.toNat) / 8 + i)) := by
    rw [← BitVec.toNat_inj, toNat_wordAt (by omega), toNat_wordAt (by omega)]
    omega
  rw [hword, clearedBss]
  exact fill_of_lt (by omega) (by omega)

/-! ## The entries -/

/-- The two entries of the first table that are written. -/
theorem withRoots_l1 (hi : i < 512) :
    withRoots layout memory (wordAt layout.bootL1Table i) =
      if i = 0 then 0x0060000000000401
      else if i = 1 then layout.bootL2Table ||| 3
      else memory (wordAt layout.bootL1Table i) := by
  have hl2 : wordAt layout.bootL1Table i ≠ layout.bootL2Table := by
    rw [← wordAt_zero layout.bootL2Table]
    exact wordAt_ne layout.l1_table layout.l2_table layout.l1_ne_l2 hi (by decide)
  have hone : layout.bootL1Table + 8 = wordAt layout.bootL1Table 1 := rfl
  have hzero := (wordAt_zero layout.bootL1Table).symm
  rw [withRoots, Function.update_of_ne hl2, hone]
  by_cases h1 : i = 1
  · subst h1
    simp
  · rw [Function.update_of_ne (wordAt_ne_self hi (by decide) h1), if_neg h1]
    by_cases h0 : i = 0
    · subst h0
      rw [wordAt_zero, Function.update_self, if_pos rfl]
    · nth_rewrite 1 [hzero]
      rw [Function.update_of_ne (wordAt_ne_self hi (by decide) h0), if_neg h0]

/-- The later phases leave the first table alone. -/
theorem bootMemory_l1 (hi : i < 512) :
    bootMemory layout memory (wordAt layout.bootL1Table i) =
      withRoots layout (clearedBss layout memory) (wordAt layout.bootL1Table i) := by
  have hl2 : ∀ j < 512, wordAt layout.bootL2Table j ≠ wordAt layout.bootL1Table i :=
    fun j hj => wordAt_ne layout.l2_table layout.l1_table layout.l1_ne_l2.symm hj hi
  have hl3 : ∀ j < 512, wordAt layout.bootL3Table j ≠ wordAt layout.bootL1Table i :=
    fun j hj => wordAt_ne layout.l3_table layout.l1_table layout.l1_ne_l3.symm hj hi
  rw [bootMemory, withBlocks_of_ne hl2, withUserPages_of_ne hl3, withPages_of_ne hl3]

/-- The first entry of the second table, which the loop skips, points to the third. -/
theorem bootMemory_l2_zero :
    bootMemory layout memory (wordAt layout.bootL2Table 0) = layout.bootL3Table ||| 3 := by
  have hl3 : ∀ j < 512, wordAt layout.bootL3Table j ≠ wordAt layout.bootL2Table 0 :=
    fun j hj => wordAt_ne layout.l3_table layout.l2_table layout.l2_ne_l3.symm hj (by decide)
  have hl2 : ∀ k < 511, wordAt layout.bootL2Table (1 + k) ≠ wordAt layout.bootL2Table 0 :=
    fun k hk => wordAt_ne_self (by omega) (by decide) (by omega)
  rw [bootMemory, withBlocks, fill_of_ne hl2, withUserPages_of_ne hl3, withPages_of_ne hl3,
    withRoots, wordAt_zero, Function.update_self]

/-- The loop adds the size of a block to a whole entry, attributes and all; since the attributes
are in other bits, this is the address of the next block with the same attributes. -/
theorem bootMemory_l2 (hi : 1 ≤ i) (hi' : i < 512) :
    bootMemory layout memory (wordAt layout.bootL2Table i) = blockAt i ||| 0x0060000000000705 := by
  have hentry : (0x0060000040200705 : Word) + BitVec.ofNat 64 (i - 1) * 0x200000 =
      blockAt i + 0x0060000000000705 := by
    rw [← BitVec.toNat_inj, blockAt, BitVec.toNat_add, BitVec.toNat_mul, BitVec.toNat_add,
      BitVec.toNat_ofNat, BitVec.toNat_ofNat]
    show (0x0060000040200705 + (i - 1) % 2 ^ 64 * 0x200000 % 2 ^ 64) % 2 ^ 64 =
      ((0x40000000 + 0x200000 * i) % 2 ^ 64 + 0x0060000000000705) % 2 ^ 64
    omega
  have hindex : i = 1 + (i - 1) := by omega
  rw [← (pageAddress_blockAt hi').add_eq_entry (by decide), ← hentry, bootMemory, withBlocks]
  nth_rewrite 1 [hindex]
  exact fill_of_lt (by omega) (by decide)

/-- The loop over pages does the same. -/
theorem withPages_l3 (hi : i < 512) :
    withPages layout memory (wordAt layout.bootL3Table i) = pageAt i ||| 0x707 := by
  have hentry : (0x40000707 : Word) + BitVec.ofNat 64 i * 0x1000 = pageAt i + 0x707 := by
    rw [← BitVec.toNat_inj, pageAt, BitVec.toNat_add, BitVec.toNat_mul, BitVec.toNat_add,
      BitVec.toNat_ofNat, BitVec.toNat_ofNat]
    show (0x40000707 + i % 2 ^ 64 * 0x1000 % 2 ^ 64) % 2 ^ 64 =
      ((0x40000000 + 0x1000 * i) % 2 ^ 64 + 0x707) % 2 ^ 64
    omega
  have hword : wordAt layout.bootL3Table i = wordAt layout.bootL3Table (0 + i) := by
    rw [Nat.zero_add]
  rw [← (pageAddress_pageAt hi).add_eq_entry (by decide), ← hentry, withPages, hword]
  exact fill_of_lt hi (by decide)

/-- The index that the boot code computes for a user page is the number of the page. -/
theorem wordAt_eq_pageEntry {page : Word} (h : UserPage page) (hi : i < 512) :
    wordAt layout.bootL3Table i = pageEntry layout page ↔ pageAt i = page := by
  rw [pageEntry_eq layout h]
  constructor
  · intro heq
    rw [wordAt_injective (by omega) (by have := h.index_lt; omega) heq, ← h.eq_pageAt]
  · intro heq
    rw [h.eq_pageAt] at heq
    rw [pageAt_inj hi h.index_lt heq]

/-- The entries of the user pages replace those of the loop. -/
theorem withUserPages_l3 (hi : i < 512) :
    withUserPages layout (withPages layout memory) (wordAt layout.bootL3Table i) =
      pageAt i ||| pageAttributes layout (pageAt i) := by
  rw [withUserPages, pageAttributes]
  simp only [Function.update_apply, wordAt_eq_pageEntry layout.userStackB_page hi,
    wordAt_eq_pageEntry layout.userStackA_page hi, wordAt_eq_pageEntry layout.userText_page hi]
  -- at most one of the three pages is this one
  have htextA := layout.userText_ne_userStackA
  have htextB := layout.userText_ne_userStackB
  by_cases hB : pageAt i = layout.userStackBBottom
  · simp [hB, htextB.symm]
  · by_cases hA : pageAt i = layout.userStackABottom
    · simp [hA, htextA.symm, layout.userStackA_ne_userStackB]
    · by_cases htext : pageAt i = layout.userTextStart
      · simp [htext, htextA, htextB]
      · simp [hA, hB, htext, withPages_l3 hi]

theorem bootMemory_l3 (hi : i < 512) :
    bootMemory layout memory (wordAt layout.bootL3Table i) =
      pageAt i ||| pageAttributes layout (pageAt i) := by
  have hl2 : ∀ j < 512, wordAt layout.bootL2Table j ≠ wordAt layout.bootL3Table i :=
    fun j hj => wordAt_ne layout.l2_table layout.l3_table layout.l2_ne_l3 hj hi
  rw [bootMemory, withBlocks_of_ne hl2, withUserPages_l3 hi]

/-- **The boot code builds the tables**, whatever was in memory before. -/
theorem builtTables (layout : Layout) (memory : Word → Word) :
    BuiltTables layout (bootMemory layout memory) where
  devices := by
    rw [bootMemory_l1 (by decide), withRoots_l1 (by decide), if_pos rfl]
    rfl
  ram := by rw [bootMemory_l1 (by decide), withRoots_l1 (by decide), if_neg (by decide), if_pos rfl]
  beyond i hi hi' := by
    rw [bootMemory_l1 hi', withRoots_l1 hi', if_neg (by omega), if_neg (by omega),
      clearedBss_table layout.l1_table hi']
  firstPages := bootMemory_l2_zero
  block i := bootMemory_l2
  page i := bootMemory_l3

end Aegis.Boot
