import Mathlib
import Aegis.A64.Fill

/-!
# The boot code

The part of `boot.S` that runs at EL1 before `kernel_main`: it clears the BSS, builds the
three tables of the early address map in it, and turns translation on.  The listing is
the source's, line by line; `ldr xt, =symbol` loads the address that the linker gave the
symbol.

`Layout` is such an assignment of addresses, with what the linker script and the section
directives guarantee about it.
-/

namespace Aegis.Boot

open A64

/-- A page among the first 2 MiB of RAM. -/
structure UserPage (page : Word) : Prop where
  aligned : page.toNat % 4096 = 0
  le : 0x40000000 ≤ page.toNat
  lt : page.toNat < 0x40200000

/-- A 4 KiB table within the BSS. -/
structure BootTable (bssStart bssEnd table : Word) : Prop where
  aligned : table.toNat % 4096 = 0
  le : bssStart.toNat ≤ table.toNat
  end_le : table.toNat + 4096 ≤ bssEnd.toNat

/-- The addresses of the symbols that `boot.S` uses. -/
structure Layout where
  bssStart : Word
  bssEnd : Word
  userTextStart : Word
  userStackABottom : Word
  userStackBBottom : Word
  bootL1Table : Word
  bootL2Table : Word
  bootL3Table : Word
  userText_page : UserPage userTextStart
  userStackA_page : UserPage userStackABottom
  userStackB_page : UserPage userStackBBottom
  userText_ne_userStackA : userTextStart ≠ userStackABottom
  userText_ne_userStackB : userTextStart ≠ userStackBBottom
  userStackA_ne_userStackB : userStackABottom ≠ userStackBBottom
  bss_aligned : Aligned bssStart
  /-- Addresses are physical, and have 48 bits at most. -/
  bssEnd_le : bssEnd.toNat ≤ 2 ^ 48
  l1_table : BootTable bssStart bssEnd bootL1Table
  l2_table : BootTable bssStart bssEnd bootL2Table
  l3_table : BootTable bssStart bssEnd bootL3Table
  l1_ne_l2 : bootL1Table ≠ bootL2Table
  l1_ne_l3 : bootL1Table ≠ bootL3Table
  l2_ne_l3 : bootL2Table ≠ bootL3Table

inductive BootLabel
  | enterRust
  | clearBss
  | bssReady
  | mapL3
  | mapL2
  deriving DecidableEq

/-- `boot.S` from `.Lenter_rust` up to the call of `kernel_main`. -/
def bootCode (layout : Layout) : Code BootLabel := [
  .label .enterRust,
  .instr (.ldrLiteral 0 layout.bssStart),
  .instr (.ldrLiteral 1 layout.bssEnd),
  .label .clearBss,
  .instr (.cmp 0 (.x 1)),
  .branch .hs .bssReady,
  .instr (.str .xzr (.post 0 8)),
  .branch .always .clearBss,
  .label .bssReady,
  -- Early 39-bit stage-1 map.
  .instr (.ldrLiteral 0 layout.bootL1Table),
  .instr (.ldrLiteral 1 0x0060000000000401),
  .instr (.str (.x 1) (.offset (.x 0) 0)),
  .instr (.ldrLiteral 1 layout.bootL2Table),
  .instr (.orr 1 1 (.imm 3)),
  .instr (.str (.x 1) (.offset (.x 0) 8)),
  .instr (.ldrLiteral 2 layout.bootL3Table),
  .instr (.orr 1 2 (.imm 3)),
  .instr (.ldrLiteral 3 layout.bootL2Table),
  .instr (.str (.x 1) (.offset (.x 3) 0)),
  -- Kernel-only 4 KiB mappings for the first 2 MiB of RAM.
  .instr (.mov 3 0),
  .instr (.ldrLiteral 4 0x40000707),
  .label .mapL3,
  .instr (.str (.x 4) (.index (.x 2) 3)),
  .instr (.add 4 4 (.imm 0x1000)),
  .instr (.add 3 3 (.imm 1)),
  .instr (.cmp 3 (.imm 512)),
  .branch .ne .mapL3,
  -- User text: EL0 read/execute, EL1 execute-never.
  .instr (.ldrLiteral 4 layout.userTextStart),
  .instr (.ldrLiteral 6 0x40000000),
  .instr (.sub 3 4 (.x 6)),
  .instr (.lsr 3 3 12),
  .instr (.ldrLiteral 5 0x00200000000007c7),
  .instr (.orr 5 4 (.x 5)),
  .instr (.str (.x 5) (.index (.x 2) 3)),
  -- User stack: EL0 read/write, never executable.
  .instr (.ldrLiteral 4 layout.userStackABottom),
  .instr (.sub 3 4 (.x 6)),
  .instr (.lsr 3 3 12),
  .instr (.ldrLiteral 5 0x0060000000000747),
  .instr (.orr 5 4 (.x 5)),
  .instr (.str (.x 5) (.index (.x 2) 3)),
  .instr (.ldrLiteral 4 layout.userStackBBottom),
  .instr (.sub 3 4 (.x 6)),
  .instr (.lsr 3 3 12),
  .instr (.ldrLiteral 5 0x0060000000000747),
  .instr (.orr 5 4 (.x 5)),
  .instr (.str (.x 5) (.index (.x 2) 3)),
  -- Remaining RAM uses kernel-only 2 MiB blocks.
  .instr (.ldrLiteral 3 layout.bootL2Table),
  .instr (.mov 4 1),
  .instr (.ldrLiteral 5 0x0060000040200705),
  .label .mapL2,
  .instr (.str (.x 5) (.index (.x 3) 4)),
  .instr (.add 5 5 (.imm 0x200000)),
  .instr (.add 4 4 (.imm 1)),
  .instr (.cmp 4 (.imm 512)),
  .branch .ne .mapL2,
  .instr (.ldrLiteral 1 0x000000000000ff00),
  .instr (.msr .mairEl1 1),
  .instr (.ldrLiteral 1 0x0000000200803519),
  .instr (.msr .tcrEl1 1),
  .instr (.msr .ttbr0El1 0),
  .instr .barrier,
  .instr .barrier,
  .instr .barrier,
  .instr .barrier,
  .instr (.mrs 1 .sctlrEl1),
  .instr (.orr 1 1 (.imm 1)),
  .instr (.orr 1 1 (.imm 4)),
  .instr (.orr 1 1 (.imm 0x1000)),
  .instr (.msr .sctlrEl1 1),
  .instr .barrier]

/-- The state in which `kernel_main` is called, when the code at `.Lenter_rust` begins in
the state `s`. -/
def Boots (layout : Layout) (s t : State) : Prop :=
  (bootCode layout).Reaches ((bootCode layout).lineOf .enterRust, s)
    ((bootCode layout).length, t)

end Aegis.Boot
