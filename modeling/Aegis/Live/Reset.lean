import Mathlib
import Aegis.Boot.Entry
import Aegis.Live.Startup

/-!
# From reset to the end

What the modules before this one say of `_start`, of the boot code, of `kernel_main`, of the
live kernel and of the user programs, put together.  Between the parts that are modelled line
by line there is compiled code, of which one thing is assumed: that it uses the boot stack, and
leaves the boot tables and the user text alone.
-/

namespace Aegis.Live

open Foundation A64 Preempt Boot Irq

/-- What the linker script says of the places of things: the user text comes before the BSS
and the user stacks after it, and the boot stack is the first thing in the BSS. -/
structure Image (layout : Layout) (bootStackTop : Word) : Prop where
  text_le : layout.userTextStart.toNat + 4096 ≤ layout.bssStart.toNat
  bssEnd_le : layout.bssEnd.toNat ≤ layout.userStackABottom.toNat
  stackB_eq : layout.userStackBBottom.toNat = layout.userStackABottom.toNat + 4096
  stack : bootStackTop.toNat = layout.bssStart.toNat + 16384
  le_l1 : bootStackTop.toNat ≤ layout.bootL1Table.toNat
  le_l2 : bootStackTop.toNat ≤ layout.bootL2Table.toNat
  le_l3 : bootStackTop.toNat ≤ layout.bootL3Table.toNat

/-- What compiled code that is called in the state `t` does to the CPU before it calls
`launch_user_demo`. -/
structure Compiled (layout : Layout) (t cpu : State) : Prop where
  aligned : Aligned cpu.sp
  /-- The stack has not overflown, and there is room for a frame. -/
  le_sp : layout.bssStart.toNat + 256 ≤ cpu.sp.toNat
  sp_le : cpu.sp.toNat ≤ t.sp.toNat
  guarded : ∀ a, Guarded layout a → ¬InStack layout a → cpu.memory a = t.memory a
  ttbr0 : cpu.sys .ttbr0El1 = t.sys .ttbr0El1

section Reset

variable {layout : Layout} {bootStackTop : Word} {reset r : Reset} {t cpu : State}

theorem Compiled.prepared (h : Compiled layout t cpu) (image : Image layout bootStackTop)
    (called : Called layout bootStackTop reset r t) : Prepared layout cpu := by
  have hsp := h.sp_le
  rw [called.sp] at hsp
  have placement : Placement layout cpu.sp :=
    ⟨image.text_le, image.bssEnd_le, image.stackB_eq, h.aligned, h.le_sp, hsp.trans image.le_l1,
      hsp.trans image.le_l2, hsp.trans image.le_l3⟩
  refine ⟨placement, placement.builtTables ?_ h.guarded, h.ttbr0.trans called.ttbr0⟩
  rw [called.memory]
  exact builtTables layout _

end Reset

end Aegis.Live
