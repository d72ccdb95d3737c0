import Mathlib
import Aegis.A64.User
import Aegis.Boot.Model

/-!
# The user programs

A translation of `user.S`: the code of the two user tasks, line by line, at the addresses
that the linker gives it.  Task A waits until a word on its stack changes, makes its system
calls and then writes to the UART; task B changes that word.
-/

namespace Aegis.Live

open A64 Boot

/-- `__user_stack_a_top` -/
def userStackATop (layout : Layout) : Word := layout.userStackABottom + 4096

/-- `__user_stack_b_top` -/
def userStackBTop (layout : Layout) : Word := layout.userStackBBottom + 4096

inductive UserLabel
  | userEntry
  | appPreemptWait
  | appPreempted
  | userAResumed
  | userAfterFault
  /-- the `1:` after `__user_after_fault` -/
  | userDone
  | userBEntry
  /-- the `1:` after `__user_b_entry` -/
  | userBDone
  | preemptBEntry
  | preemptBWait
  deriving DecidableEq

/-- `.user.text` -/
def userText (layout : Layout) : UserCode UserLabel := [
  .label .userEntry,
  .instr (.mov 19 0x19),
  .instr (.mov 20 0x20),
  .instr (.mov 21 0x21),
  .instr (.ldrLiteral 24 (userStackATop layout)),
  .instr (.sub 24 24 8),
  .instr (.str .xzr 24),
  .label .appPreemptWait,
  .instr (.ldr 25 24),
  .instr (.cbnz 25 .appPreempted),
  .instr (.add 22 22 1),
  .instr (.b .appPreemptWait),
  .label .appPreempted,
  .instr (.svc 0),
  .instr (.mov 0 65),
  .instr (.svc 10),
  .label .userAResumed,
  .instr (.svc 12),
  .instr (.ldrLiteral 1 0x09000000),
  .instr (.mov 0 0x41),
  .instr (.strW 0 1),
  .label .userAfterFault,
  .instr (.svc 2),
  .label .userDone,
  .instr .wfe,
  .instr (.b .userDone),
  .label .userBEntry,
  .instr (.svc 11),
  .label .userBDone,
  .instr .wfe,
  .instr (.b .userBDone),
  .label .preemptBEntry,
  .instr (.mov 19 0xb),
  .instr (.ldrLiteral 24 (userStackATop layout)),
  .instr (.sub 24 24 8),
  .instr (.mov 25 1),
  .instr (.str (.x 25) 24),
  .label .preemptBWait,
  .instr (.add 23 23 1),
  .instr (.b .preemptBWait)]

/-- The address of a label of `user.S`. -/
def userSymbol (layout : Layout) (l : UserLabel) : Word :=
  Listing.addressOf layout.userTextStart ((userText layout).indexOf l)

end Aegis.Live
