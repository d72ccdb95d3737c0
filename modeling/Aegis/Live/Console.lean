import Mathlib
import Aegis.A64.Machine

/-!
# The console

What the kernel writes to the UART: lines that it prints, with the values they show, and
single bytes.  `uartBytes` is what `Uart` makes of them.  `putc` waits until the UART has room;
the wait has no other effect, and it is left out.

No line is without bytes, since each ends with a newline.  So what has come out of the UART
tells how many lines have been printed (`uartBytes_eq_iff`).
-/

namespace Aegis.Live

open A64

/-- `{:#018x}` -/
def hex64 (value : Word) : String :=
  let digits := Nat.toDigits 16 value.toNat
  "0x" ++ String.ofList (List.replicate (16 - digits.length) '0' ++ digits)

/-- The lines that the kernel prints. -/
inductive Line
  | hello
  | platform
  | vectorsInstalled
  | identityMap (on : Bool)
  | memoryTest (pass : Bool)
  | consoleUart (granted : Bool)
  | sandboxUart (granted : Bool)
  | ipcTest (pass : Bool)
  | syscallTest (pass : Bool)
  | schedulerTest (pass : Bool)
  | timerEnabled
  | waitingForTimer
  | enteringSandbox
  | timerDelivered
  | unexpectedInterrupt (id : BitVec 32)
  | switchedToB
  | restoredA
  | selectionFailed
  | unexpectedLowerInterrupt (id : BitVec 32)
  | yielded
  | registerIntegrity (pass : Bool)
  | callDenied
  | callReceived
  | authorizedWrite
  | replied
  | subtreeRevoked (revoked : ℕ)
  | unauthorizedCaller
  | revokedCallAuthorized
  | recovered
  | complete
  | uartDenied
  | fault (vector : ℕ) (esr elr : Word)
  deriving DecidableEq, Repr

def passOrFail (pass : Bool) : String := if pass then "PASS" else "FAIL"

def grantedOrDenied (granted : Bool) : String := if granted then "GRANTED" else "DENIED"

def Line.text : Line → String
  | .hello => "\n[Aegis] Hello from the kernel"
  | .platform => "[boot] AArch64 EL1 | QEMU virt | PL011 @ 0x09000000"
  | .vectorsInstalled => "[boot] exception vectors installed"
  | .identityMap on => "[mmu] stage-1 identity map: " ++ if on then "ON" else "OFF"
  | .memoryTest pass => "[memory] frame allocator + W^X descriptor: " ++ passOrFail pass
  | .consoleUart granted => "[caps] console UART capability: " ++ grantedOrDenied granted
  | .sandboxUart granted => "[caps] sandbox UART capability: " ++ grantedOrDenied granted
  | .ipcTest pass => "[ipc] synchronous rendezvous self-test: " ++ passOrFail pass
  | .syscallTest pass => "[syscall] typed endpoint authorization: " ++ passOrFail pass
  | .schedulerTest pass => "[sched] round-robin policy self-test: " ++ passOrFail pass
  | .timerEnabled => "[timer] enabling GICv2 virtual timer at 10 Hz"
  | .waitingForTimer => "[ready] milestone 3 interrupt bring-up; waiting for timer IRQs"
  | .enteringSandbox => "[el0] entering sandbox with isolated code and stack pages"
  | .timerDelivered => "[timer] EL1 IRQ delivery: PASS (3 ticks)"
  | .unexpectedInterrupt id => "[irq] unexpected interrupt id=" ++ toString id.toNat
  | .switchedToB => "[preempt] runnable scheduler selected task A -> B: PASS"
  | .restoredA => "[preempt] runnable scheduler restored task B -> A: PASS"
  | .selectionFailed => "[preempt] runnable scheduler selection: FAIL"
  | .unexpectedLowerInterrupt id =>
      "[irq] unexpected lower-EL interrupt id=" ++ toString id.toNat
  | .yielded => "[el0] SVC yield round-trip: PASS"
  | .registerIntegrity pass =>
      "[preempt] callee-saved register integrity: " ++ passOrFail pass
  | .callDenied => "[caps] post-revocation console Call: DENIED"
  | .callReceived => "[ipc] app Call -> console Receive: PASS"
  | .authorizedWrite => " <- [console-server] capability-authorized write: PASS"
  | .replied => "[ipc] console Reply -> app resume: PASS"
  | .subtreeRevoked revoked =>
      "[caps] root revoked console grant subtree: PASS (" ++ toString revoked ++ ")"
  | .unauthorizedCaller => "[console-server] unauthorized caller: DENIED"
  | .revokedCallAuthorized => "[caps] revoked call unexpectedly authorized: FAIL"
  | .recovered => "[el0] sandbox exception recovery: PASS"
  | .complete => "[ready] milestone 4 EL0 isolation proof complete"
  | .uartDenied => "[el0] direct PL011 access: DENIED by stage-1 MMU"
  | .fault vector esr elr =>
      "[fault] vector=" ++ toString vector ++ " ESR_EL1=" ++ hex64 esr ++ " ELR_EL1=" ++ hex64 elr

/-- One write to the console. -/
inductive Output
  /-- `println!` -/
  | line (printed : Line)
  /-- `Uart.putc` -/
  | byte (value : UInt8)
  deriving DecidableEq

/-- `write_str`: a carriage return before every newline. -/
def writeStr (value : String) : List UInt8 :=
  value.toUTF8.data.toList.flatMap fun byte => if byte = 10 then [13, byte] else [byte]

/-- The bytes that go to the UART. -/
def Output.bytes : Output → List UInt8
  | .line printed => writeStr (printed.text ++ "\n")
  | .byte value => [value]

/-- What has gone to the UART, after these writes. -/
def uartBytes (console : List Output) : List UInt8 := console.flatMap Output.bytes

theorem uartBytes_append (first second : List Output) :
    uartBytes (first ++ second) = uartBytes first ++ uartBytes second :=
  List.flatMap_append

/-- A text that is formatted in pieces comes out as one. -/
theorem writeStr_append (first second : String) :
    writeStr (first ++ second) = writeStr first ++ writeStr second := by
  simp [writeStr, String.toUTF8]

theorem Output.bytes_ne_nil (o : Output) : o.bytes ≠ [] := by
  cases o with
  | line printed =>
      rw [Output.bytes, writeStr_append]
      exact List.append_ne_nil_of_right_ne_nil _ (by decide)
  | byte value => exact List.cons_ne_nil _ _

theorem uartBytes_prefix {shown all : List Output} (h : shown <+: all) :
    uartBytes shown <+: uartBytes all := by
  obtain ⟨rest, rfl⟩ := h
  exact ⟨uartBytes rest, (uartBytes_append shown rest).symm⟩

/-- All the bytes are there only if all the lines are. -/
theorem uartBytes_eq_iff {shown all : List Output} (h : shown <+: all) :
    uartBytes shown = uartBytes all ↔ shown = all := by
  refine ⟨fun heq => ?_, congrArg uartBytes⟩
  obtain ⟨rest, rfl⟩ := h
  rw [uartBytes_append, List.self_eq_append_right] at heq
  cases rest with
  | nil => exact (List.append_nil shown).symm
  | cons o rest =>
      rw [uartBytes, List.flatMap_cons] at heq
      exact absurd (List.append_eq_nil_iff.mp heq).1 o.bytes_ne_nil

end Aegis.Live
