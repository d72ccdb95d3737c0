import Mathlib
import Aegis.Ipc.Model
import Aegis.Syscall

/-!
# The runtime

A translation of `runtime.rs`: the capability system and the IPC object of the running
kernel, the task that runs, and the byte on its way to the console.  `app_call` and
`console_reply_and_revoke` are what the two system calls of the demo do; each makes
several changes in several places, with an early return after every step.
-/

namespace Aegis

open Foundation Capability Ipc

def ROOT_TASK : ℕ := 0

def CONSOLE_TASK : ℕ := 1

def APP_TASK : ℕ := 2

def UART_SLOT : ℕ := 0

def ENDPOINT_SLOT : ℕ := 1

abbrev LiveCaps := CapabilitySystem 4 8 16

abbrev LiveIpc := RendezvousIpc 4 2

inductive RuntimeError
  | capability (error : CapError)
  | syscall (error : SyscallError)
  | wrongTask
  | ipc (error : IpcError)
  deriving DecidableEq, Repr

structure Runtime where
  capabilities : LiveCaps
  currentTask : ℕ
  pendingByte : UInt8
  ipc : LiveIpc
  deriving DecidableEq

/-- `Message::default()` -/
def defaultMessage : Message where
  label := 0
  length := 0
  registers := Vector.replicate 4 0
  capabilitySlot := none

namespace Runtime

def empty : Runtime where
  capabilities := CapabilitySystem.new
  currentTask := APP_TASK
  pendingByte := 0
  ipc := RendezvousIpc.new

/-- A method of `self.capabilities`, followed by `?`. -/
def onCapabilities {α : Type} (method : Call LiveCaps CapError α) :
    Call Runtime RuntimeError α :=
  (Call.zoom Runtime.capabilities (fun runtime capabilities => { runtime with capabilities })
    method).mapError .capability

/-- A method of `self.ipc`, followed by `?`. -/
def onIpc {α : Type} (method : Call LiveIpc IpcError α) : Call Runtime RuntimeError α :=
  (Call.zoom Runtime.ipc (fun runtime ipc => { runtime with ipc }) method).mapError .ipc

/-- An authorization, followed by `?`. -/
def authorized {α : Type} (check : LiveCaps → Except SyscallError α) :
    Call Runtime RuntimeError α :=
  Call.reads fun runtime => (check runtime.capabilities).mapError .syscall

def ensureCurrent (task : ℕ) : Call Runtime RuntimeError Unit :=
  Call.reads fun runtime => if runtime.currentTask ≠ task then .error .wrongTask else .ok ()

/-- An assignment to the runtime's own fields. -/
def assign (write : Runtime → Runtime) : Call Runtime RuntimeError Unit := fun runtime =>
  some (.ok (), write runtime)

/-- `self.ipc.take_message(thread)` -/
def takeMessage (thread : ThreadId) : Call Runtime RuntimeError (Option Message) :=
  fun runtime =>
    let taken := runtime.ipc.takeMessage thread
    some (.ok taken.1, { runtime with ipc := taken.2 })

def bootstrap : Call Runtime RuntimeError Unit := do
  onCapabilities (CapabilitySystem.createRoot ROOT_TASK UART_SLOT (.mmio 0x09000000 1) Rights.ALL)
  onCapabilities
    (CapabilitySystem.mint ROOT_TASK UART_SLOT CONSOLE_TASK UART_SLOT Rights.WRITE)
  onCapabilities
    (CapabilitySystem.createRoot ROOT_TASK ENDPOINT_SLOT (.endpoint 0) Rights.ALL)
  onCapabilities
    (CapabilitySystem.mint ROOT_TASK ENDPOINT_SLOT APP_TASK ENDPOINT_SLOT Rights.WRITE)

/-- The message that carries a byte to the console. -/
def request (byte : UInt8) : Message where
  label := 1
  length := 1
  registers := #v[byte.toUInt64, 0, 0, 0]
  capabilitySlot := none

def appCall (byte : UInt8) : Call Runtime RuntimeError Unit := do
  ensureCurrent APP_TASK
  let _ ← authorized fun capabilities =>
    authorizeEndpoint capabilities APP_TASK ENDPOINT_SLOT Rights.WRITE
  let called ← onIpc (RendezvousIpc.call APP_TASK 0 (request byte))
  if called ≠ .blocked then Call.throw .wrongTask
  else
    let received ← onIpc (RendezvousIpc.receive CONSOLE_TASK 0)
    if received ≠ .delivered APP_TASK then Call.throw .wrongTask
    else
      match ← takeMessage CONSOLE_TASK with
      | none => Call.throw .wrongTask
      | some message =>
          assign fun runtime => { runtime with pendingByte := message.registers[0].toUInt8 }
          assign fun runtime => { runtime with currentTask := CONSOLE_TASK }

def consoleReplyAndRevoke : Call Runtime RuntimeError (UInt8 × ℕ) := do
  ensureCurrent CONSOLE_TASK
  let _ ← authorized fun capabilities =>
    authorizeMmio capabilities CONSOLE_TASK UART_SLOT Rights.WRITE
  let byte ← Call.reads fun runtime => .ok runtime.pendingByte
  let _ ← onIpc (RendezvousIpc.reply CONSOLE_TASK defaultMessage)
  assign fun runtime => { runtime with currentTask := APP_TASK }
  let revoked ← onCapabilities (CapabilitySystem.revoke ROOT_TASK ENDPOINT_SLOT)
  return (byte, revoked)

/-- `initialize()`: what it returns, and the runtime it leaves. -/
def initializeRuntime : Option (Except RuntimeError Unit × Runtime) := bootstrap empty

end Runtime

/-! ## The runtime as a machine -/

/-- The system calls, in any order and with any byte. -/
inductive RuntimeOp
  | appCall (byte : UInt8)
  | consoleReplyAndRevoke
  deriving DecidableEq, Repr

/-- What they return. -/
inductive RuntimeResult
  | called (result : Except RuntimeError Unit)
  | replied (result : Except RuntimeError (UInt8 × ℕ))
  deriving DecidableEq

/-- A runtime, driven by system calls. -/
def runtimeMachine (runtime : Runtime) : Machine Runtime RuntimeOp RuntimeResult where
  init := runtime
  step runtime op :=
    match op with
    | .appCall byte => (Runtime.appCall byte runtime).map (Prod.map .called id)
    | .consoleReplyAndRevoke =>
        (Runtime.consoleReplyAndRevoke runtime).map (Prod.map .replied id)

abbrev RuntimeEvent := Event Runtime RuntimeOp RuntimeResult

end Aegis
