import Mathlib
import Aegis.Foundation.Call
import Aegis.Foundation.Machine

/-!
# Rendezvous IPC

A translation of `ipc.rs`: threads that send, call, receive and reply at endpoints
whose two queues are ring buffers of thread numbers, with the message of a blocked
sender parked in its own thread.

Thread and endpoint numbers are natural numbers (`usize` arguments of any value).
The operations check the numbers they are given and return errors; the numbers
that come out of a queue or a reply target are used to index without a check, and
the model panics where such an index is out of bounds.  Writes that precede an
error stay written: `call` on a bad endpoint has already changed the caller's
`is_call`.
-/

namespace Aegis.Ipc

open Foundation

abbrev ThreadId := ℕ

/-- A label, up to four registers, and a capability to hand over.  The operations move a
message as a whole and look at none of it. -/
structure Message where
  label : UInt16
  length : UInt8
  registers : Vector UInt64 4
  capabilitySlot : Option UInt16
  deriving DecidableEq, Repr

/-- What a thread waits for. -/
inductive ThreadState
  | runnable
  | sending (endpoint : ℕ)
  | receiving (endpoint : ℕ)
  | replyBlocked (server : ThreadId)
  deriving DecidableEq, Repr

/-- What the kernel object keeps for a thread.  `outgoing` means something while the thread waits
to send, `replyTarget` from the receipt of a call until the reply. -/
structure Thread where
  state : ThreadState
  outgoing : Message
  inbox : Option Message
  isCall : Bool
  replyTarget : Option ThreadId
  deriving DecidableEq, Repr

def EMPTY_THREAD : Thread where
  state := .runnable
  outgoing := ⟨0, 0, Vector.replicate 4 0, none⟩
  inbox := none
  isCall := false
  replyTarget := none

/-- The peer of a rendezvous, or none yet. -/
inductive IpcOutcome
  | blocked
  | delivered (peer : ThreadId)
  deriving DecidableEq, Repr

inductive IpcError
  | badThread
  | badEndpoint
  | threadNotRunnable
  | queueFull
  | noReplyTarget
  deriving DecidableEq, Repr

/-! ## Queues -/

/-- A ring: the `len` entries from `head` on, around the end of the array. -/
structure Queue (THREADS : ℕ) where
  entries : Vector (Option ThreadId) THREADS
  head : ℕ
  len : ℕ
  deriving DecidableEq

namespace Queue

variable {THREADS : ℕ}

def new : Queue THREADS where
  entries := Vector.replicate THREADS none
  head := 0
  len := 0

/-- Enter a thread behind the last one.  Without threads the remainder panics, but then the
queue is full. -/
def push (thread : ThreadId) : Call (Queue THREADS) IpcError Unit := fun queue =>
  if queue.len = THREADS then some (.error .queueFull, queue)
  else
    let tail := (queue.head + queue.len) % THREADS
    if h : tail < THREADS then
      some (.ok (), { queue with
        entries := queue.entries.set tail (some thread), len := queue.len + 1 })
    else none

/-- Take the first thread out.  An entry that is `None` is taken out as well, and returned. -/
def pop : Call (Queue THREADS) IpcError (Option ThreadId) := fun queue =>
  if queue.len = 0 then some (.ok none, queue)
  else if h : queue.head < THREADS then
    some (.ok queue.entries[queue.head],
      { entries := queue.entries.set queue.head none
        head := (queue.head + 1) % THREADS
        len := queue.len - 1 })
  else none

end Queue

structure Endpoint (THREADS : ℕ) where
  senders : Queue THREADS
  receivers : Queue THREADS
  deriving DecidableEq

def Endpoint.new {THREADS : ℕ} : Endpoint THREADS := ⟨Queue.new, Queue.new⟩

/-! ## The kernel object -/

structure RendezvousIpc (THREADS ENDPOINTS : ℕ) where
  threads : Vector Thread THREADS
  endpoints : Vector (Endpoint THREADS) ENDPOINTS
  deriving DecidableEq

namespace RendezvousIpc

variable {THREADS ENDPOINTS : ℕ}

def new : RendezvousIpc THREADS ENDPOINTS where
  threads := Vector.replicate THREADS EMPTY_THREAD
  endpoints := Vector.replicate ENDPOINTS Endpoint.new

/-- An assignment to fields of `self.threads[thread]`. -/
def writeThread (thread : ThreadId) (write : Thread → Thread) :
    Call (RendezvousIpc THREADS ENDPOINTS) IpcError Unit :=
  Call.writes fun ipc =>
    if h : thread < THREADS then
      some { ipc with threads := ipc.threads.set thread (write ipc.threads[thread]) }
    else none

/-- The thread `self.threads[thread]`. -/
def readThread (thread : ThreadId) : Call (RendezvousIpc THREADS ENDPOINTS) IpcError Thread :=
  Call.index fun ipc => ipc.threads[thread]?

/-- Look an endpoint up and call a method of its sender queue. -/
def withSenders {α : Type} (endpoint : ℕ) (method : Call (Queue THREADS) IpcError α) :
    Call (RendezvousIpc THREADS ENDPOINTS) IpcError α := fun ipc =>
  if h : endpoint < ENDPOINTS then
    Call.zoom (fun ipc => ipc.endpoints[endpoint].senders)
      (fun ipc senders => { ipc with
        endpoints := ipc.endpoints.set endpoint { ipc.endpoints[endpoint] with senders } })
      method ipc
  else some (.error .badEndpoint, ipc)

/-- Look an endpoint up and call a method of its receiver queue. -/
def withReceivers {α : Type} (endpoint : ℕ) (method : Call (Queue THREADS) IpcError α) :
    Call (RendezvousIpc THREADS ENDPOINTS) IpcError α := fun ipc =>
  if h : endpoint < ENDPOINTS then
    Call.zoom (fun ipc => ipc.endpoints[endpoint].receivers)
      (fun ipc receivers => { ipc with
        endpoints := ipc.endpoints.set endpoint { ipc.endpoints[endpoint] with receivers } })
      method ipc
  else some (.error .badEndpoint, ipc)

/-- The checked lookup `self.threads.get(thread).ok_or(BadThread)`. -/
def getThread (thread : ThreadId) (ipc : RendezvousIpc THREADS ENDPOINTS) :
    Except IpcError Thread :=
  match ipc.threads[thread]? with
  | none => .error .badThread
  | some t => .ok t

def ensureRunnable (thread : ThreadId) (ipc : RendezvousIpc THREADS ENDPOINTS) :
    Except IpcError Unit :=
  match ipc.getThread thread with
  | .error e => .error e
  | .ok t => if t.state = .runnable then .ok () else .error .threadNotRunnable

/-- How `send` and `call` begin: check the sender, note which of the two it is, and
take the first waiting receiver. -/
def beginSend (isCall : Bool) (sender : ThreadId) (endpoint : ℕ) :
    Call (RendezvousIpc THREADS ENDPOINTS) IpcError (Option ThreadId) := do
  Call.reads (ensureRunnable sender)
  -- written before the endpoint is looked up, and kept if that fails
  writeThread sender fun t => { t with isCall }
  withReceivers endpoint Queue.pop

/-- How `send` and `call` end when no receiver is waiting. -/
def parkSender (sender : ThreadId) (endpoint : ℕ) (message : Message) :
    Call (RendezvousIpc THREADS ENDPOINTS) IpcError IpcOutcome := do
  writeThread sender fun t => { t with outgoing := message }
  writeThread sender fun t => { t with state := .sending endpoint }
  withSenders endpoint (Queue.push sender)
  return .blocked

/-- Hand a message to the first waiting receiver, or wait for one. -/
def send (sender : ThreadId) (endpoint : ℕ) (message : Message) :
    Call (RendezvousIpc THREADS ENDPOINTS) IpcError IpcOutcome := do
  match ← beginSend false sender endpoint with
  | some receiver =>
      writeThread receiver fun t => { t with inbox := some message }
      writeThread receiver fun t => { t with state := .runnable }
      return .delivered receiver
  | none => parkSender sender endpoint message

/-- A `send` after which the sender waits for the reply. -/
def call (caller : ThreadId) (endpoint : ℕ) (message : Message) :
    Call (RendezvousIpc THREADS ENDPOINTS) IpcError IpcOutcome := do
  match ← beginSend true caller endpoint with
  | some receiver =>
      writeThread receiver fun t => { t with inbox := some message }
      -- whatever the receiver's target was before
      writeThread receiver fun t => { t with replyTarget := some caller }
      writeThread receiver fun t => { t with state := .runnable }
      writeThread caller fun t => { t with state := .replyBlocked receiver }
      return .delivered receiver
  | none => parkSender caller endpoint message

/-- Take the message of the first waiting sender, who goes on or waits for the reply, or wait
for a sender. -/
def receive (receiver : ThreadId) (endpoint : ℕ) :
    Call (RendezvousIpc THREADS ENDPOINTS) IpcError IpcOutcome := do
  Call.reads (ensureRunnable receiver)
  match ← withSenders endpoint Queue.pop with
  | some sender =>
      let parked ← readThread sender
      if parked.isCall then
        writeThread sender fun t => { t with state := .replyBlocked receiver }
        writeThread receiver fun t => { t with replyTarget := some sender }
      else
        writeThread sender fun t => { t with state := .runnable }
      writeThread receiver fun t => { t with inbox := some parked.outgoing }
      return .delivered sender
  | none =>
      writeThread receiver fun t => { t with state := .receiving endpoint }
      withReceivers endpoint (Queue.push receiver)
      return .blocked

/-- Answer the call received last, if its sender still waits for this server. -/
def reply (server : ThreadId) (message : Message) :
    Call (RendezvousIpc THREADS ENDPOINTS) IpcError IpcOutcome := do
  Call.reads (ensureRunnable server)
  let self ← Call.reads (getThread server)
  -- `take()`: the target is gone even when the checks below fail
  writeThread server fun t => { t with replyTarget := none }
  match self.replyTarget with
  | none => Call.throw .noReplyTarget
  | some client =>
      let blocked ← readThread client
      if blocked.state ≠ .replyBlocked server then
        Call.throw .noReplyTarget
      else
        writeThread client fun t => { t with inbox := some message }
        writeThread client fun t => { t with state := .runnable }
        return .delivered client

/-- Empty the inbox.  It may be asked for any thread, in any state. -/
def takeMessage (thread : ThreadId) (ipc : RendezvousIpc THREADS ENDPOINTS) :
    Option Message × RendezvousIpc THREADS ENDPOINTS :=
  if h : thread < THREADS then
    (ipc.threads[thread].inbox,
      { ipc with threads := ipc.threads.set thread { ipc.threads[thread] with inbox := none } })
  else (none, ipc)

def state (thread : ThreadId) (ipc : RendezvousIpc THREADS ENDPOINTS) : Option ThreadState :=
  ipc.threads[thread]?.map Thread.state

/-- The message in a thread's inbox. -/
def inbox (thread : ThreadId) (ipc : RendezvousIpc THREADS ENDPOINTS) : Option Message :=
  ipc.threads[thread]?.bind Thread.inbox

/-- The thread that a thread may answer. -/
def replyTarget (thread : ThreadId) (ipc : RendezvousIpc THREADS ENDPOINTS) :
    Option ThreadId :=
  ipc.threads[thread]?.bind Thread.replyTarget

end RendezvousIpc

/-! ## The kernel object as a machine -/

/-- The public operations, with arbitrary arguments. -/
inductive IpcOp
  | send (sender : ThreadId) (endpoint : ℕ) (message : Message)
  | call (caller : ThreadId) (endpoint : ℕ) (message : Message)
  | receive (receiver : ThreadId) (endpoint : ℕ)
  | reply (server : ThreadId) (message : Message)
  | takeMessage (thread : ThreadId)
  | state (thread : ThreadId)
  deriving DecidableEq, Repr

/-- What the operations return. -/
inductive IpcResult
  | outcome (outcome : Except IpcError IpcOutcome)
  | message (message : Option Message)
  | state (state : Option ThreadState)
  deriving DecidableEq

/-- Rendezvous IPC, driven by its public operations from `new()`. -/
def ipcMachine (THREADS ENDPOINTS : ℕ) :
    Machine (RendezvousIpc THREADS ENDPOINTS) IpcOp IpcResult where
  init := RendezvousIpc.new
  step ipc op :=
    match op with
    | .send sender endpoint message =>
        (RendezvousIpc.send sender endpoint message ipc).map (Prod.map .outcome id)
    | .call caller endpoint message =>
        (RendezvousIpc.call caller endpoint message ipc).map (Prod.map .outcome id)
    | .receive receiver endpoint =>
        (RendezvousIpc.receive receiver endpoint ipc).map (Prod.map .outcome id)
    | .reply server message =>
        (RendezvousIpc.reply server message ipc).map (Prod.map .outcome id)
    | .takeMessage thread => some (Prod.map .message id (ipc.takeMessage thread))
    | .state thread => some (.state (ipc.state thread), ipc)

abbrev IpcEvent (THREADS ENDPOINTS : ℕ) :=
  Event (RendezvousIpc THREADS ENDPOINTS) IpcOp IpcResult

end Aegis.Ipc
