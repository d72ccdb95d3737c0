import Mathlib
import Aegis.Foundation.Call
import Aegis.Foundation.Machine

/-!
# The capability system

A translation of `capability.rs`.  User space names a slot of its own CSpace;
the slot holds a reference to a kernel-owned node, an index and a 16-bit
generation; and each node remembers the reference it was minted from.  Both
tables have a fixed size, so the model stores them as vectors.

Array accesses keep their three behaviours apart.  `.get(i)` is an optional
lookup whose failure the code turns into an error; indexing a checked position
is total here too; and the one access whose bounds the code does not check, the
node of a reference in the second loop of `revoke`, panics in the model when it
is out of bounds.  Task and slot numbers are natural numbers (`usize` arguments
of any value), node references and generations are `UInt16`, with the wrapping
conversion `index as u16` and the wrapping increment of the source.
-/

namespace Aegis.Capability

open Foundation

abbrev TaskId := ℕ

/-- The kernel objects a capability can name. -/
inductive Object
  | endpoint (id : UInt16)
  | frame (id : UInt32)
  | thread (id : TaskId)
  | irq (id : UInt16)
  | mmio (base : UInt64) (pages : UInt16)
  deriving DecidableEq, Repr

/-- A set of access rights, one bit each. -/
structure Rights where
  bits : UInt8
  deriving DecidableEq, Repr

namespace Rights

def NONE : Rights := ⟨0⟩

def READ : Rights := ⟨(1 : UInt8) <<< 0⟩

def WRITE : Rights := ⟨(1 : UInt8) <<< 1⟩

def GRANT : Rights := ⟨(1 : UInt8) <<< 2⟩

def CONTROL : Rights := ⟨(1 : UInt8) <<< 3⟩

def ALL : Rights := ⟨0x0f⟩

def union (self other : Rights) : Rights := ⟨self.bits ||| other.bits⟩

def contains (self requested : Rights) : Bool :=
  self.bits &&& requested.bits == requested.bits

end Rights

/-- A reference to a node: its index and the generation it had. -/
structure CapRef where
  node : UInt16
  generation : UInt16
  deriving DecidableEq, Repr

structure ResolvedCapability where
  object : Object
  rights : Rights
  deriving DecidableEq, Repr

inductive CapError
  | badTask
  | badSlot
  | emptySlot
  | destinationOccupied
  | outOfNodes
  | stale
  | permissionDenied
  deriving DecidableEq, Repr

/-- A node of the derivation tree. -/
structure Node where
  object : Object
  rights : Rights
  parent : Option CapRef
  generation : UInt16
  live : Bool
  deriving DecidableEq, Repr

def EMPTY_NODE : Node where
  object := .endpoint 0
  rights := Rights.NONE
  parent := none
  generation := 0
  live := false

/-- The node as `revoke` leaves it: dead, and one generation on (wrapping). -/
def Node.revoked (node : Node) : Node :=
  { node with live := false, generation := node.generation + 1 }

/-- The CSpaces of all tasks and the node table. -/
structure CapabilitySystem (TASKS SLOTS NODES : ℕ) where
  spaces : Vector (Vector (Option CapRef) SLOTS) TASKS
  nodes : Vector Node NODES
  deriving DecidableEq

namespace CapabilitySystem

variable {TASKS SLOTS NODES : ℕ}

def new : CapabilitySystem TASKS SLOTS NODES where
  spaces := Vector.replicate TASKS (Vector.replicate SLOTS none)
  nodes := Vector.replicate NODES EMPTY_NODE

/-! ## Lookups -/

def checkDestination (task : TaskId) (slot : ℕ)
    (caps : CapabilitySystem TASKS SLOTS NODES) : Except CapError Unit :=
  match caps.spaces[task]? with
  | none => .error .badTask
  | some space =>
      match space[slot]? with
      | none => .error .badSlot
      | some entry =>
          if entry.isSome then .error .destinationOccupied else .ok ()

def capAt (task : TaskId) (slot : ℕ)
    (caps : CapabilitySystem TASKS SLOTS NODES) : Except CapError CapRef :=
  match caps.spaces[task]? with
  | none => .error .badTask
  | some space =>
      match space[slot]? with
      | none => .error .badSlot
      | some none => .error .emptySlot
      | some (some cap) => .ok cap

def resolveRef (cap : CapRef) (caps : CapabilitySystem TASKS SLOTS NODES) :
    Except CapError ResolvedCapability :=
  match caps.nodes[cap.node.toNat]? with
  | none => .error .stale
  | some node =>
      if !node.live || node.generation != cap.generation then .error .stale
      else .ok ⟨node.object, node.rights⟩

def resolve (task : TaskId) (slot : ℕ) (required : Rights)
    (caps : CapabilitySystem TASKS SLOTS NODES) :
    Except CapError ResolvedCapability :=
  match caps.capAt task slot with
  | .error e => .error e
  | .ok cap =>
      match caps.resolveRef cap with
      | .error e => .error e
      | .ok resolved =>
          if !resolved.rights.contains required then .error .permissionDenied
          else .ok resolved

/-! ## Creation -/

/-- Take the first dead node of the table.  Its generation is kept: it was
advanced when the node died. -/
def allocate (object : Object) (rights : Rights) (parent : Option CapRef) :
    Call (CapabilitySystem TASKS SLOTS NODES) CapError CapRef := fun caps =>
  match (List.finRange NODES).find? fun index => !caps.nodes[index].live with
  | none => some (.error .outOfNodes, caps)
  | some index =>
      let node := caps.nodes[index]
      some (.ok ⟨UInt16.ofNat index, node.generation⟩,
        { caps with
          nodes := caps.nodes.set index { node with object, rights, parent, live := true } })

/-- The assignment `self.spaces[task][slot] = Some(cap)`. -/
def setSlot (task : TaskId) (slot : ℕ) (cap : CapRef) :
    Call (CapabilitySystem TASKS SLOTS NODES) CapError Unit :=
  Call.writes fun caps =>
    if ht : task < TASKS then
      if hs : slot < SLOTS then
        some { caps with spaces := caps.spaces.set task (caps.spaces[task].set slot (some cap)) }
      else none
    else none

def createRoot (owner : TaskId) (slot : ℕ) (object : Object) (rights : Rights) :
    Call (CapabilitySystem TASKS SLOTS NODES) CapError Unit := do
  Call.reads (checkDestination owner slot)
  let cap ← allocate object rights none
  setSlot owner slot cap

/-- Mint an attenuated child into another task. -/
def mint (sourceTask : TaskId) (sourceSlot : ℕ) (destinationTask : TaskId)
    (destinationSlot : ℕ) (rights : Rights) :
    Call (CapabilitySystem TASKS SLOTS NODES) CapError Unit := do
  Call.reads (checkDestination destinationTask destinationSlot)
  let parent ← Call.reads (capAt sourceTask sourceSlot)
  let resolved ← Call.reads (resolveRef parent)
  if !resolved.rights.contains Rights.GRANT || !resolved.rights.contains rights then
    Call.throw .permissionDenied
  else do
    let child ← allocate resolved.object rights (some parent)
    setSlot destinationTask destinationSlot child

/-! ## Revocation -/

/-- The parent walk of `is_descendant_or_self`, from the reference `current`
with `remaining = NODES - depth` hops left before the cut-off. -/
def walkToRoot (nodes : Vector Node NODES) (root : CapRef) :
    ℕ → Option CapRef → Bool
  | _, none => false
  | remaining, some cap =>
      if cap = root then true
      else
        match nodes[cap.node.toNat]? with
        | none => false
        | some node =>
            match remaining with
            | 0 => false
            | remaining + 1 => walkToRoot nodes root remaining node.parent

def isDescendantOrSelf (nodes : Vector Node NODES) (index : Fin NODES)
    (root : CapRef) : Bool :=
  walkToRoot nodes root NODES (some ⟨UInt16.ofNat index, nodes[index].generation⟩)

/-- One iteration of the first loop of `revoke`. -/
def revokeNode (root : CapRef) (acc : Vector Node NODES × ℕ) (index : Fin NODES) :
    Vector Node NODES × ℕ :=
  if acc.1[index].live && isDescendantOrSelf acc.1 index root then
    (acc.1.set index acc.1[index].revoked, acc.2 + 1)
  else acc

/-- The first loop of `revoke`: kill the subtree of `root` in the node table. -/
def revokeNodes (root : CapRef) :
    Call (CapabilitySystem TASKS SLOTS NODES) CapError ℕ := fun caps =>
  let acc := (List.finRange NODES).foldl (revokeNode root) (caps.nodes, 0)
  some (.ok acc.2, { caps with nodes := acc.1 })

/-- What the second loop of `revoke` does to one slot: a reference whose node is
dead or has moved on is dropped.  An out-of-bounds reference panics. -/
def sweepSlot (nodes : Vector Node NODES) : Option CapRef → Option (Option CapRef)
  | none => some none
  | some reference =>
      nodes[reference.node.toNat]?.map fun node =>
        if !node.live || node.generation != reference.generation then none
        else some reference

/-- The second loop of `revoke`. -/
def sweepSpaces : Call (CapabilitySystem TASKS SLOTS NODES) CapError Unit :=
  Call.writes fun caps =>
    (caps.spaces.mapM (Vector.mapM (sweepSlot caps.nodes))).map fun spaces =>
      { caps with spaces }

/-- Revoke a capability and every descendant minted from it. -/
def revoke (task : TaskId) (slot : ℕ) :
    Call (CapabilitySystem TASKS SLOTS NODES) CapError ℕ := do
  let root ← Call.reads (capAt task slot)
  let _ ← Call.reads (resolveRef root)
  let revoked ← revokeNodes root
  sweepSpaces
  return revoked

end CapabilitySystem

/-! ## The capability system as a machine -/

/-- The public operations, with arbitrary arguments. -/
inductive CapOp
  | createRoot (owner : TaskId) (slot : ℕ) (object : Object) (rights : Rights)
  | mint (sourceTask : TaskId) (sourceSlot : ℕ) (destinationTask : TaskId)
      (destinationSlot : ℕ) (rights : Rights)
  | resolve (task : TaskId) (slot : ℕ) (required : Rights)
  | revoke (task : TaskId) (slot : ℕ)
  deriving DecidableEq, Repr

/-- The values successful operations return. -/
inductive CapValue
  | unit
  | resolved (capability : ResolvedCapability)
  | revoked (count : ℕ)
  deriving DecidableEq, Repr

abbrev CapResult := Except CapError CapValue

/-- One call on the capability system. -/
def capCall {TASKS SLOTS NODES : ℕ} :
    CapOp → Call (CapabilitySystem TASKS SLOTS NODES) CapError CapValue
  | .createRoot owner slot object rights =>
      (CapabilitySystem.createRoot owner slot object rights).map fun _ => .unit
  | .mint sourceTask sourceSlot destinationTask destinationSlot rights =>
      (CapabilitySystem.mint sourceTask sourceSlot destinationTask destinationSlot
        rights).map fun _ => .unit
  | .resolve task slot required =>
      (Call.reads (CapabilitySystem.resolve task slot required)).map .resolved
  | .revoke task slot => (CapabilitySystem.revoke task slot).map .revoked

/-- The capability system, driven by its public operations from `new()`. -/
def capMachine (TASKS SLOTS NODES : ℕ) :
    Machine (CapabilitySystem TASKS SLOTS NODES) CapOp CapResult where
  init := CapabilitySystem.new
  step caps op := capCall op caps

abbrev CapEvent (TASKS SLOTS NODES : ℕ) :=
  Event (CapabilitySystem TASKS SLOTS NODES) CapOp CapResult

end Aegis.Capability
