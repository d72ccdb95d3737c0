import Mathlib
import Aegis.Capability.Model

/-!
# Capability-authorized system calls

A translation of `syscall.rs`: decoding of system call numbers, and the typed
authorization checks that resolve a slot and insist on the kind of object found
there.
-/

namespace Aegis

open Capability

/-- The system calls, in the order of their numbers. -/
inductive Syscall
  | yield
  | send
  | receive
  | call
  | reply
  | mapFrame
  | mint
  | revoke
  deriving DecidableEq, Repr

/-- A number that is not a system call, a slot that does not resolve, or one that resolves to an
object of another kind. -/
inductive SyscallError
  | unknown
  | capability (error : CapError)
  | wrongObjectType
  deriving DecidableEq, Repr

/-- `Syscall::try_from` -/
def Syscall.tryFrom (value : UInt64) : Except SyscallError Syscall :=
  match value with
  | 0 => .ok .yield
  | 1 => .ok .send
  | 2 => .ok .receive
  | 3 => .ok .call
  | 4 => .ok .reply
  | 5 => .ok .mapFrame
  | 6 => .ok .mint
  | 7 => .ok .revoke
  | _ => .error .unknown

variable {TASKS SLOTS NODES : ℕ}

/-- Resolve a slot and view its object at the type the caller needs. -/
def authorize {α : Type} (view : Object → Option α)
    (capabilities : CapabilitySystem TASKS SLOTS NODES) (caller : TaskId) (slot : ℕ)
    (required : Rights) : Except SyscallError α :=
  match capabilities.resolve caller slot required with
  | .error e => .error (.capability e)
  | .ok resolved =>
      match view resolved.object with
      | some a => .ok a
      | none => .error .wrongObjectType

/-- The endpoint in a slot, if the caller has the rights to it. -/
def authorizeEndpoint (capabilities : CapabilitySystem TASKS SLOTS NODES) (caller : TaskId)
    (slot : ℕ) (required : Rights) : Except SyscallError UInt16 :=
  authorize (fun | .endpoint endpoint => some endpoint | _ => none)
    capabilities caller slot required

/-- The frame in a slot. -/
def authorizeFrame (capabilities : CapabilitySystem TASKS SLOTS NODES) (caller : TaskId)
    (slot : ℕ) (required : Rights) : Except SyscallError UInt32 :=
  authorize (fun | .frame frame => some frame | _ => none)
    capabilities caller slot required

/-- The device in a slot: its base address, and how many pages it has. -/
def authorizeMmio (capabilities : CapabilitySystem TASKS SLOTS NODES) (caller : TaskId)
    (slot : ℕ) (required : Rights) : Except SyscallError (UInt64 × UInt16) :=
  authorize (fun | .mmio base pages => some (base, pages) | _ => none)
    capabilities caller slot required

/-- An authorization that succeeds has resolved the slot to the object that the
view inverts. -/
theorem authorize_eq_ok {α : Type} {view : Object → Option α} {name : α → Object}
    (inverts : ∀ object a, view object = some a → object = name a)
    {capabilities : CapabilitySystem TASKS SLOTS NODES} {caller : TaskId} {slot : ℕ}
    {required : Rights} {a : α} (h : authorize view capabilities caller slot required = .ok a) :
    ∃ resolved, capabilities.resolve caller slot required = .ok resolved ∧
      resolved.object = name a := by
  unfold authorize at h
  cases hres : capabilities.resolve caller slot required with
  | error e =>
      rw [hres] at h
      cases h
  | ok resolved =>
      rw [hres] at h
      cases hview : view resolved.object with
      | none =>
          simp only [hview] at h
          cases h
      | some b =>
          simp only [hview, Except.ok.injEq] at h
          exact ⟨resolved, rfl, inverts _ _ (h ▸ hview)⟩

section

variable {capabilities : CapabilitySystem TASKS SLOTS NODES} {caller : TaskId} {slot : ℕ}
  {required : Rights}

theorem authorizeEndpoint_eq_ok {endpoint : UInt16}
    (h : authorizeEndpoint capabilities caller slot required = .ok endpoint) :
    ∃ resolved, capabilities.resolve caller slot required = .ok resolved ∧
      resolved.object = .endpoint endpoint := by
  refine authorize_eq_ok (fun object a hview => ?_) h
  split at hview
  · cases hview
    rfl
  · cases hview

theorem authorizeFrame_eq_ok {frame : UInt32}
    (h : authorizeFrame capabilities caller slot required = .ok frame) :
    ∃ resolved, capabilities.resolve caller slot required = .ok resolved ∧
      resolved.object = .frame frame := by
  refine authorize_eq_ok (fun object a hview => ?_) h
  split at hview
  · cases hview
    rfl
  · cases hview

theorem authorizeMmio_eq_ok {base : UInt64} {pages : UInt16}
    (h : authorizeMmio capabilities caller slot required = .ok (base, pages)) :
    ∃ resolved, capabilities.resolve caller slot required = .ok resolved ∧
      resolved.object = .mmio base pages := by
  have inverts : ∀ (object : Object) (a : UInt64 × UInt16),
      (match object with
        | .mmio base pages => some (base, pages)
        | _ => none) = some a → object = .mmio a.1 a.2 := by
    intro object a hview
    split at hview
    · cases hview
      rfl
    · cases hview
  exact authorize_eq_ok inverts h

end

end Aegis
