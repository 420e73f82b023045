import Dcpu.Codegen.Event
import Dcpu.Slots.Basic

/-! # Sequences of slot requests

The requests to the allocator as data, with its replies and the events they leave.
-/

namespace Dcpu

inductive SlotRequest where
  | openChild (parent : ScopeId)
  | close (scope : ScopeId)
  | resolve (name : String) (scope : ScopeId)
  | acquire
  | release (address : Word)
deriving DecidableEq, Repr

/-- The reply to a request that is granted. -/
inductive SlotReply where
  | opened (scope parent : ScopeId)
  | closed (scope : ScopeId)
  | found (binding : Binding)
  | bound (binding : Binding)
  | acquired (address : Word)
  | released (address : Word)
deriving DecidableEq, Repr

/-- The events that a reply leaves. -/
def SlotReply.events : SlotReply → List Event
  | opened scope parent => [.opened scope parent]
  | closed scope => [.closed scope]
  | found _ => []
  | bound binding => [.bound binding.name binding.address binding.origin]
  | acquired address => [.acquired address]
  | released address => [.released address]

def SlotRequest.perform : SlotRequest → Alloc SlotReply
  | openChild parent => return .opened (← Slots.openChild parent) parent
  | close scope => do
    Slots.close scope
    return .closed scope
  | resolve name scope => do
    let before := (← get).made.size
    let binding ← Slots.resolve name scope
    return if binding.number = before then .bound binding else .found binding
  | acquire => return .acquired (← Slots.acquire)
  | release address => do
    modify (·.release address)
    return .released address

namespace Slots

def after (slots : Slots) (request : SlotRequest) : Slots :=
  match request.perform slots with
  | .ok _ slots => slots
  | .error _ slots => slots

def performAll (slots : Slots) (requests : List SlotRequest) : Slots :=
  requests.foldl after slots

end Slots

end Dcpu
