/-! # Why slots are refused -/

namespace Dcpu

/-- A scope, by its number in the order of opening; the program's own scope is number zero. -/
abbrev ScopeId := Nat

def scopeText (scope : ScopeId) : String :=
  s!"scope#{scope}"

/-- Why the slot allocator refuses a request. -/
inductive SlotError where
  | memoryExhausted
  | rootClosed
  | unknownScope (scope : ScopeId)
deriving DecidableEq, Repr

def SlotError.message : SlotError → String
  | memoryExhausted => "memory exhausted"
  | rootClosed => "the program scope cannot be closed"
  | unknownScope scope => s!"{scopeText scope} is not an open scope"

end Dcpu
