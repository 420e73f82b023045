import Dcpu.Slots.Error
import Dcpu.Word

/-! # Slots for variables

Variables and intermediate results live at fixed addresses of one range, the lowest free one being
taken first. Scopes form a tree. A name belongs to the scope that first asks for it when none of the
scopes around it has the name; closing a scope gives its names and their addresses back.

A variable is listed in the tables of the program's own scope and in those of the scope it was made
for. Looking a name up goes outwards through the tables of one scope after another, and the program's
own table of addresses tells which addresses are given back.
-/

namespace Dcpu

/-- A variable: a name bound to an address for a scope. Variables are numbered in the order of their
making. -/
structure Binding where
  number : Nat
  name : String
  address : Word
  origin : ScopeId
deriving DecidableEq, Repr

/-- The tables of a scope: the scopes around it from the nearest outwards, and the numbers of the
variables listed in it, by address and by name. An address has one entry, a name may have several
in the order of listing. -/
structure Scope where
  outer : List ScopeId
  byAddress : List (Word × Nat)
  byName : List (String × Nat)
deriving DecidableEq, Repr

namespace Scope

def empty (outer : List ScopeId) : Scope := ⟨outer, [], []⟩

/-- List a variable; it takes the entry of its address over. -/
def enter (scope : Scope) (binding : Binding) : Scope where
  outer := scope.outer
  byAddress := (binding.address, binding.number) ::
    scope.byAddress.filter (·.1 != binding.address)
  byName := scope.byName ++ [(binding.name, binding.number)]

/-- Whether the entry of its address is that of the variable. -/
def holds (scope : Scope) (binding : Binding) : Bool :=
  scope.byAddress.lookup binding.address == some binding.number

/-- Strike a variable out; an entry of its address for another variable stays. -/
def strike (scope : Scope) (binding : Binding) : Scope where
  outer := scope.outer
  byAddress :=
    if scope.holds binding then scope.byAddress.filter (·.1 != binding.address)
    else scope.byAddress
  byName := scope.byName.filter (· != (binding.name, binding.number))

end Scope

/-- The allocator: its range and the address of the screen, the tables of each opened scope, all
variables ever made, and the addresses in use in ascending order. -/
structure Slots where
  first : Word
  last : Word
  screen : Word
  scopes : Array Scope
  made : Array Binding
  occupied : List Word
deriving DecidableEq, Repr

/-- Steps of the allocator; a refusal keeps the allocator as it was met. -/
abbrev Alloc := EStateM SlotError Slots

namespace Slots

/-- An allocator with every address of its range free and only the program's own scope. -/
def new (first last screen : Word) : Slots where
  first
  last
  screen
  scopes := #[.empty []]
  made := #[]
  occupied := []

/-- The lowest number from `start` on that is not among ascending addresses. -/
def firstGap (start : Nat) : List Word → Nat
  | [] => start
  | address :: above => if address.toNat = start then firstGap (start + 1) above else start

/-- Put an address among ascending addresses. -/
def insertAscending (address : Word) : List Word → List Word
  | [] => [address]
  | other :: above =>
    if address < other then address :: other :: above
    else other :: insertAscending address above

/-- The lowest free address of the range. -/
def free? (slots : Slots) : Option Word :=
  let gap := firstGap slots.first.toNat slots.occupied
  if gap ≤ slots.last.toNat then some (UInt16.ofNat gap) else none

def occupy (slots : Slots) (address : Word) : Slots :=
  { slots with occupied := insertAscending address slots.occupied }

/-- Give an address back; one that is not in use stays free. -/
def release (slots : Slots) (address : Word) : Slots :=
  { slots with occupied := slots.occupied.erase address }

def acquire : Alloc Word := do
  match (← get).free? with
  | none => throw .memoryExhausted
  | some address =>
    modify (·.occupy address)
    return address

/-- The tables of a scope, if it was opened. -/
def tables (scope : ScopeId) : Alloc Scope := do
  match (← get).scopes[scope]? with
  | none => throw (.unknownScope scope)
  | some tables => return tables

def openChild (parent : ScopeId) : Alloc ScopeId := do
  let around ← tables parent
  let scope := (← get).scopes.size
  modify fun slots =>
    { slots with scopes := slots.scopes.push (.empty (parent :: around.outer)) }
  return scope

/-- The variables that a scope lists under a name, in the order of listing. -/
def named (slots : Slots) (scope : ScopeId) (name : String) : List Binding :=
  match slots.scopes[scope]? with
  | none => []
  | some tables => tables.byName.filterMap fun (listed, number) =>
      if listed = name then slots.made[number]? else none

/-- What the tables of a scope answer to a request of another: the variable of the requesting scope
or else one of the scope's own. -/
def candidate? (slots : Slots) (name : String) (scope origin : ScopeId) : Option Binding :=
  let candidates := slots.named scope name
  (candidates.find? (·.origin = origin)).or (candidates.reverse.find? (·.origin = scope))

def enter (slots : Slots) (scope : ScopeId) (binding : Binding) : Slots :=
  { slots with scopes := slots.scopes.modify scope (·.enter binding) }

/-- Make a variable at an address and list it in the tables of a scope. -/
def bind (slots : Slots) (scope : ScopeId) (binding : Binding) : Slots :=
  { slots with made := slots.made.push binding }.enter scope binding

/-- Find the variable of a name for a requesting scope, or make it, going outwards through the
tables of a scope and of those around it. On the way back the variable is listed in the scope that
it was made for. -/
def resolveFrom (name : String) (origin : ScopeId) : ScopeId → List ScopeId → Alloc Binding
  | scope, [] => do
    match (← get).candidate? name scope origin with
    | some binding => return binding
    | none =>
      let address ← acquire
      let binding := ⟨(← get).made.size, name, address, origin⟩
      modify (·.bind scope binding)
      return binding
  | scope, parent :: outer => do
    match (← get).candidate? name scope origin with
    | some binding => return binding
    | none =>
      let binding ← resolveFrom name origin parent outer
      if binding.origin = scope then modify (·.enter scope binding)
      return binding

def resolve (name : String) (scope : ScopeId) : Alloc Binding := do
  let tables ← tables scope
  resolveFrom name scope scope tables.outer

/-- Strike a variable out of the tables of a scope. An address that the program's own scope strikes
out is given back. -/
def strike (slots : Slots) (scope : ScopeId) (binding : Binding) : Slots :=
  match slots.scopes[scope]? with
  | none => slots
  | some tables =>
    let struck := { slots with scopes := slots.scopes.modify scope (·.strike binding) }
    if tables.holds binding && tables.outer.isEmpty then struck.release binding.address else struck

def listed (slots : Slots) (tables : Scope) : List Binding :=
  tables.byName.filterMap fun (_, number) => slots.made[number]?

def clear (slots : Slots) (scope : ScopeId) : Slots :=
  { slots with scopes := slots.scopes.modify scope (.empty ·.outer) }

/-- Close a scope: its variables are struck out of the tables of all scopes around it, and its own
tables are emptied. The scope may be used again afterwards. -/
def close (scope : ScopeId) : Alloc Unit := do
  let tables ← tables scope
  if tables.outer = [] then throw .rootClosed
  modify fun slots =>
    ((slots.listed tables).foldl
      (fun slots binding => tables.outer.foldl (·.strike · binding) slots) slots).clear scope

def occupiedCount (slots : Slots) : Nat :=
  slots.occupied.length

def isOccupied (slots : Slots) (address : Word) : Bool :=
  slots.occupied.contains address

/-- The name of the screen, in which the case of ASCII letters is free. -/
def isScreen (name : String) : Bool :=
  name.toList.map Char.toLower == "screen".toList

/-- The fixed address of a reserved name. -/
def special? (slots : Slots) (name : String) : Option Word :=
  if isScreen name then some slots.screen else none

end Slots

end Dcpu
