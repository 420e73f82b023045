import Dcpu.Codegen.Event
import Dcpu.Slots.Basic
import Dcpu.Tag

/-! # Emitting code

The state of code generation and its steps. A failure keeps the state it was met in, so that slots
and scopes are given back and the trail stays whole on every way out.
-/

namespace Dcpu

open Source

/-- What lasts from one program to the next: the allocator and the counter of generated labels. -/
structure Context where
  slots : Slots
  tags : Nat
deriving DecidableEq, Repr

/-- The state of code generation: its context, the number of slots held for intermediate results,
and the trail of events. -/
structure Emission where
  context : Context
  held : Nat
  trail : Array Event
deriving DecidableEq, Repr

/-- Steps of code generation. -/
abbrev Gen := EStateM CompileError Emission

namespace Gen

def record (event : Event) : Gen Unit :=
  modify fun state => { state with trail := state.trail.push event }

def emit (line : Line) : Gen Unit :=
  record (.emitted line)

def emitAll : List Line → Gen Unit
  | [] => pure ()
  | line :: lines => do
    emit line
    emitAll lines

/-- Draw the next tag of a stem. -/
def nextTag (stem : String) : Gen String := do
  let number := (← get).context.tags + 1
  modify fun state => { state with context := { state.context with tags := number } }
  return Tag.text stem number

def slots : Gen Slots :=
  return (← get).context.slots

/-- A step of the slot allocator, whose refusal is blamed on a position. -/
def onSlots {α : Type} (position : Position) (step : Alloc α) : Gen α := fun state =>
  match step state.context.slots with
  | .ok value slots => .ok value { state with context := { state.context with slots } }
  | .error error slots =>
    .error (.slots error position) { state with context := { state.context with slots } }

/-- Run one step and then another, whether or not the first fails; its failure comes first. -/
def always (body after : Gen Unit) : Gen Unit := fun state =>
  match body state with
  | .ok _ state => after state
  | .error error state =>
    match after state with
    | .ok _ state => .error error state
    | .error _ state => .error error state

/-- Take a slot for an intermediate result. -/
def acquire (position : Position) : Gen Word := do
  let address ← onSlots position Slots.acquire
  modify fun state => { state with held := state.held + 1 }
  record (.acquired address)
  return address

def release (address : Word) : Gen Unit := do
  modify fun state =>
    { state with
      context := { state.context with slots := state.context.slots.release address }
      held := state.held - 1 }
  record (.released address)

def withScratch (position : Position) (body : Word → Gen Unit) : Gen Unit := do
  let address ← acquire position
  always (body address) (release address)

def openScope (parent : ScopeId) (position : Position) : Gen ScopeId := do
  let scope ← onSlots position (Slots.openChild parent)
  record (.opened scope parent)
  return scope

def closeScope (scope : ScopeId) (position : Position) : Gen Unit := do
  onSlots position (Slots.close scope)
  record (.closed scope)

def inScope (parent : ScopeId) (position : Position) (body : ScopeId → Gen Unit) : Gen Unit := do
  let scope ← openScope parent position
  always (body scope) (closeScope scope position)

/-- The address of a name as seen from a scope: that of the screen, or of a variable. -/
def addressOf (name : String) (scope : ScopeId) (position : Position) : Gen Word := do
  let before ← slots
  match before.special? name with
  | some address => return address
  | none =>
    let binding ← onSlots position (Slots.resolve name scope)
    if binding.number = before.made.size then
      record (.bound name binding.address binding.origin)
    return binding.address

end Gen

end Dcpu
