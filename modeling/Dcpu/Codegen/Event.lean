import Dcpu.CompileError
import Dcpu.Listing.Basic
import Dcpu.Report
import Dcpu.Text.Quoted

/-! # What a compilation does

A compilation leaves a trail of events: the lines it emits and, between them, what happens to slots,
scopes and routines. The listing is the emitted lines of the trail.
-/

namespace Dcpu

open Source

inductive Event where
  | scanned (tokens : Nat)
  | parsed (statements : Nat)
  | accepted (statements : Nat)
  | redefined (name : String) (position : Position)
  | registered (routines : List String)
  | routine (name : String) (position : Position)
  | connective (op : LogicalOp) (operands : Nat) (tag : String)
  | callWhileHolding (name : String) (position : Position) (held : Nat)
  | opened (scope parent : ScopeId)
  | closed (scope : ScopeId)
  | acquired (address : Word)
  | released (address : Word)
  | bound (name : String) (address : Word) (origin : ScopeId)
  | emitted (line : Line)
  | haltAppended
  | finished (lines slots : Nat)
deriving DecidableEq, Repr

namespace Event

/-- How fine a detail an event is. -/
def level : Event → Level
  | redefined .. | callWhileHolding .. => .warn
  | accepted .. | finished .. => .info
  | opened .. | closed .. | acquired .. | released .. | emitted .. => .trace
  | scanned .. | parsed .. | registered .. | routine .. | connective .. | bound ..
  | haltAppended => .debug

def message : Event → String
  | scanned tokens => s!"lexed {tokens} tokens"
  | parsed statements => s!"parsed {statements} top-level statements"
  | accepted statements => s!"parsed {statements} top-level statements"
  | redefined name position => s!"routine '{name}' redefined at {position.text}"
  | registered routines =>
    s!"registered {routines.length} routines: {Text.quotedList routines}"
  | routine name position => s!"lowering routine '{name}' at {position.text}"
  | connective op operands tag => s!"{op.title} over {operands} operands as {tag}"
  | callWhileHolding name position held =>
    s!"call to '{name}' at {position.text} while {held} scratch slot(s) are live; " ++
      "the routine may overwrite them"
  | opened scope parent => s!"opened {scopeText scope} under {scopeText parent}"
  | closed scope => s!"closed {scopeText scope}"
  | acquired address => s!"scratch {address.hex} acquired"
  | released address => s!"scratch {address.hex} released"
  | bound name address origin => s!"bound '{name}' to {address.hex} for {scopeText origin}"
  | emitted line => s!"emit {line.text}"
  | haltAppended => "no 'end' routine defined; appending halt loop"
  | finished lines slots => s!"emitted {lines} lines, {slots} slots still bound"

def record (event : Event) : Record :=
  ⟨event.level, event.message⟩

def line? : Event → Option Line
  | emitted line => some line
  | _ => none

end Event

end Dcpu
