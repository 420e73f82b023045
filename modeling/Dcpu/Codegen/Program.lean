import Dcpu.Codegen.Routine
import Dcpu.Codegen.Statement
import Dcpu.Source.Scan
import Dcpu.Source.Statement

/-! # Compiling programs -/

namespace Dcpu

open Source Gen

/-- What comes of a compilation: a listing or an error, what lasts for further programs, and the
trail of events. -/
structure Compilation where
  result : Except CompileError Listing
  context : Context
  trail : Array Event

/-- The code of a program in a context: its statements, and a halt loop if one is asked for and the
program has no routine for its end. -/
def programCode (haltLoop : Bool) (program : Program) : Gen Unit := do
  let routines ← registerRoutines [] (definitionsIn program)
  record (.registered routines)
  blockCode routines 0 program
  if haltLoop && !routines.contains endLabel then
    record .haltAppended
    emit (.label endLabel)
    emit (.jump endLabel)

def listingOf (trail : Array Event) : Listing :=
  trail.toList.filterMap Event.line?

namespace Context

def new (settings : Settings) : Context where
  slots := .new settings.first settings.last settings.screen
  tags := 0

def compile (context : Context) (haltLoop : Bool) (program : Program) : Compilation :=
  match programCode haltLoop program { context, held := 0, trail := #[] } with
  | .ok _ state => ⟨.ok (listingOf state.trail), state.context, state.trail⟩
  | .error error state => ⟨.error error, state.context, state.trail⟩

end Context

/-- Compile a program under settings, which must be usable. -/
def compileProgram (settings : Settings) (program : Program) : Compilation :=
  match settings.validate with
  | .error error => ⟨.error (.settings error), .new settings, #[]⟩
  | .ok () =>
    let compilation := (Context.new settings).compile settings.haltLoop program
    match compilation.result with
    | .error _ => compilation
    | .ok listing =>
      { compilation with
        trail := compilation.trail.push
          (.finished listing.length compilation.context.slots.occupiedCount) }

/-- Read a program from a source text, with the events of reading. -/
def readSource (source : String) : Except CompileError Program × Array Event :=
  match scan source with
  | .error error => (.error error, #[])
  | .ok tokens =>
    let scanned := #[.scanned tokens.length]
    match Program.ofTokens tokens with
    | .error error => (.error error, scanned)
    | .ok program => (.ok program, scanned.push (.parsed program.length))

def compile (settings : Settings) (source : String) : Compilation :=
  match readSource source with
  | (.error error, trail) => ⟨.error error, .new settings, trail⟩
  | (.ok program, trail) =>
    let compilation := compileProgram settings program
    { compilation with
      trail := trail.push (.accepted program.length) ++ compilation.trail }

end Dcpu
