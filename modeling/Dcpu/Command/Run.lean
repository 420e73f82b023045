import Dcpu.Codegen.Program
import Dcpu.Command.Files
import Dcpu.Command.Options
import Dcpu.Machine.Step
import Dcpu.Settings.Document

/-! # The command

The command compiles one source file. It prints the listing or writes it to a file, and may run it
and show the outcome.
-/

namespace Dcpu.Command

/-- What a command leaves: its exit code and the lines of its two outputs. -/
structure Outcome where
  exitCode : UInt32
  out : String
  err : String
deriving DecidableEq, Repr

/-- The text of lines, each with its line feed. -/
def linesText (lines : List String) : String :=
  String.join (lines.map (· ++ "\n"))

def screenSize : Nat := 0x180

/-- The lines that show how a run ended. -/
def reportLines (screen : Word) (machine : Machine) : List String :=
  let cells := (machine.memory.row screen screenSize).zipIdx.filter (·.1 ≠ 0)
  s!"halted after {machine.steps} steps" :: s!"a = {(machine.register .a).toNat}" ::
    cells.map fun (word, offset) => s!"screen[{offset}] = {word.hex}"

def runListing (listing : Listing) (limit : Nat) : Except MachineError Machine := do
  let image ← Image.load listing
  match image.run limit .start with
  | .ok _ machine => return machine
  | .error error _ => throw error

/-- A step of the command: it writes to the two outputs, and a failure ends the command. -/
abbrev Task (m : Type → Type) := ExceptT Unit (StateT (Array String × Array String) m)

section

variable {m : Type → Type} [Monad m]

def say (line : String) : Task m Unit :=
  modify fun (out, err) => (out.push line, err)

def warn (line : String) : Task m Unit :=
  modify fun (out, err) => (out, err.push line)

/-- End the command with a line to the output for errors. -/
def fail {α : Type} (line : String) : Task m α := do
  warn line
  throw ()

/-- The settings of a configuration file, or the defaults. -/
def loadSettings (files : Files m) : Option String → Task m Settings
  | none => return {}
  | some path => do
    match ← files.readText path with
    | .error error => fail s!"Compilation error: {(CompileError.file path error.message).message}"
    | .ok text =>
      match Settings.ofText text with
      | .error error => fail s!"Compilation error: {(CompileError.settings error).message}"
      | .ok settings => return settings

/-- Write a listing to its file, or print it unless only its run is asked for. -/
def deliver (files : Files m) (options : Options) (listing : Listing) : Task m Unit := do
  match options.output with
  | none => unless options.run do say listing.text
  | some path =>
    match ← files.write path (listing.text ++ "\n").toUTF8 with
    | .error error => fail s!"Error writing '{path}': {error.message}"
    | .ok () =>
      if options.verbose then warn s!"Wrote {listing.length} lines to {path}"

/-- Compile the input file and do with its listing what the options ask for. -/
def process (files : Files m) (options : Options) : Task m Unit := do
  let settings ← loadSettings files options.config
  let target := options.output.getD "<stdout>"
  if options.verbose then warn s!"Compiling {options.input} -> {target}"
  match ← files.readText options.input with
  | .error error => fail s!"Error reading '{options.input}': {error.message}"
  | .ok source =>
    match (compile settings source).result with
    | .error error => fail s!"Compilation error: {error.message}"
    | .ok listing =>
      deliver files options listing
      if options.run then
        match runListing listing options.limit with
        | .error error => fail s!"Machine error: {error.message}"
        | .ok machine => (reportLines settings.screen machine).forM say

def Task.outcome (task : Task m Unit) : m Outcome := do
  let (result, out, err) ← (task.run).run (#[], #[])
  let exitCode := match result with
    | .ok _ => 0
    | .error _ => 1
  return ⟨exitCode, linesText out.toList, linesText err.toList⟩

/-- Run the command with its arguments, given the name it was called by. -/
def run (files : Files m) (program : String) (arguments : List String) : m Outcome :=
  match Options.ofArguments arguments with
  | .error refusal =>
    return ⟨refusal.exitCode, if refusal.showsUsage then linesText (usage program) else "",
      linesText refusal.message?.toList⟩
  | .ok options => (process files options).outcome

end

end Dcpu.Command
