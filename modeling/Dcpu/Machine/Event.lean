import Dcpu.Machine.Step
import Dcpu.Report

/-! # What the machine does

The events of loading and running, told from the machine before and after each step.
-/

namespace Dcpu

inductive MachineEvent where
  | loaded (instructions labels : Nat)
  | executed (pc : Nat) (instruction : Instruction)
  | ranOff (pc : Nat)
  | haltLoop (pc : Nat)
  | finished (steps : Nat) (a : Word)
deriving DecidableEq, Repr

namespace MachineEvent

def level : MachineEvent → Level
  | loaded .. | finished .. => .debug
  | executed .. | ranOff .. | haltLoop .. => .trace

/-- A number with blanks before it, at least four places wide. -/
def padded (number : Nat) : String :=
  let digits := toString number
  String.ofList (List.replicate (4 - digits.length) ' ') ++ digits

def message : MachineEvent → String
  | loaded instructions labels => s!"loaded {instructions} instructions, {labels} labels"
  | executed pc instruction => s!"{padded pc}: {instruction.text}"
  | ranOff pc => s!"ran off the end at {pc}"
  | haltLoop pc => s!"halt loop at {pc}"
  | finished steps a => s!"halted after {steps} steps, a = {a.toNat}"

def record (event : MachineEvent) : Record :=
  ⟨event.level, event.message⟩

end MachineEvent

namespace Image

def loadEvent (image : Image) : MachineEvent :=
  .loaded image.instructions.size image.labels.length

/-- Whether a result leaves the machine halted without a failure. -/
def haltedBy (result : EStateM.Result MachineError Machine Unit) : Bool :=
  match result with
  | .ok _ machine => machine.halted
  | .error _ _ => false

/-- The events of one step of a machine. -/
def stepEvents (image : Image) (machine : Machine) : List MachineEvent :=
  if machine.halted then []
  else match image.instructions[machine.pc]? with
    | none => [.ranOff machine.pc]
    | some instruction =>
      .executed machine.pc instruction ::
        if haltedBy (image.step machine) then [.haltLoop machine.pc] else []

def haltEvent (machine : Machine) : MachineEvent :=
  .finished machine.steps (machine.register .a)

/-- The events of a run of a machine for at most the given number of instructions, behind events
that were before. -/
def runEvents (image : Image) : Nat → Machine → Array MachineEvent → Array MachineEvent
  | 0, machine, events => if machine.halted then events.push (haltEvent machine) else events
  | left + 1, machine, events =>
    if machine.halted then events.push (haltEvent machine)
    else
      let events := events ++ image.stepEvents machine
      match image.step machine with
      | .ok _ machine => image.runEvents left machine events
      | .error _ _ => events

end Image

end Dcpu
