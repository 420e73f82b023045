import Dcpu.Listing.Basic

/-! # Loaded programs

A listing is loaded by numbering its instructions from zero. Each label stands for the number of the
instruction behind it. Labels are defined once, and every label used is defined.
-/

namespace Dcpu

/-- Why the machine refuses a program or cannot go on. -/
inductive MachineError where
  | listing (error : ListingError)
  | duplicateLabel (name : String)
  | unknownLabel (name : String)
  | stepLimit (limit pc : Nat)
  | underflow (pc : Nat)
  | pushRead
  | popWritten
deriving DecidableEq, Repr

def MachineError.message : MachineError → String
  | listing error => error.message
  | duplicateLabel name => s!"Duplicate label '{name}'"
  | unknownLabel name => s!"Unknown label '{name}'"
  | stepLimit limit pc => s!"Step limit of {limit} exceeded at instruction {pc}"
  | underflow pc => s!"Stack underflow at instruction {pc}"
  | pushRead => "PUSH cannot be read"
  | popWritten => "POP cannot be written"

/-- A loaded program: its instructions, and for each label the number it stands for. -/
structure Image where
  instructions : Array Instruction
  labels : List (String × Nat)
deriving DecidableEq, Repr

namespace Instruction

/-- The operands of an instruction, the destination first. -/
def operands : Instruction → List Operand
  | basic _ b a => [b, a]
  | jsr target => [target]

def isConditional : Instruction → Bool
  | basic op _ _ => op.isConditional
  | jsr _ => false

end Instruction

def Operand.label? : Operand → Option String
  | .label name => some name
  | _ => none

namespace Image

def empty : Image := ⟨#[], []⟩

/-- The number that a label stands for. -/
def labelIndex? (image : Image) (name : String) : Option Nat :=
  image.labels.lookup name

def addLine (image : Image) : Line → Except MachineError Image
  | .label name =>
    if (image.labelIndex? name).isSome then .error (.duplicateLabel name)
    else .ok { image with labels := (name, image.instructions.size) :: image.labels }
  | .instruction body => .ok { image with instructions := image.instructions.push body }

/-- The first label that is used but not defined. -/
def undefined? (image : Image) : Option String :=
  image.instructions.toList.findSome? fun instruction =>
    (instruction.operands.filterMap Operand.label?).find? fun name =>
      (image.labelIndex? name).isNone

def load (listing : Listing) : Except MachineError Image := do
  let image ← listing.foldlM addLine empty
  match image.undefined? with
  | some name => throw (.unknownLabel name)
  | none => return image

/-- Read a listing from a text and load it. -/
def assemble (text : String) : Except MachineError Image := do
  load (← (Listing.read text).mapError .listing)

end Image

end Dcpu
