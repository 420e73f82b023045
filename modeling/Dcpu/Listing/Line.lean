import Dcpu.Listing.Operand

/-! # Lines of a listing

A line is a label or an instruction. Two-operand instructions name their destination first. The
conditional ones skip the instruction after them when their test fails.
-/

namespace Dcpu

open Text

/-- The two-operand instructions. -/
inductive Opcode where
  | set
  | add
  | sub
  | mul
  | div
  | mod
  | and
  | bor
  | xor
  | shl
  | shr
  | ife
  | ifn
  | ifg
  | ifl
deriving DecidableEq, Repr, Inhabited

namespace Opcode

def mnemonic : Opcode → String
  | set => "set"
  | add => "add"
  | sub => "sub"
  | mul => "mul"
  | div => "div"
  | mod => "mod"
  | and => "and"
  | bor => "bor"
  | xor => "xor"
  | shl => "shl"
  | shr => "shr"
  | ife => "ife"
  | ifn => "ifn"
  | ifg => "ifg"
  | ifl => "ifl"

def all : List Opcode :=
  [set, add, sub, mul, div, mod, and, bor, xor, shl, shr, ife, ifn, ifg, ifl]

/-- The two-operand instruction of a name, in which the case of ASCII letters is free. -/
def ofMnemonic? (name : List Char) : Option Opcode :=
  all.find? fun opcode => opcode.mnemonic.toList == name.map Char.toLower

/-- Whether an instruction tests its operands and may skip the next instruction. -/
def isConditional : Opcode → Bool
  | ife | ifn | ifg | ifl => true
  | _ => false

end Opcode

/-- Instructions: on two operands, destination first, or a jump to a subroutine. -/
inductive Instruction where
  | basic (op : Opcode) (b a : Operand)
  | jsr (target : Operand)
deriving DecidableEq, Repr, Inhabited

def Instruction.text : Instruction → String
  | basic op b a => s!"{op.mnemonic} {b.text}, {a.text}"
  | jsr target => s!"jsr {target.text}"

inductive Line where
  | label (name : String)
  | instruction (body : Instruction)
deriving DecidableEq, Repr, Inhabited

namespace Line

def text : Line → String
  | label name => s!":{name}"
  | instruction body => body.text

def basic (op : Opcode) (b a : Operand) : Line :=
  .instruction (.basic op b a)

def set (b a : Operand) : Line :=
  basic .set b a

def jump (label : String) : Line :=
  set (.register .pc) (.label label)

def ret : Line :=
  set (.register .pc) .pop

def jsr (label : String) : Line :=
  .instruction (.jsr (.label label))

def label? : Line → Option String
  | label name => some name
  | instruction _ => none

def instruction? : Line → Option Instruction
  | label _ => none
  | instruction body => some body

end Line

inductive LineError where
  | emptyLabel
  | unknownMnemonic (mnemonic : List Char)
  | missingOperand (mnemonic : List Char)
  | operand (error : OperandError)
deriving DecidableEq, Repr

def LineError.message : LineError → String
  | emptyLabel => "empty label"
  | unknownMnemonic mnemonic => s!"unknown mnemonic '{String.ofList mnemonic}'"
  | missingOperand mnemonic => s!"'{String.ofList mnemonic}' needs two operands"
  | operand error => error.message

namespace Line

def readOperand (text : List Char) : Except LineError Operand :=
  (Operand.read text).mapError .operand

/-- Read an instruction from its mnemonic and the text of its operands. The first comma stands
between the two operands, of which the destination is read first. -/
def readInstruction (mnemonic operands : List Char) : Except LineError Instruction := do
  if mnemonic.map Char.toLower = ['j', 's', 'r'] then
    return .jsr (← readOperand operands)
  match Opcode.ofMnemonic? mnemonic with
  | none => throw (.unknownMnemonic mnemonic)
  | some op =>
    match operands.dropWhile (· != ',') with
    | [] => throw (.missingOperand mnemonic)
    | _ :: second =>
      let b ← readOperand (operands.takeWhile (· != ','))
      let a ← readOperand second
      return .basic op b a

/-- Read a line from a text without blanks around it: a label behind a colon, or an instruction
whose mnemonic ends at the first blank. -/
def readTrimmed : List Char → Except LineError Line
  | ':' :: name =>
    let name := trim name
    if name.isEmpty then .error .emptyLabel else .ok (.label (String.ofList name))
  | text => do
    let mnemonic := text.takeWhile (!isBlank ·)
    let operands := trim (text.dropWhile (!isBlank ·))
    return .instruction (← readInstruction mnemonic operands)

def read (text : List Char) : Except LineError Line :=
  readTrimmed (trim text)

end Line

end Dcpu
