import Dcpu.Text.Blank
import Dcpu.Text.Name
import Dcpu.Word

/-! # Operands

The operands of instructions, how they are written, and how a text is read as one. Reading is free
in blanks around an operand and in the case of ASCII letters of registers and stack operands.
-/

namespace Dcpu

open Text

/-- The registers: eight for general use, the program counter and the stack pointer. -/
inductive Register where
  | a
  | b
  | c
  | x
  | y
  | z
  | i
  | j
  | pc
  | sp
deriving DecidableEq, Repr, Inhabited

namespace Register

def text : Register → String
  | a => "a"
  | b => "b"
  | c => "c"
  | x => "x"
  | y => "y"
  | z => "z"
  | i => "i"
  | j => "j"
  | pc => "PC"
  | sp => "SP"

def all : List Register :=
  [a, b, c, x, y, z, i, j, pc, sp]

/-- The register of a name, in which the case of ASCII letters is free. -/
def ofName? (name : List Char) : Option Register :=
  all.find? fun register => register.text.toList.map Char.toLower == name.map Char.toLower

end Register

/-- Operands. A number is kept apart from an address used as a number because the two are written
differently. -/
inductive Operand where
  | register (r : Register)
  | indirect (r : Register)
  | memory (address : Word)
  | address (value : Word)
  | literal (value : Word)
  | label (name : String)
  | push
  | pop
deriving DecidableEq, Repr, Inhabited

def Operand.text : Operand → String
  | register r => r.text
  | indirect r => s!"[{r.text}]"
  | memory word => s!"[{word.hex}]"
  | address word => word.hex
  | literal value => toString value.toNat
  | label name => name
  | push => "PUSH"
  | pop => "POP"

inductive OperandError where
  | empty
  | memory (text : List Char)
  | hexadecimal (text : List Char)
  | tooLarge (text : List Char)
  | unrecognised (text : List Char)
deriving DecidableEq, Repr

def OperandError.message : OperandError → String
  | empty => "empty operand"
  | memory text => s!"unsupported memory operand '{String.ofList text}'"
  | hexadecimal text => s!"invalid hex literal '{String.ofList text}'"
  | tooLarge text => s!"literal '{String.ofList text}' does not fit in a word"
  | unrecognised text => s!"unrecognised operand '{String.ofList text}'"

namespace Operand

/-- What follows the mark of a hexadecimal number. -/
def hexBody? : List Char → Option (List Char)
  | '0' :: 'x' :: digits => some digits
  | '0' :: 'X' :: digits => some digits
  | _ => none

/-- The word written by a number, in hexadecimal behind a mark and in decimal without one. -/
def number? (text : List Char) : Option Word :=
  match hexBody? text with
  | some digits => word? 16 digits
  | none => word? 10 text

/-- What stands between brackets at the two ends of a text. -/
def bracketed? : List Char → Option (List Char)
  | '[' :: rest => if rest.getLast? = some ']' then some rest.dropLast else none
  | _ => none

/-- The operand that brackets around a text make: a register or a number inside, blanks free. -/
def readInside? (inner : List Char) : Option Operand :=
  match Register.ofName? inner with
  | some r => some (.indirect r)
  | none => (number? inner).map .memory

/-- The stack operand of a name, in which the case of ASCII letters is free. -/
def stackOperand? (text : List Char) : Option Operand :=
  if text.map Char.toUpper = ['P', 'U', 'S', 'H'] then some .push
  else if text.map Char.toUpper = ['P', 'O', 'P'] then some .pop
  else none

/-- Read an operand from a text without blanks around it. -/
def readTrimmed (text : List Char) : Except OperandError Operand :=
  if text.isEmpty then .error .empty
  else if let some inner := bracketed? text then
    (readInside? (trim inner)).elim (.error (.memory text)) .ok
  else if let some r := Register.ofName? text then .ok (.register r)
  else if let some operand := stackOperand? text then .ok operand
  else if (hexBody? text).isSome then
    ((number? text).map Operand.address).elim (.error (.hexadecimal text)) .ok
  else if text.all (isDigit 10) then
    ((word? 10 text).map Operand.literal).elim (.error (.tooLarge text)) .ok
  else if text.all isNamePart then .ok (.label (String.ofList text))
  else .error (.unrecognised text)

def read (text : List Char) : Except OperandError Operand :=
  readTrimmed (trim text)

end Operand

end Dcpu
