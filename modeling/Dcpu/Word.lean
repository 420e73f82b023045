import Dcpu.Text.Numeral

/-! # Words

The machine and its programs compute on words of 16 bits. Addition, subtraction and multiplication
wrap around; a quotient or remainder by zero is zero, and so is a shift by the width or more.
-/

namespace Dcpu

/-- An unsigned number of 16 bits. -/
abbrev Word := UInt16

namespace Word

/-- The word of a number, if it is small enough. -/
def ofNat? (value : Nat) : Option Word :=
  if value < UInt16.size then some (UInt16.ofNat value) else none

/-- The remainder, which is zero for the divisor zero. -/
def remainder (dividend divisor : Word) : Word :=
  if divisor = 0 then 0 else dividend % divisor

/-- The bits moved up, zeros coming in below. -/
def shiftLeft (value amount : Word) : Word :=
  if amount < 16 then value <<< amount else 0

/-- The bits moved down, zeros coming in above. -/
def shiftRight (value amount : Word) : Word :=
  if amount < 16 then value >>> amount else 0

/-- The four hexadecimal digits of a word, in lower case. -/
def hexDigits (word : Word) : List Char :=
  [12, 8, 4, 0].map fun shift => Nat.digitChar ((word.toNat >>> shift) % 16)

/-- A word in hexadecimal, always with four digits: `0x002a`. -/
def hex (word : Word) : String :=
  String.ofList ('0' :: 'x' :: hexDigits word)

end Word

/-- The word written by a run of digits that may follow one plus sign. -/
def Text.word? (base : Nat) (text : List Char) : Option Word :=
  (Text.unsigned? base text).bind Word.ofNat?

end Dcpu
