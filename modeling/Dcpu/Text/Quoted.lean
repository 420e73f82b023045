import Dcpu.Text.Blank
import Dcpu.Text.Combining
import Dcpu.Text.Ignorable

/-! # Quoted texts

A text is quoted for messages between double quotes. Quotes and backslashes are escaped, and so are
the characters without a visible form: blanks other than the space, controls, combining marks and
ignorable characters.
-/

namespace Dcpu.Text

/-- The code point of a character between braces, in hexadecimal. -/
def codePointEscape (c : Char) : List Char :=
  ['\\', 'u', '\x7b'] ++ Nat.toDigits 16 c.toNat ++ ['\x7d']

def isControl (c : Char) : Bool :=
  c.toNat < 0x20 || (0x7f ≤ c.toNat && c.toNat < 0xa0)

/-- A character without a visible form; the space counts as one. -/
def isInvisible (c : Char) : Bool :=
  isBlank c || isControl c || isCombining c || isIgnorable c

/-- How a character stands in a quoted text. -/
def quotedChar (c : Char) : List Char :=
  if c = '\x00' then ['\\', '0']
  else if c = '\t' then ['\\', 't']
  else if c = '\n' then ['\\', 'n']
  else if c = '\r' then ['\\', 'r']
  else if c = '"' then ['\\', '"']
  else if c = '\\' then ['\\', '\\']
  else if c = ' ' then [c]
  else if isInvisible c then codePointEscape c
  else [c]

/-- A text between double quotes. -/
def quoted (text : String) : String :=
  String.ofList (['"'] ++ text.toList.flatMap quotedChar ++ ['"'])

def quotedList (texts : List String) : String :=
  "[" ++ String.intercalate ", " (texts.map quoted) ++ "]"

end Dcpu.Text
