import Dcpu.Text.Alphabetic
import Dcpu.Text.Numeric

/-! # Characters of names

Names are made of alphabetic and numeric characters and underscores.
-/

namespace Dcpu.Text

/-- A character that is alphabetic or numeric. -/
def isAlphanumeric (c : Char) : Bool :=
  isAlphabetic c || isNumeric c

/-- A character that may begin a name of the source language. -/
def isNameStart (c : Char) : Bool :=
  isAlphabetic c || c == '_'

/-- A character that may stand inside a name. -/
def isNamePart (c : Char) : Bool :=
  isAlphanumeric c || c == '_'

end Dcpu.Text
