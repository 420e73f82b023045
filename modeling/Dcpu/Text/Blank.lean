import Dcpu.Text.Ranges

/-! # Blank characters

Blanks are the code points with the Unicode property `White_Space`. They separate tokens and
operands, and trimming removes them from both ends of a text.
-/

namespace Dcpu.Text

def blankRanges : Ranges :=
  [(0x9, 0xd), (0x20, 0x20), (0x85, 0x85), (0xa0, 0xa0), (0x1680, 0x1680), (0x2000, 0x200a),
   (0x2028, 0x2029), (0x202f, 0x202f), (0x205f, 0x205f), (0x3000, 0x3000)]

/-- A character of the property `White_Space`. -/
def isBlank (c : Char) : Bool :=
  blankRanges.covers c

def trimRight (text : List Char) : List Char :=
  (text.reverse.dropWhile isBlank).reverse

def trim (text : List Char) : List Char :=
  trimRight (text.dropWhile isBlank)

end Dcpu.Text
