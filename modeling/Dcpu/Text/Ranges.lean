/-! # Character classes

A class of characters is a table of code point ranges. The tables of the Unicode properties that
the source language and the listing format need have modules of their own.
-/

namespace Dcpu.Text

/-- A class of characters: inclusive ranges of code points, in ascending order. -/
def Ranges := List (Nat × Nat)

/-- Look a code point up, stopping at the first range that lies above it. -/
def Ranges.has (code : Nat) : Ranges → Bool
  | [] => false
  | (low, high) :: above => low ≤ code && (code ≤ high || has code above)

/-- A character belongs to the class when its code point lies in one of the ranges. -/
def Ranges.covers (ranges : Ranges) (c : Char) : Bool :=
  ranges.has c.toNat

end Dcpu.Text
