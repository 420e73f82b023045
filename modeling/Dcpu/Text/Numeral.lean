/-! # Unsigned numerals

Reading of unsigned numbers in a given base. Digits are ASCII; letters of either case stand for ten
and above. Leading zeros are free, and no separator is accepted.
-/

namespace Dcpu.Text

/-- The value of a single digit in the given base. -/
def digit? (base : Nat) (c : Char) : Option Nat :=
  let value :=
    if '0' ≤ c ∧ c ≤ '9' then c.toNat - '0'.toNat
    else if 'a' ≤ c ∧ c ≤ 'z' then c.toNat - 'a'.toNat + 10
    else if 'A' ≤ c ∧ c ≤ 'Z' then c.toNat - 'A'.toNat + 10
    else base
  if value < base then some value else none

def isDigit (base : Nat) (c : Char) : Bool :=
  (digit? base c).isSome

/-- The value of a nonempty run of digits, most significant first. -/
def digits? (base : Nat) (text : List Char) : Option Nat :=
  if text.isEmpty then none
  else text.foldlM (fun value c => (digit? base c).map (value * base + ·)) 0

/-- The value of a run of digits that may follow one plus sign. -/
def unsigned? (base : Nat) : List Char → Option Nat
  | '+' :: text => digits? base text
  | text => digits? base text

end Dcpu.Text
