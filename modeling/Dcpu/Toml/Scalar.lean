import Dcpu.Text.Numeral
import Dcpu.Toml.Value

/-! # Values without delimiters

Integers, numbers with a fraction or exponent, booleans and moments in time are read from a run of
letters, digits and the signs `+`, `-`, `_`, `.` and `:`. The whole run has to be of one of these
forms.
-/

namespace Dcpu.Toml

open Text

def isDecimal (c : Char) : Bool :=
  isDigit 10 c

/-- The digits of a run in which single underscores may stand between digits. -/
def separated? (base : Nat) : List Char → Option (List Char)
  | [] => none
  | [c] => if isDigit base c then some [c] else none
  | c :: '_' :: rest => if isDigit base c then (separated? base rest).map (c :: ·) else none
  | c :: rest => if isDigit base c then (separated? base rest).map (c :: ·) else none

/-- The digits of a decimal number without a sign; no zero stands before other digits. -/
def plain? (text : List Char) : Option (List Char) :=
  match separated? 10 text with
  | some ['0'] => some ['0']
  | some ('0' :: _) => none
  | digits => digits

/-- A sign before a number, which is negative behind a minus sign. -/
def signed : List Char → Bool × List Char
  | '+' :: text => (false, text)
  | '-' :: text => (true, text)
  | text => (false, text)

/-- The number of a run, by the mark of its base; only decimal numbers have a sign. -/
def number? : List Char → Option Int
  | '0' :: 'x' :: text => ((separated? 16 text).bind (digits? 16)).map Int.ofNat
  | '0' :: 'o' :: text => ((separated? 8 text).bind (digits? 8)).map Int.ofNat
  | '0' :: 'b' :: text => ((separated? 2 text).bind (digits? 2)).map Int.ofNat
  | text =>
    let (negative, text) := signed text
    ((plain? text).bind (digits? 10)).map fun value =>
      if negative then -Int.ofNat value else Int.ofNat value

/-- The integer of a run, which has to fit in 64 bits with a sign. -/
def integer? (text : List Char) : Option Int :=
  (number? text).filter fun number => -0x8000000000000000 ≤ number ∧ number < 0x8000000000000000

/-- The least number that rounds to infinity in double precision. -/
def infinityBound : Nat :=
  (1 <<< 1024) - (1 <<< 970)

/-- Whether `digits` times a power of ten rounds to infinity. The number of digits settles it except
near the bound. -/
def overflows (digits : List Char) (exponent : Int) : Bool :=
  let value := (digits? 10 digits).getD 0
  let places : Int := (toString value).length + exponent
  if value = 0 ∨ places < 309 then false
  else if 309 < places then true
  else if 0 ≤ exponent then infinityBound ≤ value * Nat.pow 10 exponent.toNat
  else infinityBound * Nat.pow 10 (-exponent).toNat ≤ value

/-- The exponent of a run that begins with its mark, or zero for the empty run. -/
def exponent? : List Char → Option Int
  | [] => some 0
  | c :: text =>
    if c = 'e' ∨ c = 'E' then
      let (negative, text) := signed text
      ((separated? 10 text).bind (digits? 10)).map fun value =>
        if negative then -Int.ofNat value else Int.ofNat value
    else none

/-- The digits behind the point of a run that begins with a point, and what follows them. Without a
point there are none. -/
def fraction? : List Char → Option (List Char × List Char)
  | '.' :: text =>
    let isPart := fun c => isDecimal c || c == '_'
    (separated? 10 (text.takeWhile isPart)).map (·, text.dropWhile isPart)
  | text => some ([], text)

/-- Whether a run without a sign is a number with a fraction or an exponent. A positive one may not
round to infinity. -/
def isPlainReal (negative : Bool) (text : List Char) : Bool :=
  let isPart := fun c => isDecimal c || c == '_'
  let behind := text.dropWhile isPart
  match plain? (text.takeWhile isPart), fraction? behind with
  | some digits, some (places, rest) =>
    match exponent? rest with
    | some exponent =>
      !behind.isEmpty && (negative || !overflows (digits ++ places) (exponent - places.length))
    | none => false
  | _, _ => false

/-- Whether a run is a number with a fraction or an exponent, an infinity, or not a number. -/
def isReal (text : List Char) : Bool :=
  let (negative, text) := signed text
  text == ['i', 'n', 'f'] || text == ['n', 'a', 'n'] || isPlainReal negative text

/-- Read a number of two digits that is at most `most`, and what follows it. -/
def pair? (most : Nat) : List Char → Option (Nat × List Char)
  | a :: b :: rest =>
    match digits? 10 [a, b] with
    | some value => if value ≤ most then some (value, rest) else none
    | none => none
  | _ => none

def past? (c : Char) : List Char → Option (List Char)
  | d :: rest => if c = d then some rest else none
  | [] => none

def daysIn (year month : Nat) : Nat :=
  if month = 2 then
    if year % 4 = 0 ∧ (year % 100 ≠ 0 ∨ year % 400 = 0) then 29 else 28
  else if month = 4 ∨ month = 6 ∨ month = 9 ∨ month = 11 then 30
  else 31

/-- Read a date, and tell what follows it. -/
def date? (text : List Char) : Option (List Char) := do
  let (century, rest) ← pair? 99 text
  let (year, rest) ← pair? 99 rest
  let rest ← past? '-' rest
  let (month, rest) ← pair? 12 rest
  let rest ← past? '-' rest
  let (day, rest) ← pair? 31 rest
  if 1 ≤ month ∧ 1 ≤ day ∧ day ≤ daysIn (century * 100 + year) month then some rest else none

/-- Read a time of day, with a leap second and parts of a second, and tell what follows it. -/
def time? (text : List Char) : Option (List Char) := do
  let (_, rest) ← pair? 23 text
  let rest ← past? ':' rest
  let (_, rest) ← pair? 59 rest
  let rest ← past? ':' rest
  let (_, rest) ← pair? 60 rest
  match rest with
  | '.' :: parts => if parts.head?.any isDecimal then some (parts.dropWhile isDecimal) else none
  | rest => some rest

/-- Whether a text is a distance from universal time, or nothing. -/
def isOffset : List Char → Bool
  | [] => true
  | ['Z'] | ['z'] => true
  | c :: rest =>
    (c == '+' || c == '-') &&
      (do let (_, rest) ← pair? 23 rest
          let rest ← past? ':' rest
          let (_, rest) ← pair? 59 rest
          return rest.isEmpty : Option Bool) == some true

/-- Whether a run is a time of day, a date, or both. -/
def isMoment (text : List Char) : Bool :=
  match date? text with
  | some [] => true
  | some (c :: rest) => (c == 'T' || c == 't') && (time? rest).any isOffset
  | none => time? text == some []

/-- The value of a run. -/
def scalar? (text : List Char) : Option Value :=
  if text = ['t', 'r', 'u', 'e'] then some (.boolean true)
  else if text = ['f', 'a', 'l', 's', 'e'] then some (.boolean false)
  else if isMoment text then some .moment
  else if isReal text then some .real
  else (integer? text).map .integer

end Dcpu.Toml
