import Dcpu.Listing.Line

/-! # Listings

A listing is a list of lines. In text it has a line for each of them; reading also takes blank
lines, and comments from a semicolon to the end of the line.
-/

namespace Dcpu

open Text

/-- A program in assembly language. -/
abbrev Listing := List Line

/-- Why a text is no listing: the number of the line at fault, counted from one, and its error. -/
structure ListingError where
  number : Nat
  error : LineError
deriving DecidableEq, Repr

def ListingError.message (error : ListingError) : String :=
  s!"line {error.number}: {error.error.message}"

namespace Listing

/-- The lines of a listing, joined by line feeds. -/
def text (listing : Listing) : String :=
  String.intercalate "\n" (listing.map Line.text)

def labels (listing : Listing) : List String :=
  listing.filterMap Line.label?

def instructions (listing : Listing) : List Instruction :=
  listing.filterMap Line.instruction?

/-- Put a character in front of a text that is split into lines. -/
def consChar (c : Char) : List (List Char) → List (List Char)
  | [] => [[c]]
  | line :: lines => if c = '\n' then [] :: line :: lines else (c :: line) :: lines

/-- The pieces of a text between line feeds. -/
def splitLines (text : List Char) : List (List Char) :=
  text.foldr consChar [[]]

/-- The part of a line before its comment, without blanks around it. -/
def code (line : List Char) : List Char :=
  trim (line.takeWhile (· != ';'))

/-- Read lines, the first of which has the given number, behind those already read. -/
def readLines : Nat → List (List Char) → Array Line → Except ListingError Listing
  | _, [], done => .ok done.toList
  | number, line :: lines, done =>
    let code := code line
    if code.isEmpty then readLines (number + 1) lines done
    else match Line.readTrimmed code with
      | .error error => .error ⟨number, error⟩
      | .ok line => readLines (number + 1) lines (done.push line)

def read (text : String) : Except ListingError Listing :=
  readLines 1 (splitLines text.toList) #[]

end Listing

end Dcpu
