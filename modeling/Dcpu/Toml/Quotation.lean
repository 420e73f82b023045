import Dcpu.Text.Numeral

/-! # Quoted texts of configurations

Texts between double quotes know escapes, those between single quotes do not. Behind three opening
quotes a text may run over lines and end with up to two quotes of its own before the closing three.

The functions are given what follows the opening quotes. They return the content and what follows the
closing quotes.
-/

namespace Dcpu.Toml

open Text

/-- A character that stands for itself in comments and quoted texts: a tab or a visible one. -/
def isVisible (c : Char) : Bool :=
  c == '\t' || (0x20 ≤ c.toNat && c.toNat ≤ 0x7e) || 0x80 ≤ c.toNat

/-- The character that a letter stands for behind a backslash. -/
def simpleEscape? : Char → Option Char
  | 'b' => some '\x08'
  | 't' => some '\t'
  | 'n' => some '\n'
  | 'f' => some '\x0c'
  | 'r' => some '\r'
  | '"' => some '"'
  | '\\' => some '\\'
  | _ => none

/-- The character of a code point that is a Unicode scalar. -/
def scalarChar? (code : Nat) : Option Char :=
  if code.isValidChar then some (Char.ofNat code) else none

/-- Read the code point of an escape from its hexadecimal digits. -/
def codePoint? (width : Nat) (text : List Char) : Option (Char × List Char) := do
  if text.length < width then none
  let code ← digits? 16 (text.take width)
  return (← scalarChar? code, text.drop width)

/-- Read an escape behind its backslash. -/
def escape? : List Char → Option (Char × List Char)
  | 'u' :: rest => codePoint? 4 rest
  | 'U' :: rest => codePoint? 8 rest
  | c :: rest => (simpleEscape? c).map (·, rest)
  | [] => none

/-- Put a character before the content of a text. -/
def consContent (c : Char) (read : List Char × List Char) : List Char × List Char :=
  (c :: read.1, read.2)

/-- Read a text between double quotes. The bound is the length of the text. -/
def basicText? : Nat → List Char → Option (List Char × List Char)
  | _, [] => none
  | 0, _ => none
  | _ + 1, '"' :: rest => some ([], rest)
  | bound + 1, '\\' :: rest => do
    let (c, rest) ← escape? rest
    return consContent c (← basicText? bound rest)
  | bound + 1, c :: rest =>
    if isVisible c then (basicText? bound rest).map (consContent c) else none

/-- Read a text between single quotes. -/
def literalText? : List Char → Option (List Char × List Char)
  | [] => none
  | '\'' :: rest => some ([], rest)
  | c :: rest => if isVisible c then (literalText? rest).map (consContent c) else none

/-- What follows a line break: a line feed, alone or behind a carriage return. -/
def newline? : List Char → Option (List Char)
  | '\n' :: rest => some rest
  | '\r' :: '\n' :: rest => some rest
  | _ => none

def skipSpaces (text : List Char) : List Char :=
  text.dropWhile fun c => c == ' ' || c == '\t'

/-- Skip spaces, tabs and line breaks. -/
def skipLines : List Char → List Char
  | '\r' :: '\n' :: rest => skipLines rest
  | c :: rest => if c = ' ' ∨ c = '\t' ∨ c = '\n' then skipLines rest else c :: rest
  | [] => []

/-- The content and rest at three to five quotes, all but three of which are content. -/
def closing? (quote : Char) : List Char → Option (List Char × List Char)
  | a :: b :: c :: rest =>
    if a = quote ∧ b = quote ∧ c = quote then
      let extra := (rest.take 2).takeWhile (· == quote)
      some (extra, rest.drop extra.length)
    else none
  | _ => none

/-- Read a text between three double quotes. A backslash at the end of a line joins it to the next
line that is not blank. The bound is the length of the text. -/
def longBasicText? : Nat → List Char → Option (List Char × List Char)
  | _, [] => none
  | 0, _ => none
  | bound + 1, c :: rest =>
    if let some read := closing? '"' (c :: rest) then some read
    else if let some rest := newline? (c :: rest) then
      (longBasicText? bound rest).map (consContent '\n')
    else if c = '\\' then
      if let some rest := newline? (skipSpaces rest) then longBasicText? bound (skipLines rest)
      else do
        let (c, rest) ← escape? rest
        return consContent c (← longBasicText? bound rest)
    else if isVisible c then (longBasicText? bound rest).map (consContent c)
    else none

/-- Read a text between three single quotes. The bound is the length of the text. -/
def longLiteralText? : Nat → List Char → Option (List Char × List Char)
  | _, [] => none
  | 0, _ => none
  | bound + 1, c :: rest =>
    if let some read := closing? '\'' (c :: rest) then some read
    else if let some rest := newline? (c :: rest) then
      (longLiteralText? bound rest).map (consContent '\n')
    else if isVisible c then (longLiteralText? bound rest).map (consContent c)
    else none

/-- Skip the line break that may follow three opening quotes. -/
def skipNewline (text : List Char) : List Char :=
  (newline? text).getD text

/-- Read any quoted text, with its opening quotes. -/
def quotation? : List Char → Option (List Char × List Char)
  | '"' :: '"' :: '"' :: rest => longBasicText? rest.length (skipNewline rest)
  | '"' :: rest => basicText? rest.length rest
  | '\'' :: '\'' :: '\'' :: rest => longLiteralText? rest.length (skipNewline rest)
  | '\'' :: rest => literalText? rest
  | _ => none

end Dcpu.Toml
