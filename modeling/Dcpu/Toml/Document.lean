import Dcpu.Toml.Quotation
import Dcpu.Toml.Scalar

/-! # Configuration texts

Reading of TOML documents: lines with a key and its value, headers of tables and of rows of tables,
comments and blank lines. Arrays and tables inside values nest less than 80 deep, and keys have less
than 80 parts.
-/

namespace Dcpu.Toml

/-- Steps that read from a text or refuse it. -/
abbrev Reader := StateT (List Char) Option

namespace Reader

def peek? : Reader (Option Char) :=
  return (← get).head?

def accept (c : Char) : Reader Bool := do
  match ← get with
  | d :: rest =>
    if c = d then
      set rest
      return true
    return false
  | [] => return false

def expect (c : Char) : Reader Unit := do
  unless ← accept c do failure

/-- Take the longest run of characters of a class. -/
def run (isPart : Char → Bool) : Reader (List Char) := do
  let text ← get
  set (text.dropWhile isPart)
  return text.takeWhile isPart

/-- Read by a function on texts. -/
def ofText {α : Type} (read? : List Char → Option (α × List Char)) : Reader α := do
  let (value, rest) ← (read? (← get) : Option _)
  set rest
  return value

def spaces : Reader Unit :=
  modify skipSpaces

/-- Take a comment, if there is one. -/
def comment : Reader Unit := do
  if ← accept '#' then
    let _ ← run isVisible

/-- Take the end of a line behind its content: spaces, a comment, and a line break or the end. -/
def lineEnd : Reader Unit := do
  spaces
  comment
  match ← get with
  | [] => return
  | text => set (← (newline? text : Option _))

/-- Skip spaces, line breaks and comments. The bound is the length of the text. -/
def gap : Nat → Reader Unit
  | 0 => return
  | bound + 1 => do
    modify skipLines
    if (← peek?) = some '#' then
      comment
      gap bound

end Reader

open Reader

/-- A character of a key without quotes. -/
def isKeyPart (c : Char) : Bool :=
  c.isAlphanum || c == '-' || c == '_'

def readKeyPart : Reader String := do
  match ← get with
  | '"' :: rest =>
    set rest
    return String.ofList (← ofText (basicText? rest.length))
  | '\'' :: rest =>
    set rest
    return String.ofList (← ofText literalText?)
  | _ =>
    let part ← run isKeyPart
    if part.isEmpty then failure
    return String.ofList part

/-- Read the parts of a key, divided by points, behind those already read. -/
def readKeyParts : Nat → Array String → Reader (List String)
  | 0, _ => failure
  | bound + 1, parts => do
    spaces
    let parts := parts.push (← readKeyPart)
    spaces
    if ← accept '.' then readKeyParts bound parts
    else return parts.toList

/-- The number of parts that a key may not reach, and of levels that values may not. -/
def nestingLimit : Nat := 80

def readKey : Reader (List String) :=
  readKeyParts (nestingLimit - 1) #[]

/-- Read the items of an array behind its opening bracket, with those already read. A comma may
stand behind the last item. -/
def readItems (item : Reader Value) : Nat → Array Value → Reader (List Value)
  | 0, _ => failure
  | bound + 1, items => do
    gap (bound + 1)
    if ← accept ']' then return items.toList
    let items := items.push (← item)
    gap (bound + 1)
    if ← accept ',' then readItems item bound items
    else
      expect ']'
      return items.toList

/-- Read the pairs of a table between braces, with the entries already read. -/
def readPairs (item : Reader Value) : Nat → Entries → Reader Entries
  | 0, _ => failure
  | bound + 1, entries => do
    let path ← readKey
    expect '='
    spaces
    let value ← item
    let entries ← (entries.put value path : Option _)
    spaces
    if ← accept ',' then readPairs item bound entries
    else
      expect '\x7d'
      return entries

def readInlineTable (item : Reader Value) : Reader Value := do
  spaces
  if ← accept '\x7d' then return .table []
  return .table (entryValues (← readPairs item (← get).length []))

/-- A character of values without delimiters. -/
def isScalarPart (c : Char) : Bool :=
  c.isAlphanum || ['+', '-', '_', '.', ':'].contains c

/-- Read a value without delimiters. A space may stand between a date and a time. -/
def readScalar : Reader Value := do
  let first ← run isScalarPart
  match ← get with
  | ' ' :: c :: rest =>
    if (date? first).any (·.isEmpty) && isDecimal c then
      set (c :: rest)
      let second ← run isScalarPart
      (scalar? (first ++ 'T' :: second) : Option _)
    else (scalar? first : Option _)
  | _ => (scalar? first : Option _)

/-- Read a value that is no array or table. -/
def readSimple : Reader Value := do
  match ← peek? with
  | some '"' | some '\'' => return .text (String.ofList (← ofText quotation?))
  | _ => readScalar

/-- Read a value whose arrays and tables nest at most to the given depth. -/
def readValue : Nat → Reader Value
  | 0 => readSimple
  | depth + 1 => do
    if ← accept '[' then
      return .array (← readItems (readValue depth) ((← get).length + 1) #[])
    else if ← accept '\x7b' then readInlineTable (readValue depth)
    else readSimple

/-- A document while it is read: its entries, and the path of the table that lines go to. -/
structure Draft where
  entries : Entries
  current : List String

def readHeader (draft : Draft) : Reader Draft := do
  expect '['
  if ← accept '[' then
    let path ← readKey
    expect ']'
    expect ']'
    return ⟨← (draft.entries.around Entries.addRow path : Option _), path⟩
  else
    let path ← readKey
    expect ']'
    return ⟨← (draft.entries.around Entries.define path : Option _), path⟩

def readPair (draft : Draft) : Reader Draft := do
  let path ← readKey
  expect '='
  spaces
  let value ← readValue (nestingLimit - 1)
  let entries ← (draft.entries.within (Entries.put value path) draft.current : Option _)
  return { draft with entries }

/-- Read lines up to the end of a text. The bound is the length of the text. -/
def readLines : Nat → Draft → Reader Draft
  | 0, draft => return draft
  | bound + 1, draft => do
    spaces
    match ← peek? with
    | none => return draft
    | some '#' | some '\n' | some '\r' =>
      lineEnd
      readLines bound draft
    | some '[' =>
      let draft ← readHeader draft
      lineEnd
      readLines bound draft
    | some _ =>
      let draft ← readPair draft
      lineEnd
      readLines bound draft

/-- The text without the byte order mark that may stand before it. -/
def skipMark : List Char → List Char
  | '\ufeff' :: text => text
  | text => text

/-- The entries of a document, if the text is one. -/
def read? (text : String) : Option (List (String × Value)) := do
  let text := skipMark text.toList
  let (draft, _) ← readLines text.length ⟨[], []⟩ text
  return entryValues draft.entries

end Dcpu.Toml
