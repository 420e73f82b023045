import Dcpu.CompileError
import Dcpu.Text.Blank
import Dcpu.Text.Name

/-! # Reading tokens from a source text

Blanks and comments stand between tokens; a comment runs from `#` or `//` to the end of its line.
Of the symbols at a place the longest is read, and a name or number is read as far as it goes.
-/

namespace Dcpu.Source

open Text

/-- A place in a source text: the characters before it are counted, the others are still to be
read. -/
structure Cursor where
  offset : Nat
  position : Position
  rest : List Char
deriving Repr

namespace Cursor

def ofString (source : String) : Cursor :=
  ⟨0, .start, source.toList⟩

/-- The place behind the given characters, where `rest` goes on. -/
def past (cursor : Cursor) (read rest : List Char) : Cursor :=
  ⟨cursor.offset + read.length, read.foldl Position.after cursor.position, rest⟩

def token (cursor : Cursor) (kind : TokenKind) : Token :=
  ⟨kind, cursor.offset, cursor.position⟩

end Cursor

/-- A comment begins with `#` or with two slashes. -/
def beginsComment : List Char → Bool
  | '#' :: _ => true
  | '/' :: '/' :: _ => true
  | _ => false

/-- The place behind blanks and comments, given whether the text begins inside a comment. -/
def gapEnd (inComment : Bool) (offset : Nat) (position : Position) : List Char → Cursor
  | [] => ⟨offset, position, []⟩
  | c :: rest =>
    if c = '\n' then gapEnd false (offset + 1) (position.after c) rest
    else if inComment || isBlank c then gapEnd inComment (offset + 1) (position.after c) rest
    else if beginsComment (c :: rest) then gapEnd true (offset + 1) (position.after c) rest
    else ⟨offset, position, c :: rest⟩

def Cursor.skipGap (cursor : Cursor) : Cursor :=
  gapEnd false cursor.offset cursor.position cursor.rest

/-- The symbol at the head of a text. -/
def symbol? : List Char → Option TokenKind
  | '\x7b' :: _ => some .leftBrace
  | '\x7d' :: _ => some .rightBrace
  | '[' :: _ => some .leftBracket
  | ']' :: _ => some .rightBracket
  | '(' :: _ => some .leftParen
  | ')' :: _ => some .rightParen
  | ';' :: _ => some .semicolon
  | '+' :: _ => some .plus
  | '-' :: _ => some .minus
  | '/' :: _ => some .slash
  | '%' :: _ => some .percent
  | '^' :: _ => some .caret
  | '*' :: '*' :: _ => some .starStar
  | '*' :: _ => some .star
  | '=' :: '=' :: _ => some .equalEqual
  | '=' :: _ => some .equal
  | '!' :: '=' :: _ => some .notEqual
  | '!' :: _ => some .bang
  | '&' :: '&' :: _ => some .doubleAmpersand
  | '&' :: _ => some .ampersand
  | '|' :: '|' :: _ => some .doublePipe
  | '|' :: _ => some .pipe
  | '<' :: '=' :: _ => some .lessEqual
  | '<' :: '<' :: _ => some .lessLess
  | '<' :: _ => some .less
  | '>' :: '=' :: _ => some .greaterEqual
  | '>' :: '>' :: _ => some .greaterGreater
  | '>' :: _ => some .greater
  | _ => none

/-- The mark of a hexadecimal number and what follows it; without a mark a number is decimal. -/
def numberBase : List Char → Nat × List Char × List Char
  | '0' :: 'x' :: rest => (16, ['0', 'x'], rest)
  | '0' :: 'X' :: rest => (16, ['0', 'X'], rest)
  | text => (10, [], text)

/-- The value of the digits of a number, given what stands behind them. A character of names there
is a wrong digit, which is reported before anything else. -/
def numberValue (base : Nat) (digits rest : List Char) : Except NumberFault Word :=
  match rest.head?.filter isNamePart with
  | some c => .error (.invalidDigit c)
  | none =>
    match digits? base digits with
    | none => .error .noDigits
    | some value => (Word.ofNat? value).elim (.error .tooLarge) .ok

/-- A piece of source text read as a token: its kind, its characters, and what follows them. -/
structure Lexeme where
  kind : TokenKind
  text : List Char
  rest : List Char
deriving Repr

def Lexeme.number (text : List Char) : Except NumberFault Lexeme := do
  let (base, mark, rest) := numberBase text
  let digits := rest.takeWhile (isDigit base)
  let rest := rest.dropWhile (isDigit base)
  let value ← numberValue base digits rest
  return ⟨.number value, mark ++ digits, rest⟩

/-- Read the word at the head of a text: a keyword or an identifier. -/
def Lexeme.word (text : List Char) : Lexeme :=
  let word := text.takeWhile isNamePart
  ⟨.ofWord (String.ofList word), word, text.dropWhile isNamePart⟩

/-- Read the token that begins where the cursor stands, which is no gap. -/
def Cursor.lexeme (cursor : Cursor) : Except CompileError Lexeme :=
  match cursor.rest with
  | [] => .ok ⟨.endOfInput, [], []⟩
  | c :: rest =>
    match symbol? (c :: rest) with
    | some kind =>
      let width := kind.spelling.length
      .ok ⟨kind, (c :: rest).take width, (c :: rest).drop width⟩
    | none =>
      if isDigit 10 c then
        (Lexeme.number (c :: rest)).mapError (CompileError.number · cursor.position)
      else if isNameStart c then .ok (Lexeme.word (c :: rest))
      else .error (.unexpectedCharacter c cursor.position)

/-- Read the next token and move behind it. -/
def Cursor.next (cursor : Cursor) : Except CompileError (Token × Cursor) := do
  let cursor := cursor.skipGap
  let lexeme ← cursor.lexeme
  return (cursor.token lexeme.kind, cursor.past lexeme.text lexeme.rest)

/-- Read tokens up to and with the end of the input. Every other token takes a character, so the
number of characters bounds the number of tokens before the end. -/
def scanTokens : Nat → Cursor → Array Token → Except CompileError (List Token)
  | 0, cursor, tokens => .ok (tokens.push (cursor.token .endOfInput)).toList
  | bound + 1, cursor, tokens => do
    let (token, cursor) ← cursor.next
    if token.kind = .endOfInput then return (tokens.push token).toList
    else scanTokens bound cursor (tokens.push token)

/-- The tokens of a source text, the last of them the end of the input. -/
def scan (source : String) : Except CompileError (List Token) :=
  scanTokens source.length (.ofString source) #[]

end Dcpu.Source
