import Dcpu.Source.Position
import Dcpu.Word

/-! # Tokens of the source language

A token is a kind together with the place where it begins. Fixed tokens have a spelling; numbers
and identifiers carry their value. The end of the input is a token of its own.
-/

namespace Dcpu.Source

/-- What a token is, with the value of a number or the name of an identifier. -/
inductive TokenKind where
  | number (value : Word)
  | identifier (name : String)
  | functionWord
  | returnWord
  | ifWord
  | elseWord
  | whileWord
  | forWord
  | andWord
  | orWord
  | notWord
  | leftBrace
  | rightBrace
  | leftBracket
  | rightBracket
  | leftParen
  | rightParen
  | semicolon
  | equal
  | equalEqual
  | notEqual
  | plus
  | minus
  | star
  | starStar
  | slash
  | percent
  | less
  | lessEqual
  | lessLess
  | greater
  | greaterEqual
  | greaterGreater
  | ampersand
  | pipe
  | caret
  | doubleAmpersand
  | doublePipe
  | bang
  | endOfInput
deriving DecidableEq, Repr, Inhabited

namespace TokenKind

/-- The words that are no identifiers, with their kinds. -/
def keywords : List (String × TokenKind) :=
  [("function", functionWord), ("return", returnWord), ("if", ifWord), ("else", elseWord),
   ("while", whileWord), ("for", forWord), ("and", andWord), ("or", orWord), ("not", notWord)]

/-- The kind of a word: a keyword, or else an identifier. -/
def ofWord (word : String) : TokenKind :=
  (keywords.lookup word).getD (identifier word)

/-- How a token is written; a number in decimal, the end of the input as nothing. -/
def spelling : TokenKind → String
  | number value => toString value.toNat
  | identifier name => name
  | functionWord => "function"
  | returnWord => "return"
  | ifWord => "if"
  | elseWord => "else"
  | whileWord => "while"
  | forWord => "for"
  | andWord => "and"
  | orWord => "or"
  | notWord => "not"
  | leftBrace => "\x7b"
  | rightBrace => "\x7d"
  | leftBracket => "["
  | rightBracket => "]"
  | leftParen => "("
  | rightParen => ")"
  | semicolon => ";"
  | equal => "="
  | equalEqual => "=="
  | notEqual => "!="
  | plus => "+"
  | minus => "-"
  | star => "*"
  | starStar => "**"
  | slash => "/"
  | percent => "%"
  | less => "<"
  | lessEqual => "<="
  | lessLess => "<<"
  | greater => ">"
  | greaterEqual => ">="
  | greaterGreater => ">>"
  | ampersand => "&"
  | pipe => "|"
  | caret => "^"
  | doubleAmpersand => "&&"
  | doublePipe => "||"
  | bang => "!"
  | endOfInput => ""

/-- How a message that met this token names it. -/
def describe : TokenKind → String
  | number value => s!"number {value.toNat}"
  | identifier name => s!"identifier '{name}'"
  | functionWord => "Function"
  | returnWord => "Return"
  | ifWord => "If"
  | elseWord => "Else"
  | whileWord => "While"
  | forWord => "For"
  | andWord => "AndKeyword"
  | orWord => "OrKeyword"
  | notWord => "NotKeyword"
  | leftBrace => "LeftBrace"
  | rightBrace => "RightBrace"
  | leftBracket => "LeftBracket"
  | rightBracket => "RightBracket"
  | leftParen => "LeftParen"
  | rightParen => "RightParen"
  | semicolon => "Semicolon"
  | equal => "Equal"
  | equalEqual => "EqualEqual"
  | notEqual => "NotEqual"
  | plus => "Plus"
  | minus => "Minus"
  | star => "Star"
  | starStar => "StarStar"
  | slash => "Slash"
  | percent => "Percent"
  | less => "Less"
  | lessEqual => "LessEqual"
  | lessLess => "LessLess"
  | greater => "Greater"
  | greaterEqual => "GreaterEqual"
  | greaterGreater => "GreaterGreater"
  | ampersand => "Ampersand"
  | pipe => "Pipe"
  | caret => "Caret"
  | doubleAmpersand => "And"
  | doublePipe => "Or"
  | bang => "Not"
  | endOfInput => "end of input"

end TokenKind

/-- A token with the number of characters before it and the position where it begins. -/
structure Token where
  kind : TokenKind
  offset : Nat
  position : Position
deriving DecidableEq, Repr, Inhabited

end Dcpu.Source
