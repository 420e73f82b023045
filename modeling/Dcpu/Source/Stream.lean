import Dcpu.CompileError

/-! # Streams of tokens

Trees are read from the tokens before the first end of the input. Reading steps take tokens from the
front of a stream, and a failure keeps the stream it was met at.
-/

namespace Dcpu.Source

/-- The tokens still to be read, none of them an end of the input, and where the input ends. -/
structure Stream where
  tokens : List Token
  stop : Position
deriving DecidableEq, Repr

namespace Stream

/-- Where tokens end: at the first end of the input, or else at the last token. -/
def stopOf (tokens : List Token) : Position :=
  match tokens.find? (·.kind = .endOfInput) with
  | some token => token.position
  | none => (tokens.getLast?.map (·.position)).getD .start

/-- The stream of the tokens before the first end of the input. -/
def ofTokens (tokens : List Token) : Stream :=
  ⟨tokens.takeWhile (·.kind ≠ .endOfInput), stopOf tokens⟩

def kind (stream : Stream) : TokenKind :=
  (stream.tokens.head?.map (·.kind)).getD .endOfInput

def position (stream : Stream) : Position :=
  (stream.tokens.head?.map (·.position)).getD stream.stop

def drop (stream : Stream) : Stream :=
  { stream with tokens := stream.tokens.tail }

end Stream

/-- Steps that read from a stream of tokens. -/
abbrev Reader := EStateM CompileError Stream

namespace Reader

/-- The kind of the next token, which stays. -/
def peek : Reader TokenKind :=
  return (← get).kind

def here : Reader Position :=
  return (← get).position

def advance : Reader Unit :=
  modify Stream.drop

/-- Fail because the next token is not what the grammar asks for. -/
def unexpected {α : Type} (expectation : Expectation) : Reader α := do
  throw (.expected expectation (← peek) (← here))

/-- Take the next token if it is of a chosen kind. -/
def accept? {α : Type} (choose : TokenKind → Option α) : Reader (Option α) := do
  match choose (← peek) with
  | none => return none
  | some value =>
    advance
    return some value

/-- Take the next token if it is of the given kind. -/
def accept (kind : TokenKind) : Reader Bool := do
  if (← peek) = kind then
    advance
    return true
  return false

def expect (kind : TokenKind) : Reader Unit := do
  unless ← accept kind do
    unexpected (.token kind)

def identifier : Reader String := do
  match ← peek with
  | .identifier name =>
    advance
    return name
  | _ => unexpected .identifier

end Reader

end Dcpu.Source
