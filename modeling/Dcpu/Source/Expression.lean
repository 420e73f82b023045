import Dcpu.Source.Stream

/-! # Reading expressions

From the loosest to the tightest, expressions are joined by `or`, `and`, `not`, relations, `|`, `^`,
`&`, shifts, sums, products, `**`, the minus sign, and indices and calls behind an operand.

Loops and nesting are bounded by a number that is at least the number of tokens left: every round of
a loop and every level of nesting takes a token first. At the bound zero nothing is left to read.
-/

namespace Dcpu.Source

open Reader

/-- The connective `or`, in its two spellings. -/
def isOr (kind : TokenKind) : Bool :=
  kind = .doublePipe ∨ kind = .orWord

/-- The connective `and`, in its two spellings. -/
def isAnd (kind : TokenKind) : Bool :=
  kind = .doubleAmpersand ∨ kind = .andWord

/-- The negation, in its two spellings. -/
def isNot (kind : TokenKind) : Bool :=
  kind = .bang ∨ kind = .notWord

def relation? : TokenKind → Option Relation
  | .equalEqual => some .equal
  | .notEqual => some .notEqual
  | .less => some .less
  | .lessEqual => some .lessEqual
  | .greater => some .greater
  | .greaterEqual => some .greaterEqual
  | _ => none

/-- The operators of each level, from the loosest to the tightest, that join operands from left to
right. -/
def binaryLevels : List (TokenKind → Option BinaryOp) :=
  [fun | .pipe => some .bitOr | _ => none,
   fun | .caret => some .bitXor | _ => none,
   fun | .ampersand => some .bitAnd | _ => none,
   fun | .lessLess => some .shiftLeft | .greaterGreater => some .shiftRight | _ => none,
   fun | .plus => some .add | .minus => some .sub | _ => none,
   fun | .star => some .mul | .slash => some .div | .percent => some .mod | _ => none]

/-- Join operands from left to right while an operator follows. -/
def joinLeft (op? : TokenKind → Option BinaryOp) (operand : Reader Expr) :
    Nat → Expr → Reader Expr
  | 0, left => return left
  | bound + 1, left => do
    match ← accept? op? with
    | none => return left
    | some op =>
      let right ← operand
      joinLeft op? operand bound (.binary left.position op left right)

/-- Read the levels of operators above the given operands. -/
def joinLevels (bound : Nat) (operand : Reader Expr) :
    List (TokenKind → Option BinaryOp) → Reader Expr
  | [] => operand
  | op? :: tighter => do
    let first ← joinLevels bound operand tighter
    joinLeft op? (joinLevels bound operand tighter) bound first

/-- Read operands, each behind a token of a chosen kind, behind those already read, which are given
last first. -/
def readMore {α : Type} (mark? : TokenKind → Option α) (operand : Reader Expr) :
    Nat → List (α × Expr) → Reader (List (α × Expr))
  | 0, read => return read.reverse
  | bound + 1, read => do
    match ← accept? mark? with
    | none => return read.reverse
    | some mark =>
      let next ← operand
      readMore mark? operand bound ((mark, next) :: read)

def readLogical (op : LogicalOp) (isMark : TokenKind → Bool) (bound : Nat)
    (operand : Reader Expr) : Reader Expr := do
  let first ← operand
  let more ← readMore (fun kind => if isMark kind then some () else none) operand bound []
  if more.isEmpty then return first
  return .logical first.position op (first :: more.map (·.2))

def readComparison (bound : Nat) (operand : Reader Expr) : Reader Expr := do
  let first ← operand
  let stages ← readMore relation? operand bound []
  if stages.isEmpty then return first
  return .compare first.position first stages

/-- Read an operand behind any number of marks of an operator. -/
def readUnary (op : UnaryOp) (isMark : TokenKind → Bool) (operand : Reader Expr) :
    Nat → Reader Expr
  | 0 => operand
  | bound + 1 => do
    let position ← here
    if isMark (← peek) then
      advance
      return .unary position op (← readUnary op isMark operand bound)
    operand

/-- Read an operand and at most one exponent. -/
def readPower (operand : Reader Expr) : Reader Expr := do
  let base ← operand
  if ← accept .starStar then
    return .binary base.position .power base (← operand)
  return base

/-- The call of an expression, which has to be a name; else the opening parenthesis is at fault. -/
def callOf (position : Position) : Expr → Reader Expr
  | .name start name => return .call start name
  | callee => throw (.misplacedCall (.notCallable callee.form) position)

/-- Read the indices and calls behind an operand. -/
def readSuffixes (inner : Reader Expr) : Nat → Expr → Reader Expr
  | 0, expr => return expr
  | bound + 1, expr => do
    let position ← here
    match ← peek with
    | .leftBracket =>
      advance
      let index ← inner
      expect .rightBracket
      readSuffixes inner bound (.index expr.position expr index)
    | .leftParen =>
      advance
      unless ← accept .rightParen do
        throw (.misplacedCall .arguments (← here))
      readSuffixes inner bound (← callOf position expr)
    | _ => return expr

/-- Read a number, a name, or an expression between parentheses. -/
def readPrimary (inner : Reader Expr) : Reader Expr := do
  let position ← here
  match ← peek with
  | .number value =>
    advance
    return .number position value
  | .identifier name =>
    advance
    return .name position name
  | .leftParen =>
    advance
    let expr ← inner
    expect .rightParen
    return expr
  | _ => unexpected .expression

/-- Read the operand of arithmetic: what no binary operator splits. -/
def readOperand (bound : Nat) (inner : Reader Expr) : Reader Expr :=
  readPower <| readUnary .negate (· = .minus)
    (do readSuffixes inner bound (← readPrimary inner)) bound

/-- Read an expression, given how to read one inside brackets. -/
def readLevels (bound : Nat) (inner : Reader Expr) : Reader Expr :=
  readLogical .or isOr bound <| readLogical .and isAnd bound <|
    readUnary .not isNot
      (readComparison bound (joinLevels bound (readOperand bound inner) binaryLevels)) bound

/-- Read an expression from a stream with at most the given number of tokens. -/
def readExpr : Nat → Reader Expr
  | 0 => unexpected .expression
  | bound + 1 => readLevels (bound + 1) (readExpr bound)

end Dcpu.Source
