import Dcpu.Proofs.Grammar.Marks
import Dcpu.Source.Statement

/-! # Reading by recursive descent

The readers have bounds, which make them total. Here the same readers stand without bounds: they call each
other, and themselves in their loops, for as long as it takes. They read from a list of tokens, of which any
number may be an end of the input, by moving an index.

Such a recursion need not end. It is followed to a depth of calls, behind which it is given up; a call ends if it
has the same result at all depths from some depth on.
-/

namespace Dcpu.Source

open Grammar

/-- A list of tokens, and the number of those that are taken. -/
structure Tape where
  tokens : List Token
  index : Nat
deriving DecidableEq, Repr

namespace Tape

/-- The kind of the next token. Behind the last token the input ends. -/
def kind (tape : Tape) : TokenKind :=
  (tape.tokens[tape.index]?.map (·.kind)).getD .endOfInput

def position (tape : Tape) : Position :=
  (tape.tokens[tape.index]?.map (·.position)).getD ((tape.tokens.getLast?.map (·.position)).getD .start)

/-- The tape behind the next token. An end of the input is never passed. -/
def next (tape : Tape) : Tape :=
  if tape.kind = .endOfInput then tape else { tape with index := tape.index + 1 }

/-- The index of the first end of the input. Without one it is the number of tokens. -/
def limit (tape : Tape) : Nat :=
  tape.tokens.findIdx (·.kind = .endOfInput)

end Tape

/-- Steps that read from a tape. They may fail, and they may be given up. -/
abbrev Descent := ExceptT CompileError (StateT Tape Option)

namespace Descent

variable {α : Type}

def giveUp : Descent α :=
  fun _ => none

def peek : Descent TokenKind :=
  return (← get).kind

def here : Descent Position :=
  return (← get).position

def advance : Descent Unit :=
  modify Tape.next

/-- Fail because the next token is not what the grammar asks for. -/
def unexpected (expectation : Expectation) : Descent α := do
  throw (.expected expectation (← peek) (← here))

/-- Take the next token if it is of a chosen kind. -/
def accept? (choose : TokenKind → Option α) : Descent (Option α) := do
  match choose (← peek) with
  | none => return none
  | some value =>
    advance
    return some value

def accept (kind : TokenKind) : Descent Bool := do
  if (← peek) = kind then
    advance
    return true
  return false

def expect (kind : TokenKind) : Descent Unit := do
  unless ← accept kind do
    unexpected (.token kind)

def identifier : Descent String := do
  match ← peek with
  | .identifier name =>
    advance
    return name
  | _ => unexpected .identifier

/-- Take the next token, a number or a name. Without a parenthesis nothing else begins an expression. -/
def atom (position : Position) : TokenKind → Descent Expr
  | .number value => do
    advance
    return .number position value
  | .identifier name => do
    advance
    return .name position name
  | _ => unexpected .expression

/-- The call of an expression, which has to be a name; else the opening parenthesis is at fault. -/
def callOf (position : Position) : Expr → Descent Expr
  | .name start name => return .call start name
  | callee => throw (.misplacedCall (.notCallable callee.form) position)

/-- Steps come to a result from a tape: they have it at all depths from some depth on. -/
def Settles (steps : Nat → Descent α) (tape : Tape) (result : Except CompileError α) (final : Tape) : Prop :=
  ∃ enough, ∀ depth ≥ enough, steps depth tape = some (result, final)

end Descent

/-- What is read by a call of its own, with what has been read before where a loop goes on. -/
inductive Nonterminal : Type → Type where
  /-- An expression of a rank. -/
  | expr (rank : Rank) : Nonterminal Expr
  /-- The rest of a row of operands that a connective joins. -/
  | chain (op : LogicalOp) (first : Expr) : Nonterminal Expr
  /-- The operands that follow, each behind a connective. -/
  | operands (op : LogicalOp) (read : List Expr) : Nonterminal (List Expr)
  /-- The operands that follow, each behind a relation. -/
  | stages (read : List (Relation × Expr)) : Nonterminal (List (Relation × Expr))
  /-- The operands that follow, each behind an operator, joined to the one before. -/
  | joined (rank : Rank) (left : Expr) : Nonterminal Expr
  /-- The indices and calls behind an operand. -/
  | suffixes (operand : Expr) : Nonterminal Expr
  /-- An assignment or an expression, without a semicolon. -/
  | simple : Nonterminal Stmt
  /-- The rest of an assignment. -/
  | assigned (value : Expr) (targets : List Expr) : Nonterminal (Expr × List Expr)
  /-- An expression between parentheses. -/
  | condition : Nonterminal Expr
  /-- A block between braces. -/
  | block : Nonterminal (List Stmt)
  /-- Statements up to a closing brace or the end. -/
  | statements (read : Array Stmt) : Nonterminal (List Stmt)
  | routine : Nonterminal Stmt
  | branch : Nonterminal Stmt
  | whileLoop : Nonterminal Stmt
  | forLoop : Nonterminal Stmt
  | ret : Nonterminal Stmt
  | statement : Nonterminal Stmt
  /-- Statements up to the end of the input. -/
  | program (read : Array Stmt) : Nonterminal Program

namespace Nonterminal

open Descent

/-- The number of tokens that a call takes at least when it succeeds. The loops may take none, and so may the
rest of a row. -/
def least {α : Type} : Nonterminal α → Nat
  | chain .. | operands .. | stages .. | joined .. | suffixes .. | assigned .. | statements .. | program .. => 0
  | expr .. | simple | condition | block | routine | branch | whileLoop | forLoop | ret | statement => 1

/-- Read by recursive descent, with calls nested to the given depth. -/
def descend : {α : Type} → Nonterminal α → Nat → Descent α
  | _, _, 0 => giveUp
  | _, .expr .or, depth + 1 => do (chain .or (← (expr .and).descend depth)).descend depth
  | _, .expr .and, depth + 1 => do (chain .and (← (expr .not).descend depth)).descend depth
  | _, .expr .not, depth + 1 => do
    let position ← here
    if isNot (← peek) then
      advance
      return .unary position .not (← (expr .not).descend depth)
    (expr .comparison).descend depth
  | _, .expr .comparison, depth + 1 => do
    let first ← (expr .bitOr).descend depth
    let stages ← (stages []).descend depth
    if stages.isEmpty then return first
    return .compare first.position first stages
  | _, .expr .power, depth + 1 => do
    let base ← (expr .unary).descend depth
    if ← accept .starStar then
      return .binary base.position .power base (← (expr .unary).descend depth)
    return base
  | _, .expr .unary, depth + 1 => do
    let position ← here
    if (← peek) = .minus then
      advance
      return .unary position .negate (← (expr .unary).descend depth)
    (expr .suffixed).descend depth
  | _, .expr .suffixed, depth + 1 => do (suffixes (← (expr .primary).descend depth)).descend depth
  | _, .expr .primary, depth + 1 => do
    let position ← here
    match ← peek with
    | .leftParen =>
      advance
      let inside ← (expr .or).descend depth
      expect .rightParen
      return inside
    | kind => atom position kind
  | _, .expr rank, depth + 1 => do (joined rank (← (expr rank.tighter).descend depth)).descend depth
  | _, .chain op first, depth + 1 => do
    let more ← (operands op []).descend depth
    if more.isEmpty then return first
    return .logical first.position op (first :: more)
  | _, .operands op read, depth + 1 => do
    match ← accept? (fun kind => if isConnective op kind then some () else none) with
    | none => return read.reverse
    | some () =>
      let operand ← (expr (Rank.ofLogical op).tighter).descend depth
      (operands op (operand :: read)).descend depth
  | _, .stages read, depth + 1 => do
    match ← accept? relation? with
    | none => return read.reverse
    | some relation =>
      let operand ← (expr .bitOr).descend depth
      (stages ((relation, operand) :: read)).descend depth
  | _, .joined rank left, depth + 1 => do
    match ← accept? rank.operator? with
    | none => return left
    | some op =>
      let right ← (expr rank.tighter).descend depth
      (joined rank (.binary left.position op left right)).descend depth
  | _, .suffixes operand, depth + 1 => do
    let position ← here
    match ← peek with
    | .leftBracket =>
      advance
      let index ← (expr .or).descend depth
      expect .rightBracket
      (suffixes (.index operand.position operand index)).descend depth
    | .leftParen =>
      advance
      unless ← accept .rightParen do
        throw (.misplacedCall .arguments (← here))
      (suffixes (← Descent.callOf position operand)).descend depth
    | _ => return operand
  | _, .simple, depth + 1 => do
    let position ← here
    let first ← (expr .or).descend depth
    let (value, targets) ← (assigned first []).descend depth
    return simpleOf position value targets
  | _, .assigned value targets, depth + 1 => do
    if ← accept .equal then
      let following ← (expr .or).descend depth
      (assigned following (value :: targets)).descend depth
    else return (value, targets)
  | _, .condition, depth + 1 => do
    expect .leftParen
    let test ← (expr .or).descend depth
    expect .rightParen
    return test
  | _, .block, depth + 1 => do
    expect .leftBrace
    let body ← (statements #[]).descend depth
    expect .rightBrace
    return body
  | _, .statements read, depth + 1 => do
    match ← peek with
    | .rightBrace | .endOfInput => return read.toList
    | _ =>
      let following ← statement.descend depth
      (statements (read.push following)).descend depth
  | _, .routine, depth + 1 => do
    let position ← here
    expect .functionWord
    let name ← identifier
    expect .leftParen
    unless ← accept .rightParen do
      throw (.misplacedCall (.parameters name) (← here))
    return .routine position name (← block.descend depth)
  | _, .branch, depth + 1 => do
    let position ← here
    expect .ifWord
    let test ← condition.descend depth
    let body ← block.descend depth
    if ← accept .elseWord then
      if (← peek) = .ifWord then
        return .branch position test body [← branch.descend depth]
      return .branch position test body (← block.descend depth)
    return .branch position test body []
  | _, .whileLoop, depth + 1 => do
    let position ← here
    expect .whileWord
    let test ← condition.descend depth
    return .whileLoop position test (← block.descend depth)
  | _, .forLoop, depth + 1 => do
    let position ← here
    expect .forWord
    expect .leftParen
    let init ← simple.descend depth
    expect .semicolon
    let test ← (expr .or).descend depth
    expect .semicolon
    let step ← simple.descend depth
    expect .rightParen
    return .forLoop position init test step (← block.descend depth)
  | _, .ret, depth + 1 => do
    let position ← here
    expect .returnWord
    if ← accept .semicolon then
      return .ret position none
    let value ← (expr .or).descend depth
    expect .semicolon
    return .ret position (some value)
  | _, .statement, depth + 1 => do
    match ← peek with
    | .functionWord => routine.descend depth
    | .ifWord => branch.descend depth
    | .whileWord => whileLoop.descend depth
    | .forWord => forLoop.descend depth
    | .returnWord => ret.descend depth
    | _ =>
      let statement ← simple.descend depth
      expect .semicolon
      return statement
  | _, .program read, depth + 1 => do
    if (← peek) = .endOfInput then return read.toList
    let following ← statement.descend depth
    (program (read.push following)).descend depth

theorem descend_logical (op : LogicalOp) (depth : Nat) : (expr (.ofLogical op)).descend (depth + 1) =
    (expr (Rank.ofLogical op).tighter).descend depth >>= fun first => (chain op first).descend depth := by
  cases op with
  | and | or => rfl

theorem descend_operands (op : LogicalOp) (read : List Expr) (depth : Nat) : (operands op read).descend (depth + 1) =
    accept? (fun kind => if isConnective op kind then some () else none) >>= fun found =>
      found.elim (pure read.reverse) fun _ => (expr (Rank.ofLogical op).tighter).descend depth >>= fun operand =>
        (operands op (operand :: read)).descend depth := by
  rw [descend]
  congr 1
  funext found
  cases found with
  | none | some => rfl

theorem descend_stages (read : List (Relation × Expr)) (depth : Nat) : (stages read).descend (depth + 1) =
    accept? relation? >>= fun found => found.elim (pure read.reverse) fun relation =>
      (expr .bitOr).descend depth >>= fun operand => (stages ((relation, operand) :: read)).descend depth := by
  rw [descend]
  congr 1
  funext found
  cases found with
  | none | some => rfl

/-- Binary operators of one rank are read from left to right. -/
theorem descend_binary (rank : Rank) (binary : rank.operators ≠ []) (depth : Nat) : (expr rank).descend (depth + 1) =
    (expr rank.tighter).descend depth >>= fun first => (joined rank first).descend depth := by
  cases rank with
  | bitOr | bitXor | bitAnd | shift | sum | term => rfl
  | _ => exact absurd rfl binary

/-- Behind an operand, further operators of its rank are joined to the left. -/
theorem descend_joined (rank : Rank) (left : Expr) (depth : Nat) : (joined rank left).descend (depth + 1) =
    accept? rank.operator? >>= fun found => found.elim (pure left) fun op =>
      (expr rank.tighter).descend depth >>= fun right =>
        (joined rank (.binary left.position op left right)).descend depth := by
  rw [descend]
  congr 1
  funext found
  cases found with
  | none | some => rfl

/-- The marks of an operator before one operand, as its reader tells them. -/
def isMark : UnaryOp → TokenKind → Bool
  | .not => isNot
  | .negate => (· = .minus)

/-- Marks of a unary operator are read from the outside to the inside. -/
theorem descend_unary (op : UnaryOp) (depth : Nat) : (expr (.ofUnary op)).descend (depth + 1) =
    here >>= fun position => peek >>= fun kind =>
      if isMark op kind then
        advance >>= fun _ => (expr (.ofUnary op)).descend depth >>= fun operand =>
          pure (.unary position op operand)
      else (expr (Rank.ofUnary op).tighter).descend depth := by
  cases op with
  | not => rfl
  | negate => simp [isMark, Rank.ofUnary, Rank.tighter, descend]

end Nonterminal

end Dcpu.Source
