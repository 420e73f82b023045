import Dcpu.Source.Expression

/-! # Reading statements and programs

As for expressions, nesting and repetition are bounded by the number of tokens left.
-/

namespace Dcpu.Source

open Reader

/-- The statement of expressions joined by equal signs, given last first: the last is the value, and
the others are its targets. -/
def simpleOf (position : Position) (value : Expr) : List Expr → Stmt
  | [] => .evaluate position value
  | targets => .assign position targets.reverse value

/-- Read the rest of an assignment, behind expressions that are given last first. -/
def readAssigned (expr : Reader Expr) : Nat → Expr → List Expr → Reader (Expr × List Expr)
  | 0, value, targets => return (value, targets)
  | bound + 1, value, targets => do
    if ← accept .equal then
      readAssigned expr bound (← expr) (value :: targets)
    else return (value, targets)

/-- Read an assignment or an expression, without a semicolon. -/
def readSimple (bound : Nat) : Reader Stmt := do
  let position ← here
  let first ← readExpr bound
  let (value, targets) ← readAssigned (readExpr bound) bound first []
  return simpleOf position value targets

/-- Read statements up to a closing brace or the end, behind those already read. -/
def readStmts (stmt : Reader Stmt) : Nat → Array Stmt → Reader (List Stmt)
  | 0, read => return read.toList
  | bound + 1, read => do
    match ← peek with
    | .rightBrace | .endOfInput => return read.toList
    | _ => readStmts stmt bound (read.push (← stmt))

def readBlock (bound : Nat) (stmt : Reader Stmt) : Reader (List Stmt) := do
  expect .leftBrace
  let body ← readStmts stmt bound #[]
  expect .rightBrace
  return body

def readCondition (bound : Nat) : Reader Expr := do
  expect .leftParen
  let test ← readExpr bound
  expect .rightParen
  return test

def readRoutine (bound : Nat) (stmt : Reader Stmt) : Reader Stmt := do
  let position ← here
  expect .functionWord
  let name ← identifier
  expect .leftParen
  unless ← accept .rightParen do
    throw (.misplacedCall (.parameters name) (← here))
  return .routine position name (← readBlock bound stmt)

/-- Read a conditional. Behind `else` stands another conditional or a block. -/
def readBranch (bound : Nat) (stmt : Reader Stmt) : Reader Stmt := do
  let position ← here
  expect .ifWord
  let test ← readCondition bound
  let body ← readBlock bound stmt
  if ← accept .elseWord then
    if (← peek) = .ifWord then
      return .branch position test body [← stmt]
    return .branch position test body (← readBlock bound stmt)
  return .branch position test body []

def readWhile (bound : Nat) (stmt : Reader Stmt) : Reader Stmt := do
  let position ← here
  expect .whileWord
  let test ← readCondition bound
  return .whileLoop position test (← readBlock bound stmt)

def readFor (bound : Nat) (stmt : Reader Stmt) : Reader Stmt := do
  let position ← here
  expect .forWord
  expect .leftParen
  let init ← readSimple bound
  expect .semicolon
  let test ← readExpr bound
  expect .semicolon
  let step ← readSimple bound
  expect .rightParen
  return .forLoop position init test step (← readBlock bound stmt)

def readReturn (bound : Nat) : Reader Stmt := do
  let position ← here
  expect .returnWord
  if ← accept .semicolon then
    return .ret position none
  let value ← readExpr bound
  expect .semicolon
  return .ret position (some value)

/-- Read a statement, given how to read one inside it. -/
def readStmtWith (bound : Nat) (stmt : Reader Stmt) : Reader Stmt := do
  match ← peek with
  | .functionWord => readRoutine bound stmt
  | .ifWord => readBranch bound stmt
  | .whileWord => readWhile bound stmt
  | .forWord => readFor bound stmt
  | .returnWord => readReturn bound
  | _ =>
    let statement ← readSimple bound
    expect .semicolon
    return statement

/-- Read a statement from a stream with at most the given number of tokens. -/
def readStmt : Nat → Reader Stmt
  | 0 => unexpected .expression
  | bound + 1 => readStmtWith (bound + 1) (readStmt bound)

/-- Read statements up to the end of the input, behind those already read. -/
def readAll (stmt : Reader Stmt) : Nat → Array Stmt → Reader Program
  | 0, read => return read.toList
  | bound + 1, read => do
    if (← peek) = .endOfInput then return read.toList
    readAll stmt bound (read.push (← stmt))

def readProgram : Reader Program := do
  let bound := (← get).tokens.length
  readAll (readStmt bound) bound #[]

/-- The program that tokens make up to the first end of the input. -/
def Program.ofTokens (tokens : List Token) : Except CompileError Program :=
  match readProgram (.ofTokens tokens) with
  | .ok program _ => .ok program
  | .error error _ => .error error

end Dcpu.Source
