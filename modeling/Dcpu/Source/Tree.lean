import Dcpu.Source.Position
import Dcpu.Word

/-! # Syntax trees of the source language

Every node carries the position it is reported at: that of its leftmost operand for operators that
stand between or after operands, and that of its first token otherwise.
-/

namespace Dcpu.Source

/-- Operators on two words. -/
inductive BinaryOp where
  | add
  | sub
  | mul
  | div
  | mod
  | bitAnd
  | bitOr
  | bitXor
  | shiftLeft
  | shiftRight
  | power
deriving DecidableEq, Repr, Inhabited

def BinaryOp.symbol : BinaryOp → String
  | add => "+"
  | sub => "-"
  | mul => "*"
  | div => "/"
  | mod => "%"
  | bitAnd => "&"
  | bitOr => "|"
  | bitXor => "^"
  | shiftLeft => "<<"
  | shiftRight => ">>"
  | power => "**"

/-- Operators before one operand. -/
inductive UnaryOp where
  | not
  | negate
deriving DecidableEq, Repr, Inhabited

def UnaryOp.symbol : UnaryOp → String
  | not => "not"
  | negate => "-"

/-- Connectives over a row of operands, of which only a first part may be evaluated. -/
inductive LogicalOp where
  | and
  | or
deriving DecidableEq, Repr, Inhabited

/-- How messages name a connective. -/
def LogicalOp.title : LogicalOp → String
  | and => "And"
  | or => "Or"

/-- Relations between two words, taken as unsigned numbers. -/
inductive Relation where
  | equal
  | notEqual
  | less
  | lessEqual
  | greater
  | greaterEqual
deriving DecidableEq, Repr, Inhabited

def Relation.symbol : Relation → String
  | equal => "=="
  | notEqual => "!="
  | less => "<"
  | lessEqual => "<="
  | greater => ">"
  | greaterEqual => ">="

/-- Expressions. A comparison is a first operand and a chain of stages, each a relation to the next
operand; routines take no arguments, so a call is only a name. -/
inductive Expr where
  | number (position : Position) (value : Word)
  | name (position : Position) (name : String)
  | index (position : Position) (base index : Expr)
  | call (position : Position) (routine : String)
  | binary (position : Position) (op : BinaryOp) (left right : Expr)
  | unary (position : Position) (op : UnaryOp) (operand : Expr)
  | logical (position : Position) (op : LogicalOp) (operands : List Expr)
  | compare (position : Position) (first : Expr) (stages : List (Relation × Expr))
deriving Repr, Inhabited

/-- The forms of expressions, as messages tell them apart. -/
inductive ExprForm where
  | number
  | name
  | index
  | call
  | binary
  | unary
  | logical
  | compare
deriving DecidableEq, Repr, Inhabited

def ExprForm.text : ExprForm → String
  | number => "an integer literal"
  | name => "a name"
  | index => "an indexed access"
  | call => "a call"
  | binary => "an arithmetic expression"
  | unary => "a unary expression"
  | logical => "a boolean expression"
  | compare => "a comparison"

namespace Expr

def position : Expr → Position
  | number position _ => position
  | name position _ => position
  | index position _ _ => position
  | call position _ => position
  | binary position _ _ _ => position
  | unary position _ _ => position
  | logical position _ _ => position
  | compare position _ _ => position

def form : Expr → ExprForm
  | number .. => .number
  | name .. => .name
  | index .. => .index
  | call .. => .call
  | binary .. => .binary
  | unary .. => .unary
  | logical .. => .logical
  | compare .. => .compare

end Expr

/-- Statements. An `else if` is a conditional whose alternative is one conditional; an assignment
writes its value to each of its targets. -/
inductive Stmt where
  | routine (position : Position) (name : String) (body : List Stmt)
  | ret (position : Position) (value : Option Expr)
  | branch (position : Position) (test : Expr) (body alternative : List Stmt)
  | whileLoop (position : Position) (test : Expr) (body : List Stmt)
  | forLoop (position : Position) (init : Stmt) (test : Expr) (step : Stmt) (body : List Stmt)
  | assign (position : Position) (targets : List Expr) (value : Expr)
  | evaluate (position : Position) (value : Expr)
deriving Repr, Inhabited

def Stmt.position : Stmt → Position
  | routine position _ _ => position
  | ret position _ => position
  | branch position _ _ _ => position
  | whileLoop position _ _ => position
  | forLoop position _ _ _ _ => position
  | assign position _ _ => position
  | evaluate position _ => position

/-- A program is the list of its top-level statements. -/
abbrev Program := List Stmt

end Dcpu.Source
