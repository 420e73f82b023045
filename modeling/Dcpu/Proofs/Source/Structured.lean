import Dcpu.Slots.Basic
import Dcpu.Source.Tree

/-! # Structured programs

Structured programs are made of assignments, conditionals and loops. They begin by giving a number to
every variable they use, and subscripts go out from the screen.
-/

namespace Dcpu.Source

/-- Whether an expression is the screen or goes out from it by subscripts. -/
def Expr.isRooted : Expr → Bool
  | .name _ ident => Slots.isScreen ident
  | .index _ base _ => base.isRooted
  | _ => false

mutual

/-- Whether an expression has a meaning without routines: no call, no negation and no power, no
connective or comparison without operands, and no subscript but on the screen. -/
def Expr.isStructured : Expr → Bool
  | .number .. => true
  | .name .. => true
  | .index _ base index => base.isRooted && base.isStructured && index.isStructured
  | .call .. => false
  | .binary _ op left right => op != .power && left.isStructured && right.isStructured
  | .unary _ op operand => op == .not && operand.isStructured
  | .logical _ _ operands => !operands.isEmpty && allStructured operands
  | .compare _ first stages => !stages.isEmpty && first.isStructured && stagesStructured stages

def allStructured : List Expr → Bool
  | [] => true
  | operand :: operands => operand.isStructured && allStructured operands

def stagesStructured : List (Relation × Expr) → Bool
  | [] => true
  | (_, operand) :: stages => operand.isStructured && stagesStructured stages

end

mutual

def Expr.names : Expr → List String
  | .number .. => []
  | .name _ name => [name]
  | .index _ base index => base.names ++ index.names
  | .call .. => []
  | .binary _ _ left right => left.names ++ right.names
  | .unary _ _ operand => operand.names
  | .logical _ _ operands => namesOfAll operands
  | .compare _ first stages => first.names ++ namesOfStages stages

def namesOfAll : List Expr → List String
  | [] => []
  | operand :: operands => operand.names ++ namesOfAll operands

def namesOfStages : List (Relation × Expr) → List String
  | [] => []
  | (_, operand) :: stages => operand.names ++ namesOfStages stages

end

/-- Whether a statement is an assignment or an expression. -/
def Stmt.isSimple : Stmt → Bool
  | .assign .. => true
  | .evaluate .. => true
  | _ => false

mutual

/-- Whether a statement is made of assignments, expressions, conditionals and loops whose expressions
are structured. A loop is prepared and stepped by an assignment or an expression. -/
def Stmt.isStructured : Stmt → Bool
  | .routine .. => false
  | .ret .. => false
  | .branch _ test body alternative =>
    test.isStructured && blockStructured body && blockStructured alternative
  | .whileLoop _ test body => test.isStructured && blockStructured body
  | .forLoop _ init test step body =>
    init.isSimple && init.isStructured && test.isStructured && step.isSimple && step.isStructured &&
      blockStructured body
  | .assign _ targets value => !targets.isEmpty && allStructured targets && value.isStructured
  | .evaluate _ value => value.isStructured

def blockStructured : List Stmt → Bool
  | [] => true
  | statement :: statements => statement.isStructured && blockStructured statements

end

mutual

def Stmt.names : Stmt → List String
  | .routine _ _ body => namesOfBlock body
  | .ret _ value => (value.map Expr.names).getD []
  | .branch _ test body alternative => test.names ++ namesOfBlock body ++ namesOfBlock alternative
  | .whileLoop _ test body => test.names ++ namesOfBlock body
  | .forLoop _ init test step body => init.names ++ test.names ++ step.names ++ namesOfBlock body
  | .assign _ targets value => namesOfAll targets ++ value.names
  | .evaluate _ value => value.names

def namesOfBlock : List Stmt → List String
  | [] => []
  | statement :: statements => statement.names ++ namesOfBlock statements

end

/-- The name that a statement gives a number, if it does nothing else. -/
def Stmt.initialised? : Stmt → Option String
  | .assign _ [.name _ name] (.number _ _) => some name
  | _ => none

/-- The names that a program gives numbers before anything else. -/
def initialisedNames : List Stmt → List String
  | [] => []
  | statement :: statements =>
    match statement.initialised? with
    | some name => name :: initialisedNames statements
    | none => []

/-- Whether a program is structured and gives a number to each of its variables first. -/
def Program.isStructured (program : Program) : Bool :=
  blockStructured program && (namesOfBlock program).all fun name =>
    Slots.isScreen name || (initialisedNames program).contains name

end Dcpu.Source
