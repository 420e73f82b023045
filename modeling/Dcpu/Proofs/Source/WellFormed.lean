import Dcpu.Codegen.Expression
import Dcpu.Codegen.Routine

/-! # Well-formed programs

A program is well formed if its routines have names that are free for routines, its calls are of these
routines or leave the program, no operator lacks an instruction, and what is assigned to or indexed
denotes a place. All this is said of the expressions that occur anywhere in the program, however deep.
-/

namespace Dcpu.Source

/-- Whether an expression denotes a place in memory: a name or an index. -/
def Expr.isPlace : Expr → Bool
  | .name .. | .index .. => true
  | _ => false

mutual

/-- An expression and all expressions inside it. -/
def Expr.nodes : Expr → List Expr
  | .number position value => [.number position value]
  | .name position name => [.name position name]
  | .index position base index => .index position base index :: (base.nodes ++ index.nodes)
  | .call position routine => [.call position routine]
  | .binary position op left right => .binary position op left right :: (left.nodes ++ right.nodes)
  | .unary position op operand => .unary position op operand :: operand.nodes
  | .logical position op operands => .logical position op operands :: nodesOfAll operands
  | .compare position first stages =>
    .compare position first stages :: (first.nodes ++ nodesOfStages stages)

def nodesOfAll : List Expr → List Expr
  | [] => []
  | operand :: operands => operand.nodes ++ nodesOfAll operands

def nodesOfStages : List (Relation × Expr) → List Expr
  | [] => []
  | (_, operand) :: stages => operand.nodes ++ nodesOfStages stages

end

mutual

/-- All expressions in a statement. -/
def Stmt.nodes : Stmt → List Expr
  | .routine _ _ body => nodesIn body
  | .ret _ none => []
  | .ret _ (some value) => value.nodes
  | .branch _ test body alternative => test.nodes ++ nodesIn body ++ nodesIn alternative
  | .whileLoop _ test body => test.nodes ++ nodesIn body
  | .forLoop _ init test step body => init.nodes ++ test.nodes ++ step.nodes ++ nodesIn body
  | .assign _ targets value => nodesOfAll targets ++ value.nodes
  | .evaluate _ value => value.nodes

def nodesIn : List Stmt → List Expr
  | [] => []
  | statement :: statements => statement.nodes ++ nodesIn statements

end

mutual

/-- The targets of all assignments in a statement. -/
def Stmt.targets : Stmt → List Expr
  | .routine _ _ body => targetsIn body
  | .branch _ _ body alternative => targetsIn body ++ targetsIn alternative
  | .whileLoop _ _ body => targetsIn body
  | .forLoop _ init _ step body => init.targets ++ step.targets ++ targetsIn body
  | .assign _ targets _ => targets
  | .ret .. | .evaluate .. => []

def targetsIn : List Stmt → List Expr
  | [] => []
  | statement :: statements => statement.targets ++ targetsIn statements

end

/-- Whether there is nothing wrong with an expression itself, where the given routines may be called: a
call is of one of them or leaves the program, an operator has an instruction, and the base of an index
is a place. -/
def Expr.fits (routines : List String) : Expr → Bool
  | .call _ routine => routine == exitCall || routines.contains routine
  | .unary _ op _ => op != .negate
  | .binary _ op _ _ => op != .power
  | .index _ base _ => base.isPlace
  | .number .. | .name .. | .logical .. | .compare .. => true

/-- Whether the routines that are gathered from a program have names without a clash, all expressions in
it fit, and all assignments are to places. -/
def Program.isWellFormed (program : Program) : Bool :=
  (definitionsIn program).all (fun definition => (nameClash? definition.1).isNone) &&
    (nodesIn program).all (Expr.fits ((definitionsIn program).map Prod.fst)) &&
    (targetsIn program).all Expr.isPlace

end Dcpu.Source
