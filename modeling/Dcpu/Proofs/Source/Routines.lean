import Dcpu.Codegen.Routine
import Dcpu.Proofs.Source.Structured

/-! # Calls and routines of a program

The calls and the routines of a program stand anywhere in it. Before code is made, the routines are
gathered from the blocks only; those are all where every loop is prepared and stepped by an assignment
or an expression.
-/

namespace Dcpu.Source

mutual

/-- The names that an expression calls, in the order of evaluation. -/
def Expr.calls : Expr → List String
  | .number .. => []
  | .name .. => []
  | .index _ base index => index.calls ++ base.calls
  | .call _ routine => [routine]
  | .binary _ _ left right => left.calls ++ right.calls
  | .unary _ _ operand => operand.calls
  | .logical _ _ operands => callsOfAll operands
  | .compare _ first stages => first.calls ++ callsOfStages stages

def callsOfAll : List Expr → List String
  | [] => []
  | operand :: operands => operand.calls ++ callsOfAll operands

def callsOfStages : List (Relation × Expr) → List String
  | [] => []
  | (_, operand) :: stages => operand.calls ++ callsOfStages stages

end

mutual

/-- The names that a statement calls, in the order of its code. -/
def Stmt.calls : Stmt → List String
  | .routine _ _ body => callsIn body
  | .ret _ none => []
  | .ret _ (some value) => value.calls
  | .branch _ test body alternative => test.calls ++ (callsIn body ++ callsIn alternative)
  | .whileLoop _ test body => test.calls ++ callsIn body
  | .forLoop _ init test step body => init.calls ++ (test.calls ++ (callsIn body ++ step.calls))
  | .assign _ targets value => value.calls ++ callsOfAll targets
  | .evaluate _ value => value.calls

def callsIn : List Stmt → List String
  | [] => []
  | statement :: statements => statement.calls ++ callsIn statements

end

mutual

/-- The names of all routines in a statement, in the order of its code. -/
def Stmt.routines : Stmt → List String
  | .routine _ name body => name :: routinesIn body
  | .branch _ _ body alternative => routinesIn body ++ routinesIn alternative
  | .whileLoop _ _ body => routinesIn body
  | .forLoop _ init _ step body => init.routines ++ (routinesIn body ++ step.routines)
  | .ret .. | .assign .. | .evaluate .. => []

def routinesIn : List Stmt → List String
  | [] => []
  | statement :: statements => statement.routines ++ routinesIn statements

end

mutual

/-- Whether the loops in a statement are prepared and stepped by an assignment or an expression. -/
def Stmt.hasSimpleLoops : Stmt → Bool
  | .routine _ _ body => simpleLoopsIn body
  | .branch _ _ body alternative => simpleLoopsIn body && simpleLoopsIn alternative
  | .whileLoop _ _ body => simpleLoopsIn body
  | .forLoop _ init _ step body => init.isSimple && step.isSimple && simpleLoopsIn body
  | .ret .. | .assign .. | .evaluate .. => true

def simpleLoopsIn : List Stmt → Bool
  | [] => true
  | statement :: statements => statement.hasSimpleLoops && simpleLoopsIn statements

end

theorem Stmt.routines_of_isSimple {statement : Stmt} (simple : statement.isSimple = true) :
    statement.routines = [] := by
  cases statement with
  | assign | evaluate => rfl
  | routine | ret | branch | whileLoop | forLoop => cases simple

mutual

/-- The routines that are gathered from a statement are all its routines if its loops are simple. -/
theorem Stmt.definitions_of_hasSimpleLoops (statement : Stmt) (simple : statement.hasSimpleLoops = true) :
    statement.definitions.map Prod.fst = statement.routines := by
  cases statement with
  | routine position name body =>
    simp only [Stmt.definitions, Stmt.routines, List.map_cons]
    rw [definitionsIn_of_simpleLoopsIn body simple]
  | branch position test body alternative =>
    simp only [Stmt.hasSimpleLoops, Bool.and_eq_true] at simple
    simp only [Stmt.definitions, Stmt.routines, List.map_append]
    rw [definitionsIn_of_simpleLoopsIn body simple.1, definitionsIn_of_simpleLoopsIn alternative simple.2]
  | whileLoop position test body => exact definitionsIn_of_simpleLoopsIn body simple
  | forLoop position init test step body =>
    simp only [Stmt.hasSimpleLoops, Bool.and_eq_true] at simple
    obtain ⟨⟨initSimple, stepSimple⟩, bodySimple⟩ := simple
    simp only [Stmt.definitions, Stmt.routines, Stmt.routines_of_isSimple initSimple,
      Stmt.routines_of_isSimple stepSimple, List.nil_append, List.append_nil]
    exact definitionsIn_of_simpleLoopsIn body bodySimple
  | ret | assign | evaluate => rfl

/-- The routines that are gathered from statements are all their routines if their loops are simple. -/
theorem definitionsIn_of_simpleLoopsIn (statements : List Stmt) (simple : simpleLoopsIn statements = true) :
    (definitionsIn statements).map Prod.fst = routinesIn statements := by
  cases statements with
  | nil => rfl
  | cons statement statements =>
    simp only [simpleLoopsIn, Bool.and_eq_true] at simple
    simp only [definitionsIn, routinesIn, List.map_append]
    rw [statement.definitions_of_hasSimpleLoops simple.1,
      definitionsIn_of_simpleLoopsIn statements simple.2]

end

end Dcpu.Source
