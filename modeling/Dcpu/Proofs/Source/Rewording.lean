import Dcpu.CompileError

/-! # Trees with other positions and names

A rewording changes the positions in a tree and the names of its variables, and nothing else. The rewording
that forgets where things stood leaves of a tree what the grammar says of it. Errors are blamed on other
positions likewise.
-/

namespace Dcpu.Source

/-- A change of the positions in trees and of the names of variables. -/
structure Rewording where
  place : Position → Position
  name : String → String

def Position.nowhere : Position := ⟨0, 0⟩

def Rewording.same : Rewording := ⟨id, id⟩

@[simp] theorem Rewording.place_same (position : Position) : Rewording.same.place position = position := rfl

/-- The rewording that forgets positions. -/
def Rewording.displaced : Rewording := ⟨fun _ => .nowhere, id⟩

mutual

def Expr.reworded (wording : Rewording) : Expr → Expr
  | .number position value => .number (wording.place position) value
  | .name position name => .name (wording.place position) (wording.name name)
  | .index position base index =>
    .index (wording.place position) (base.reworded wording) (index.reworded wording)
  | .call position routine => .call (wording.place position) routine
  | .binary position op left right =>
    .binary (wording.place position) op (left.reworded wording) (right.reworded wording)
  | .unary position op operand => .unary (wording.place position) op (operand.reworded wording)
  | .logical position op operands => .logical (wording.place position) op (rewordedAll wording operands)
  | .compare position first stages =>
    .compare (wording.place position) (first.reworded wording) (rewordedStages wording stages)

def rewordedAll (wording : Rewording) : List Expr → List Expr
  | [] => []
  | operand :: operands => operand.reworded wording :: rewordedAll wording operands

def rewordedStages (wording : Rewording) : List (Relation × Expr) → List (Relation × Expr)
  | [] => []
  | (relation, operand) :: stages => (relation, operand.reworded wording) :: rewordedStages wording stages

end

mutual

/-- A statement with other positions and names. Routines keep their names. -/
def Stmt.reworded (wording : Rewording) : Stmt → Stmt
  | .routine position name body => .routine (wording.place position) name (rewordedIn wording body)
  | .ret position none => .ret (wording.place position) none
  | .ret position (some value) => .ret (wording.place position) (some (value.reworded wording))
  | .branch position test body alternative =>
    .branch (wording.place position) (test.reworded wording) (rewordedIn wording body)
      (rewordedIn wording alternative)
  | .whileLoop position test body =>
    .whileLoop (wording.place position) (test.reworded wording) (rewordedIn wording body)
  | .forLoop position init test step body =>
    .forLoop (wording.place position) (init.reworded wording) (test.reworded wording)
      (step.reworded wording) (rewordedIn wording body)
  | .assign position targets value =>
    .assign (wording.place position) (rewordedAll wording targets) (value.reworded wording)
  | .evaluate position value => .evaluate (wording.place position) (value.reworded wording)

def rewordedIn (wording : Rewording) : List Stmt → List Stmt
  | [] => []
  | statement :: statements => statement.reworded wording :: rewordedIn wording statements

end

section Rows

variable (wording : Rewording)

theorem rewordedAll_eq_map (operands : List Expr) :
    rewordedAll wording operands = operands.map (Expr.reworded wording) := by
  induction operands with
  | nil => rfl
  | cons operand operands ih => rw [rewordedAll, ih, List.map_cons]

theorem rewordedStages_eq_map (stages : List (Relation × Expr)) :
    rewordedStages wording stages = stages.map (Prod.map id (Expr.reworded wording)) := by
  induction stages with
  | nil => rfl
  | cons stage stages ih => rw [rewordedStages, ih, List.map_cons]; rfl

theorem rewordedIn_eq_map (statements : List Stmt) :
    rewordedIn wording statements = statements.map (Stmt.reworded wording) := by
  induction statements with
  | nil => rfl
  | cons statement statements ih => rw [rewordedIn, ih, List.map_cons]

end Rows

section Same

mutual

@[simp] theorem Expr.reworded_same (expr : Expr) : expr.reworded .same = expr := by
  cases expr with
  | number position value => rfl
  | name position name => rfl
  | index position base index => simp only [Expr.reworded, Expr.reworded_same, Rewording.place_same]
  | call position routine => rfl
  | binary position op left right => simp only [Expr.reworded, Expr.reworded_same, Rewording.place_same]
  | unary position op operand => simp only [Expr.reworded, Expr.reworded_same, Rewording.place_same]
  | logical position op operands => simp only [Expr.reworded, rewordedAll_same, Rewording.place_same]
  | compare position first stages =>
    simp only [Expr.reworded, Expr.reworded_same, rewordedStages_same, Rewording.place_same]

@[simp] theorem rewordedAll_same (operands : List Expr) : rewordedAll .same operands = operands := by
  match operands with
  | [] => rfl
  | operand :: operands => rw [rewordedAll, operand.reworded_same, rewordedAll_same operands]

@[simp] theorem rewordedStages_same (stages : List (Relation × Expr)) :
    rewordedStages .same stages = stages := by
  match stages with
  | [] => rfl
  | (relation, operand) :: stages => rw [rewordedStages, operand.reworded_same, rewordedStages_same stages]

end

mutual

@[simp] theorem Stmt.reworded_same (statement : Stmt) : statement.reworded .same = statement := by
  cases statement with
  | routine position name body => simp only [Stmt.reworded, rewordedIn_same, Rewording.place_same]
  | ret position value =>
    cases value with
    | none => rfl
    | some value => simp only [Stmt.reworded, Expr.reworded_same, Rewording.place_same]
  | branch position test body alternative =>
    simp only [Stmt.reworded, Expr.reworded_same, rewordedIn_same, Rewording.place_same]
  | whileLoop position test body =>
    simp only [Stmt.reworded, Expr.reworded_same, rewordedIn_same, Rewording.place_same]
  | forLoop position init test step body =>
    simp only [Stmt.reworded, Expr.reworded_same, Stmt.reworded_same, rewordedIn_same, Rewording.place_same]
  | assign position targets value =>
    simp only [Stmt.reworded, Expr.reworded_same, rewordedAll_same, Rewording.place_same]
  | evaluate position value => simp only [Stmt.reworded, Expr.reworded_same, Rewording.place_same]

@[simp] theorem rewordedIn_same (statements : List Stmt) : rewordedIn .same statements = statements := by
  match statements with
  | [] => rfl
  | statement :: statements => rw [rewordedIn, statement.reworded_same, rewordedIn_same statements]

end

end Same

namespace Expr

/-- What is left of an expression without its positions. -/
def unplaced (expr : Expr) : Expr :=
  expr.reworded .displaced

variable {position : Position}

@[simp] theorem unplaced_number {value : Word} :
    (number position value).unplaced = .number .nowhere value := rfl

@[simp] theorem unplaced_name {text : String} : (name position text).unplaced = .name .nowhere text := rfl

@[simp] theorem unplaced_index {base place : Expr} :
    (index position base place).unplaced = .index .nowhere base.unplaced place.unplaced := rfl

@[simp] theorem unplaced_call {routine : String} :
    (call position routine).unplaced = .call .nowhere routine := rfl

@[simp] theorem unplaced_binary {op : BinaryOp} {left right : Expr} :
    (binary position op left right).unplaced = .binary .nowhere op left.unplaced right.unplaced := rfl

@[simp] theorem unplaced_unary {op : UnaryOp} {operand : Expr} :
    (unary position op operand).unplaced = .unary .nowhere op operand.unplaced := rfl

@[simp] theorem unplaced_logical {op : LogicalOp} {operands : List Expr} :
    (logical position op operands).unplaced = .logical .nowhere op (operands.map unplaced) := by
  rw [unplaced, reworded, rewordedAll_eq_map]
  rfl

@[simp] theorem unplaced_compare {first : Expr} {stages : List (Relation × Expr)} :
    (compare position first stages).unplaced =
      .compare .nowhere first.unplaced (stages.map (Prod.map id unplaced)) := by
  rw [unplaced, reworded, rewordedStages_eq_map]
  rfl

end Expr

namespace Stmt

def unplaced (statement : Stmt) : Stmt :=
  statement.reworded .displaced

variable {position : Position} {body alternative : List Stmt} {test value : Expr}

@[simp] theorem unplaced_routine {name : String} :
    (routine position name body).unplaced = .routine .nowhere name (body.map unplaced) := by
  rw [unplaced, reworded, rewordedIn_eq_map]
  rfl

@[simp] theorem unplaced_ret {value : Option Expr} :
    (ret position value).unplaced = .ret .nowhere (value.map Expr.unplaced) := by
  cases value <;> rfl

@[simp] theorem unplaced_branch : (branch position test body alternative).unplaced =
    .branch .nowhere test.unplaced (body.map unplaced) (alternative.map unplaced) := by
  rw [unplaced, reworded, rewordedIn_eq_map, rewordedIn_eq_map]
  rfl

@[simp] theorem unplaced_whileLoop : (whileLoop position test body).unplaced =
    .whileLoop .nowhere test.unplaced (body.map unplaced) := by
  rw [unplaced, reworded, rewordedIn_eq_map]
  rfl

@[simp] theorem unplaced_forLoop {init step : Stmt} : (forLoop position init test step body).unplaced =
    .forLoop .nowhere init.unplaced test.unplaced step.unplaced (body.map unplaced) := by
  rw [unplaced, reworded, rewordedIn_eq_map]
  rfl

@[simp] theorem unplaced_assign {targets : List Expr} : (assign position targets value).unplaced =
    .assign .nowhere (targets.map Expr.unplaced) value.unplaced := by
  rw [unplaced, reworded, rewordedAll_eq_map]
  rfl

@[simp] theorem unplaced_evaluate :
    (evaluate position value).unplaced = .evaluate .nowhere value.unplaced := rfl

end Stmt

end Dcpu.Source

namespace Dcpu

open Source

def CompileError.blamedOn (place : Position → Position) : CompileError → CompileError
  | number fault position => .number fault (place position)
  | unexpectedCharacter c position => .unexpectedCharacter c (place position)
  | misplacedCall fault position => .misplacedCall fault (place position)
  | expected expectation found position => .expected expectation found (place position)
  | unsupported operator position => .unsupported operator (place position)
  | noAddress form position => .noAddress form (place position)
  | slots error position => .slots error (place position)
  | undefinedRoutine name position => .undefinedRoutine name (place position)
  | reservedName name clash position => .reservedName name clash (place position)
  | settings error => .settings error
  | file path reason => .file path reason

end Dcpu
