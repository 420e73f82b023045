import Dcpu.Proofs.Source.Routines

/-! # Routines and calls in the order of their code

The code of a program begins routines and makes calls. Here both are listed from the tree alone, each call
with what the expressions around it are to those that they stand in. Which operands are kept while the code of
another one runs is told by these roles, and so is the number of slots that are held at a call.
-/

namespace Dcpu.Source

/-- What an expression is to the expression or the assignment that it stands in directly. -/
inductive Role where
  | base
  | subscript
  | left
  | right
  | negated
  | connected
  | first
  | later
  | assigned
  | target
deriving DecidableEq, Repr

/-- The slots that are held by what stands around an expression. A left operand is kept during the right one,
both sides of a comparison during each operand but the first, a value while it is assigned to its targets, and a
subscript during its base. -/
def slotsAround (around : List Role) : Nat :=
  around.count .right + 2 * around.count .later + around.count .target + around.count .base

def Role.slots : Role → Nat
  | .right | .target | .base => 1
  | .later => 2
  | .subscript | .left | .negated | .connected | .first | .assigned => 0

/-- A part of an expression holds the slots around the whole and those of its own role. -/
theorem slotsAround_within {around : List Role} {held : Nat} (holds : slotsAround around = held) (role : Role) :
    slotsAround (role :: around) = held + role.slots := by
  subst holds
  cases role <;> simp [slotsAround, Role.slots] <;> omega

/-- A call: the routine, the position, and the roles of the call and of the expressions around it, the
innermost first. -/
structure CallSite where
  routine : String
  position : Position
  around : List Role
deriving DecidableEq, Repr

mutual

/-- The calls in an expression in the order of their code, given what the expression is to those around it. -/
def Expr.callSites (around : List Role) : Expr → List CallSite
  | .number .. => []
  | .name .. => []
  | .index _ base index => index.callSites (.subscript :: around) ++ base.callSites (.base :: around)
  | .call position routine => [⟨routine, position, around⟩]
  | .binary _ _ left right => left.callSites (.left :: around) ++ right.callSites (.right :: around)
  | .unary _ _ operand => operand.callSites (.negated :: around)
  | .logical _ _ operands => callSitesOfAll (.connected :: around) operands
  | .compare _ first stages =>
    first.callSites (.first :: around) ++ callSitesOfStages (.later :: around) stages

def callSitesOfAll (around : List Role) : List Expr → List CallSite
  | [] => []
  | operand :: operands => operand.callSites around ++ callSitesOfAll around operands

def callSitesOfStages (around : List Role) : List (Relation × Expr) → List CallSite
  | [] => []
  | (_, operand) :: stages => operand.callSites around ++ callSitesOfStages around stages

end

/-- What code begins or does: the beginning of a routine, or a call. -/
inductive Landmark where
  | routine (name : String) (position : Position)
  | call (site : CallSite)
deriving DecidableEq, Repr

namespace Landmark

def routine? : Landmark → Option String
  | routine name _ => some name
  | call _ => none

def site? : Landmark → Option CallSite
  | routine .. => none
  | call site => some site

end Landmark

mutual

/-- The routines and calls in a statement in the order of their code. The value of an assignment comes before
its targets, and the step of a loop behind its body. -/
def Stmt.landmarks : Stmt → List Landmark
  | .routine position name body => .routine name position :: landmarksIn body
  | .ret _ none => []
  | .ret _ (some value) => (value.callSites []).map .call
  | .branch _ test body alternative =>
    (test.callSites []).map .call ++ (landmarksIn body ++ landmarksIn alternative)
  | .whileLoop _ test body => (test.callSites []).map .call ++ landmarksIn body
  | .forLoop _ init test step body =>
    init.landmarks ++ ((test.callSites []).map .call ++ (landmarksIn body ++ step.landmarks))
  | .assign _ targets value =>
    (value.callSites [.assigned]).map .call ++ (callSitesOfAll [.target] targets).map .call
  | .evaluate _ value => (value.callSites []).map .call

def landmarksIn : List Stmt → List Landmark
  | [] => []
  | statement :: statements => statement.landmarks ++ landmarksIn statements

end

def callSitesIn (program : Program) : List CallSite :=
  (landmarksIn program).filterMap Landmark.site?

theorem filterMap_routine?_call (sites : List CallSite) :
    (sites.map Landmark.call).filterMap Landmark.routine? = [] := by
  simp [List.filterMap_map, Function.comp_def, Landmark.routine?]

mutual

/-- The routines among the landmarks of a statement are all its routines. -/
theorem Stmt.filterMap_routine?_landmarks (statement : Stmt) :
    statement.landmarks.filterMap Landmark.routine? = statement.routines := by
  cases statement with
  | routine position name body =>
    simp only [Stmt.landmarks, Stmt.routines, List.filterMap_cons, Landmark.routine?,
      filterMap_routine?_landmarksIn body]
  | ret position value =>
    cases value with
    | none => rfl
    | some value => exact filterMap_routine?_call _
  | branch position test body alternative =>
    simp only [Stmt.landmarks, Stmt.routines, List.filterMap_append, filterMap_routine?_call, List.nil_append,
      filterMap_routine?_landmarksIn body, filterMap_routine?_landmarksIn alternative]
  | whileLoop position test body =>
    simp only [Stmt.landmarks, Stmt.routines, List.filterMap_append, filterMap_routine?_call, List.nil_append,
      filterMap_routine?_landmarksIn body]
  | forLoop position init test step body =>
    simp only [Stmt.landmarks, Stmt.routines, List.filterMap_append, filterMap_routine?_call, List.nil_append,
      init.filterMap_routine?_landmarks, filterMap_routine?_landmarksIn body, step.filterMap_routine?_landmarks]
  | assign position targets value =>
    simp only [Stmt.landmarks, Stmt.routines, List.filterMap_append, filterMap_routine?_call, List.append_nil]
  | evaluate position value => exact filterMap_routine?_call _

/-- The routines among the landmarks are those of the block. -/
theorem filterMap_routine?_landmarksIn (statements : List Stmt) :
    (landmarksIn statements).filterMap Landmark.routine? = routinesIn statements := by
  cases statements with
  | nil => rfl
  | cons statement statements =>
    simp only [landmarksIn, routinesIn, List.filterMap_append, statement.filterMap_routine?_landmarks,
      filterMap_routine?_landmarksIn statements]

end

end Dcpu.Source
