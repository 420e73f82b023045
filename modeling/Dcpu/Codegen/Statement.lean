import Dcpu.Codegen.Expression

/-! # Code for statements

Bodies of routines, conditionals and loops have a scope of their own. A condition holds when its
value is one.
-/

namespace Dcpu

open Source Gen

/-- Go to a label unless register `a` is one. -/
def unlessHolds (label : String) : List Line :=
  [.basic .ifn .a (.literal 1), .jump label]

/-- Code for the targets of an assignment, whose value is kept at an address. -/
def targetsCode (routines : List String) (scope : ScopeId) (slot : Word) : List Expr → Gen Unit
  | [] => pure ()
  | target :: targets => do
    exprCode routines scope .address target
    emit (.set .atA (.memory slot))
    targetsCode routines scope slot targets

/-- Code for the test of a conditional and the way to its alternative; the tag is given back. -/
def branchHead (routines : List String) (scope : ScopeId) (test : Expr) : Gen String := do
  let tag ← nextTag Tag.conditional
  exprCode routines scope .value test
  emitAll (unlessHolds (Tag.alternative tag))
  return tag

/-- Code for the label of a loop, its test and the way out; the tag is given back. -/
def loopHead (routines : List String) (scope : ScopeId) (test : Expr) : Gen String := do
  let tag ← nextTag Tag.loop
  emit (.label (Tag.start tag))
  exprCode routines scope .value test
  emitAll (unlessHolds (Tag.ending tag))
  return tag

/-- Code for a loop around the code of its body. -/
def loopCode (routines : List String) (scope : ScopeId) (position : Position) (test : Expr)
    (body : ScopeId → Gen Unit) : Gen Unit := do
  let tag ← loopHead routines scope test
  inScope scope position body
  emit (.jump (Tag.start tag))
  emit (.label (Tag.ending tag))

/-- Whether a body ends by going back to its caller. -/
def endsByReturn (body : List Stmt) : Bool :=
  match body.getLast? with
  | some (.ret ..) => true
  | _ => false

/-- Whether a routine goes back to its caller at its end without being told to. -/
def returnsItself (name : String) (body : List Stmt) : Bool :=
  !endsByReturn body && name != startLabel && name != endLabel

mutual

/-- Code for a statement, with the routines that may be called and the scope it stands in. -/
def stmtCode (routines : List String) (scope : ScopeId) : Stmt → Gen Unit
  | .routine position name body => do
    record (.routine name position)
    emit (.label name)
    inScope scope position fun inner => blockCode routines inner body
    if returnsItself name body then emit .ret
  | .ret _ none => emit .ret
  | .ret _ (some value) => do
    exprCode routines scope .value value
    emit .ret
  | .branch position test body alternative => do
    let tag ← branchHead routines scope test
    inScope scope position fun inner => blockCode routines inner body
    emit (.jump (Tag.ending tag))
    emit (.label (Tag.alternative tag))
    inScope scope position fun inner => blockCode routines inner alternative
    emit (.label (Tag.ending tag))
  | .whileLoop position test body =>
    loopCode routines scope position test fun inner => blockCode routines inner body
  | .forLoop position init test step body => do
    stmtCode routines scope init
    loopCode routines scope position test fun inner => do
      blockCode routines inner body
      stmtCode routines inner step
  | .assign position targets value => do
    exprCode routines scope .value value
    withScratch position fun slot => do
      emit (.set (.memory slot) .a)
      targetsCode routines scope slot targets
  | .evaluate _ value => exprCode routines scope .value value

def blockCode (routines : List String) (scope : ScopeId) : List Stmt → Gen Unit
  | [] => pure ()
  | statement :: statements => do
    stmtCode routines scope statement
    blockCode routines scope statements

end

end Dcpu
