import Dcpu.Codegen.Emission

/-! # Code for expressions

The code of an expression leaves its value in register `a`, or the address of the place that it
denotes. Operands that must outlast other code are kept in slots for intermediate results.
-/

namespace Dcpu

open Source Gen

/-- What the code of an expression leaves in register `a`. -/
inductive Want where
  | value
  | address
deriving DecidableEq, Repr

/-- Register `a`, where results are left. -/
def Operand.a : Operand := .register .a

def Operand.atA : Operand := .indirect .a

/-- The operand that gives what is wanted of the word at an address. -/
def Want.operand : Want → Word → Operand
  | value, place => .memory place
  | address, place => .address place

def opcode? : BinaryOp → Option Opcode
  | .add => some .add
  | .sub => some .sub
  | .mul => some .mul
  | .div => some .div
  | .mod => some .mod
  | .bitAnd => some .and
  | .bitOr => some .bor
  | .bitXor => some .xor
  | .shiftLeft => some .shl
  | .shiftRight => some .shr
  | .power => none

/-- The tests of a relation, which holds when one of them passes. -/
def Source.Relation.tests : Relation → List Opcode
  | .equal => [.ife]
  | .notEqual => [.ifn]
  | .less => [.ifl]
  | .lessEqual => [.ifl, .ife]
  | .greater => [.ifg]
  | .greaterEqual => [.ifg, .ife]

/-- The value of an operand that settles a connective. -/
def Source.LogicalOp.settling : LogicalOp → Word
  | .and => 0
  | .or => 1

/-- The label that ends every program. -/
def endLabel : String := "end"

/-- The routine where a program is entered. -/
def startLabel : String := "start"

/-- The call that goes to the end of the program. -/
def exitCall : String := "exit"

/-- Set register `a` to one when the words at two addresses stand in a relation, else to zero. -/
def relationCode (relation : Relation) (left right : Word) : List Line :=
  .set .a (.literal 0) ::
    relation.tests.flatMap fun test =>
      [.basic test (.memory left) (.memory right), .set .a (.literal 1)]

/-- Code for a call. Slots that are held are not safe from the routine. -/
def callCode (routines : List String) (name : String) (position : Position) : Gen Unit := do
  if name = exitCall then emit (.jump endLabel)
  else if routines.contains name then
    let held := (← get).held
    if 0 < held then record (.callWhileHolding name position held)
    emit (.jsr name)
  else throw (.undefinedRoutine name position)

/-- The label behind a comparison with more than one stage. -/
def chainLabel? (stages : Nat) : Gen (Option String) := do
  if 1 < stages then return some (Tag.done (← nextTag Tag.comparison))
  return none

mutual

/-- Code for an expression, with the routines that may be called and the scope for names. -/
def exprCode (routines : List String) (scope : ScopeId) : Want → Expr → Gen Unit
  | want, .name position name => do
    let address ← addressOf name scope position
    emit (.set .a (want.operand address))
  | want, .index position base index => do
    exprCode routines scope .value index
    withScratch position fun slot => do
      emit (.set (.memory slot) .a)
      exprCode routines scope .address base
      emit (.basic .add .a (.memory slot))
    if want = .value then emit (.set .a .atA)
  | .address, expr => throw (.noAddress expr.form expr.position)
  | .value, .number _ value => emit (.set .a (.literal value))
  | .value, .call position routine => callCode routines routine position
  | .value, .binary position op left right =>
    match opcode? op with
    | none => throw (.unsupported .power position)
    | some opcode => do
      exprCode routines scope .value left
      withScratch position fun slot => do
        emit (.set (.memory slot) .a)
        exprCode routines scope .value right
        emit (.basic opcode (.memory slot) .a)
        emit (.set .a (.memory slot))
  | .value, .unary _ .not operand => do
    exprCode routines scope .value operand
    emit (.basic .xor .a (.literal 1))
  | .value, .unary position .negate _ => throw (.unsupported .negation position)
  | .value, .logical _ op operands => do
    let tag ← nextTag Tag.logical
    record (.connective op operands.length tag)
    operandsCode routines scope op (Tag.skip tag) operands
    emit (.label (Tag.skip tag))
  | .value, .compare position first stages => do
    let done ← chainLabel? stages.length
    exprCode routines scope .value first
    withScratch position fun left => do
      emit (.set (.memory left) .a)
      withScratch position fun right => stagesCode routines scope done left right stages
    emitAll (done.toList.map Line.label)

/-- Code for the operands of a connective. Behind each but the last, a value that settles the
connective goes to the given label. -/
def operandsCode (routines : List String) (scope : ScopeId) (op : LogicalOp) (skip : String) :
    List Expr → Gen Unit
  | [] => pure ()
  | [operand] => exprCode routines scope .value operand
  | operand :: operands => do
    exprCode routines scope .value operand
    emit (.basic .ife .a (.literal op.settling))
    emit (.jump skip)
    operandsCode routines scope op skip operands

/-- Code for the stages of a comparison, whose sides are kept at two addresses. Behind each stage but
the last, a stage that fails goes to the given label, and else its right side becomes the left. -/
def stagesCode (routines : List String) (scope : ScopeId) (done : Option String)
    (left right : Word) : List (Relation × Expr) → Gen Unit
  | [] => pure ()
  | (relation, operand) :: stages => do
    exprCode routines scope .value operand
    emit (.set (.memory right) .a)
    emitAll (relationCode relation left right)
    if let (some done, false) := (done, stages.isEmpty) then
      emitAll [.basic .ife .a (.literal 0), .jump done, .set (.memory left) (.memory right)]
    stagesCode routines scope done left right stages

end

end Dcpu
