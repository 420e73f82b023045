import Dcpu.Proofs.Codegen.Mentions
import Dcpu.Proofs.Codegen.Steps

/-! # Plans of code

The code of every expression and statement is put together from a few kinds of steps, and which steps these are
is a matter of the tree alone. A plan tells them before addresses, scopes and tags are drawn. What all code
generation does is shown by induction on plans, and what the plan of a tree has is read off the tree.
-/

namespace Dcpu

open Source Gen

section Readdressing

variable (address : Word → Word)

def Operand.readdressed : Operand → Operand
  | .memory place => .memory (address place)
  | .address place => .address (address place)
  | operand => operand

def Instruction.readdressed : Instruction → Instruction
  | .basic op b a => .basic op (b.readdressed address) (a.readdressed address)
  | .jsr target => .jsr (target.readdressed address)

def Line.readdressed : Line → Line
  | .label name => .label name
  | .instruction body => .instruction (body.readdressed address)

def Listing.readdressed (listing : Listing) : Listing :=
  listing.map (Line.readdressed address)

@[simp] theorem Operand.readdressed_memory (place : Word) :
    (Operand.memory place).readdressed address = .memory (address place) := rfl

@[simp] theorem Operand.readdressed_literal (value : Word) :
    (Operand.literal value).readdressed address = .literal value := rfl

@[simp] theorem Operand.readdressed_a : Operand.a.readdressed address = .a := rfl

@[simp] theorem Operand.readdressed_atA : Operand.atA.readdressed address = .atA := rfl

@[simp] theorem Line.readdressed_basic (op : Opcode) (b a : Operand) :
    (Line.basic op b a).readdressed address = .basic op (b.readdressed address) (a.readdressed address) := rfl

@[simp] theorem Line.readdressed_set (b a : Operand) :
    (Line.set b a).readdressed address = .set (b.readdressed address) (a.readdressed address) := rfl

/-- A comparison with other addresses compares other words. -/
theorem relationCode_readdressed (relation : Relation) (left right : Word) :
    relationCode relation (address left) (address right) =
      (relationCode relation left right).map (Line.readdressed address) := by
  cases relation <;> rfl

end Readdressing

inductive Mark where
  | start
  | ending
  | alternative
  | skip
  | done
deriving DecidableEq, Repr

def Mark.label : Mark → String → String
  | start => Tag.start
  | ending => Tag.ending
  | alternative => Tag.alternative
  | skip => Tag.skip
  | done => Tag.done

/-- The steps that code is put together from. Lines name slots for intermediate results by number, from the one
that was taken last, and labels are of the tag that was drawn last. What stands behind a refusal is never
reached, but tells of the rest of the tree. -/
inductive Plan where
  | nothing
  | noAddress (form : ExprForm) (position : Position)
  | unsupported (operator : Unsupported) (position : Position)
  | plain (line : Line)
  | jump (mark : Mark)
  | label (mark : Mark)
  | ret
  | connective (op : LogicalOp) (operands : Nat)
  | entry (name : String) (position : Position)
  | access (want : Want) (name : String) (position : Position)
  | call (name : String) (position : Position)
  | both (first second : Plan)
  | keeping (position : Position) (body : Plan)
  | inside (position : Position) (body : Plan)
  | tagged (stem : String) (body : Plan)

namespace Plan

instance : Append Plan := ⟨both⟩

def slotAt (slots : List Word) (number : Word) : Word :=
  slots.getD number.toNat 0

@[simp] theorem slotAt_zero (slot : Word) (slots : List Word) : slotAt (slot :: slots) 0 = slot := rfl

@[simp] theorem slotAt_one (slot next : Word) (slots : List Word) : slotAt (slot :: next :: slots) 1 = next := rfl

/-- The steps of a plan in a scope, with the slots and the tag that its lines and labels are for. -/
def code (routines : List String) : Plan → ScopeId → List Word → String → Gen Unit
  | nothing, _, _, _ => pure ()
  | noAddress form position, _, _, _ => throw (.noAddress form position)
  | unsupported operator position, _, _, _ => throw (.unsupported operator position)
  | plain line, _, slots, _ => emit (line.readdressed (slotAt slots))
  | jump mark, _, _, tag => emit (.jump (mark.label tag))
  | label mark, _, _, tag => emit (.label (mark.label tag))
  | ret, _, _, _ => emit .ret
  | connective op operands, _, _, tag => record (.connective op operands tag)
  | entry name position, _, _, _ => do
    record (.routine name position)
    emit (.label name)
  | access want name position, scope, _, _ => Gen.access want name scope position
  | call name position, _, _, _ => callCode routines name position
  | both first second, scope, slots, tag => do
    first.code routines scope slots tag
    second.code routines scope slots tag
  | keeping position body, scope, slots, tag =>
    withScratch position fun slot => body.code routines scope (slot :: slots) tag
  | inside position body, scope, slots, tag =>
    inScope scope position fun inner => body.code routines inner slots tag
  | tagged stem body, scope, slots, _ => do
    let tag ← nextTag stem
    body.code routines scope slots tag

def lines : List Line → Plan
  | [] => nothing
  | line :: rest => plain line ++ lines rest

/-- What is refused where an address is wanted. -/
def valueOnly (want : Want) (form : ExprForm) (position : Position) : Plan :=
  if want = .address then noAddress form position else nothing

/-- A comparison of several stages has a label behind it. -/
def chain (several : Bool) (sides : Plan) : Plan :=
  if several then tagged Tag.comparison (sides ++ label .done) else sides

/-- The way past the last stage but one, unless the stage holds; else its right side becomes the left. -/
def nextStage (goesOn : Bool) : Plan :=
  if goesOn then
    plain (.basic .ife .a (.literal 0)) ++ jump .done ++ plain (.set (.memory 1) (.memory 0))
  else nothing

def unlessHolds (mark : Mark) : Plan :=
  plain (.basic .ifn .a (.literal 1)) ++ jump mark

def loop (position : Position) (test body : Plan) : Plan :=
  tagged Tag.loop (label .start ++ test ++ unlessHolds .ending ++ inside position body ++ jump .start ++
    label .ending)

end Plan

namespace Source

open Plan

mutual

def Expr.plan : Want → Expr → Plan
  | want, .number position value => valueOnly want .number position ++ plain (.set .a (.literal value))
  | want, .name position name => access want name position
  | want, .index position base index =>
    index.plan .value ++
      keeping position (plain (.set (.memory 0) .a) ++ base.plan .address ++
        plain (.basic .add .a (.memory 0))) ++
      if want = .value then plain (.set .a .atA) else nothing
  | want, .call position routine => valueOnly want .call position ++ .call routine position
  | want, .binary position op left right =>
    valueOnly want .binary position ++
      match opcode? op with
      | none => unsupported .power position ++ left.plan .value ++ keeping position (right.plan .value)
      | some opcode => left.plan .value ++ keeping position (plain (.set (.memory 0) .a) ++
          right.plan .value ++ plain (.basic opcode (.memory 0) .a) ++ plain (.set .a (.memory 0)))
  | want, .unary position .not operand =>
    valueOnly want .unary position ++ (operand.plan .value ++ plain (.basic .xor .a (.literal 1)))
  | want, .unary position .negate operand =>
    valueOnly want .unary position ++ unsupported .negation position ++ operand.plan .value
  | want, .logical position op operands =>
    valueOnly want .logical position ++
      tagged Tag.logical (connective op operands.length ++ operandsPlan op operands ++ label .skip)
  | want, .compare position first stages =>
    let several := decide (1 < stages.length)
    valueOnly want .compare position ++
      chain several (first.plan .value ++ keeping position (plain (.set (.memory 0) .a) ++
        keeping position (stagesPlan several stages)))

def operandsPlan (op : LogicalOp) : List Expr → Plan
  | [] => nothing
  | [operand] => operand.plan .value
  | operand :: operands =>
    operand.plan .value ++ plain (.basic .ife .a (.literal op.settling)) ++ jump .skip ++
      operandsPlan op operands

/-- The plan of the stages of a comparison, with its right side in the slot taken last and its left side in the
one before. -/
def stagesPlan (several : Bool) : List (Relation × Expr) → Plan
  | [] => nothing
  | (relation, operand) :: stages =>
    operand.plan .value ++ plain (.set (.memory 0) .a) ++ lines (relationCode relation 1 0) ++
      nextStage (several && !stages.isEmpty) ++ stagesPlan several stages

end

/-- The plan of the targets of an assignment, whose value is in the slot taken last. -/
def targetsPlan : List Expr → Plan
  | [] => nothing
  | target :: targets => target.plan .address ++ plain (.set .atA (.memory 0)) ++ targetsPlan targets

mutual

def Stmt.plan : Stmt → Plan
  | .routine position name body =>
    entry name position ++ inside position (blockPlan body) ++
      if returnsItself name body then .ret else nothing
  | .ret _ none => .ret
  | .ret _ (some value) => value.plan .value ++ .ret
  | .branch position test body alternative =>
    tagged Tag.conditional (test.plan .value ++ Plan.unlessHolds .alternative ++
      inside position (blockPlan body) ++ jump .ending ++ label .alternative ++
      inside position (blockPlan alternative) ++ label .ending)
  | .whileLoop position test body => loop position (test.plan .value) (blockPlan body)
  | .forLoop position init test step body =>
    init.plan ++ loop position (test.plan .value) (blockPlan body ++ step.plan)
  | .assign position targets value =>
    value.plan .value ++ keeping position (plain (.set (.memory 0) .a) ++ targetsPlan targets)
  | .evaluate _ value => value.plan .value

def blockPlan : List Stmt → Plan
  | [] => nothing
  | statement :: statements => statement.plan ++ blockPlan statements

end

end Source

section Codes

variable (routines : List String)

namespace Plan

variable (scope : ScopeId) (slots : List Word) (tag : String)

@[simp] theorem code_append (first second : Plan) :
    (first ++ second).code routines scope slots tag = (do
      first.code routines scope slots tag
      second.code routines scope slots tag) := rfl

/-- A plan of lines has these lines as code, at the slots that are taken. -/
theorem code_lines (plain : List Line) :
    (lines plain).code routines scope slots tag = emitAll (plain.map (Line.readdressed (slotAt slots))) := by
  induction plain with
  | nil => rfl
  | cons line plain ih =>
    rw [lines, code_append, ih]
    rfl

/-- A refusal is all that is left of a plan where an address is wanted. -/
theorem code_valueOnly (want : Want) (form : ExprForm) (position : Position) (rest : Plan) :
    (valueOnly want form position ++ rest).code routines scope slots tag =
      if want = .address then throw (.noAddress form position) else rest.code routines scope slots tag := by
  cases want <;> rfl

theorem code_unlessHolds (mark : Mark) :
    (unlessHolds mark).code routines scope slots tag = emitAll (Dcpu.unlessHolds (mark.label tag)) := rfl

end Plan

open Plan

mutual

/-- The steps that emit the code of an expression are those of its plan. -/
theorem Source.Expr.code_plan (scope : ScopeId) (slots : List Word) (tag : String) (want : Want) (expr : Expr) :
    (expr.plan want).code routines scope slots tag = exprCode routines scope want expr := by
  cases expr with
  | number position value =>
    rw [Expr.plan, code_valueOnly]
    cases want <;> rfl
  | name position name =>
    simp only [Expr.plan, exprCode, code]
    rfl
  | index position base index =>
    cases want <;> simp only [Expr.plan, exprCode, code, code_append, Expr.code_plan, bind_assoc] <;> rfl
  | call position routine =>
    rw [Expr.plan, code_valueOnly]
    cases want with
    | address => rfl
    | value => simp only [exprCode, code, reduceCtorEq, ↓reduceIte]
  | binary position op left right =>
    rw [Expr.plan, code_valueOnly]
    cases want with
    | address => rfl
    | value =>
      cases instruction : opcode? op with
      | none =>
        simp only [exprCode, instruction]
        rfl
      | some opcode =>
        simp only [exprCode, instruction, code_append, code, Expr.code_plan, bind_assoc]
        rfl
  | unary position op operand =>
    cases op with
    | not =>
      rw [Expr.plan, code_valueOnly]
      cases want with
      | address => rfl
      | value =>
        simp only [exprCode, code_append, Expr.code_plan]
        rfl
    | negate => cases want <;> rfl
  | logical position op operands =>
    rw [Expr.plan, code_valueOnly]
    cases want with
    | address => rfl
    | value =>
      simp only [exprCode, code_append, code, code_operandsPlan, bind_assoc]
      rfl
  | compare position first stages =>
    rw [Expr.plan, code_valueOnly]
    cases want with
    | address => rfl
    | value =>
      by_cases several : 1 < stages.length
      · simp only [exprCode, chainLabel?, chain, several, decide_true, ↓reduceIte, code, code_append,
          code_stagesPlan, Expr.code_plan, bind_assoc, pure_bind]
        simp [emitAll]
        rfl
      · simp only [exprCode, chainLabel?, chain, several, decide_false, Bool.false_eq_true, ↓reduceIte, code,
          code_append, code_stagesPlan, Expr.code_plan, pure_bind]
        simp [emitAll]

theorem Source.code_operandsPlan (scope : ScopeId) (slots : List Word) (tag : String) (op : LogicalOp)
    (operands : List Expr) :
    (operandsPlan op operands).code routines scope slots tag =
      operandsCode routines scope op (Tag.skip tag) operands := by
  match operands with
  | [] => rfl
  | [operand] => simp only [operandsPlan, operandsCode, Expr.code_plan]
  | operand :: next :: operands =>
    simp only [operandsPlan, operandsCode, code_append, Expr.code_plan, code_operandsPlan, bind_assoc]
    rfl

/-- The code of a chain is that of its plan. -/
theorem Source.code_stagesPlan (scope : ScopeId) (slots : List Word) (tag : String) (several : Bool)
    (left right : Word) (stages : List (Relation × Expr)) :
    (stagesPlan several stages).code routines scope (right :: left :: slots) tag =
      stagesCode routines scope (if several then some (Tag.done tag) else none) left right stages := by
  match stages with
  | [] => rfl
  | (relation, operand) :: stages =>
    have sides : (relationCode relation 1 0).map (Line.readdressed (slotAt (right :: left :: slots))) =
        relationCode relation left right :=
      (relationCode_readdressed (slotAt (right :: left :: slots)) relation 1 0).symm
    simp only [stagesPlan, stagesCode, code_append, Expr.code_plan, code_lines, sides, code_stagesPlan, bind_assoc]
    cases several with
    | false => rfl
    | true => cases stages <;> rfl

end

theorem Source.code_targetsPlan (scope : ScopeId) (slot : Word) (slots : List Word) (tag : String)
    (targets : List Expr) :
    (targetsPlan targets).code routines scope (slot :: slots) tag = targetsCode routines scope slot targets := by
  induction targets with
  | nil => rfl
  | cons target targets ih =>
    simp only [targetsPlan, targetsCode, code_append, Expr.code_plan, ih, bind_assoc]
    rfl

/-- The steps of a loop are those of its plan, if those of its body are. -/
theorem Plan.code_loop (scope : ScopeId) (slots : List Word) (tag : String) (position : Position) (test : Expr)
    (body : Plan) :
    (loop position (test.plan .value) body).code routines scope slots tag = (do
      let drawn ← loopHead routines scope test
      inScope scope position fun inner => body.code routines inner slots drawn
      emit (.jump (Tag.start drawn))
      emit (.label (Tag.ending drawn))) := by
  simp only [loop, loopHead, code, code_append, code_unlessHolds, Expr.code_plan, bind_assoc, pure_bind]
  rfl

mutual

/-- The steps that emit the code of a statement are those of its plan. -/
theorem Source.Stmt.code_plan (scope : ScopeId) (slots : List Word) (tag : String) (statement : Stmt) :
    statement.plan.code routines scope slots tag = stmtCode routines scope statement := by
  cases statement with
  | routine position name body =>
    simp only [Stmt.plan, stmtCode, code_append, code, code_blockPlan, bind_assoc]
    split <;> rfl
  | ret position value =>
    cases value with
    | none => rfl
    | some value =>
      simp only [Stmt.plan, stmtCode, code_append, Expr.code_plan]
      rfl
  | branch position test body alternative =>
    simp only [Stmt.plan, stmtCode, branchHead, code, code_append, code_unlessHolds, Expr.code_plan,
      code_blockPlan, bind_assoc, pure_bind]
    rfl
  | whileLoop position test body =>
    simp only [Stmt.plan, stmtCode, loopCode, code_loop, code_blockPlan]
  | forLoop position init test step body =>
    simp only [Stmt.plan, stmtCode, loopCode, code_append, code_loop, Stmt.code_plan, code_blockPlan]
  | assign position targets value =>
    simp only [Stmt.plan, stmtCode, code_append, code, Expr.code_plan, code_targetsPlan]
    rfl
  | evaluate position value =>
    simp only [Stmt.plan, stmtCode, Expr.code_plan]

/-- The steps that emit the code of a block are those of its plan. -/
theorem Source.code_blockPlan (scope : ScopeId) (slots : List Word) (tag : String) (statements : List Stmt) :
    (blockPlan statements).code routines scope slots tag = blockCode routines scope statements := by
  cases statements with
  | nil => rfl
  | cons statement statements =>
    simp only [blockPlan, blockCode, code_append, Stmt.code_plan, code_blockPlan]

end

end Codes

/-- Whether an operand stands for register `a`, the word at the address in it, a number, or one of so many
slots. -/
def Operand.isPlain (depth : Nat) : Operand → Bool
  | .register .a | .indirect .a | .literal _ => true
  | .memory number => number.toNat < depth
  | _ => false

/-- Whether a line has plain operands only, and writes to the address in register `a` at most the word of a
slot. -/
def Line.isPlain (depth : Nat) : Line → Bool
  | .instruction (.basic op (.indirect .a) (.memory number)) => op == .set && number.toNat < depth
  | .instruction (.basic _ (.indirect _) _) => false
  | .instruction (.basic _ b a) => b.isPlain depth && a.isPlain depth
  | _ => false

/-- A plain line computes, and where it writes to the address in register `a`, it stores the word of a slot. -/
theorem Line.of_isPlain {depth : Nat} {line : Line} (isPlain : line.isPlain depth = true) :
    ∃ op b a, line = .basic op b a ∧ b.isPlain depth = true ∧ a.isPlain depth = true ∧
      (b = .atA → op = .set ∧ ∃ number, a = .memory number) := by
  cases line with
  | label name => cases isPlain
  | instruction body =>
    cases body with
    | jsr target => cases isPlain
    | basic op b a =>
      refine ⟨op, b, a, rfl, ?_⟩
      rw [Line.isPlain.eq_def] at isPlain
      split at isPlain
      · rename_i same
        cases same
        simp only [Bool.and_eq_true, beq_iff_eq] at isPlain
        exact ⟨rfl, by simpa [Operand.isPlain] using isPlain.2, fun _ => ⟨isPlain.1, _, rfl⟩⟩
      · cases isPlain
      · rename_i others same
        cases same
        rw [Bool.and_eq_true] at isPlain
        exact ⟨isPlain.1, isPlain.2, fun store => (others .a store).elim⟩
      · cases isPlain

namespace Plan

/-- Whether the lines of a plan name none but the given number of slots and those that the plan takes. -/
def isPlain : Nat → Plan → Bool
  | depth, plain line => line.isPlain depth
  | depth, both first second => first.isPlain depth && second.isPlain depth
  | depth, keeping _ body => body.isPlain (depth + 1)
  | depth, inside _ body => body.isPlain depth
  | depth, tagged _ body => body.isPlain depth
  | _, _ => true

/-- Whether a plan is plain and stays where it is: it has no scopes and no routines, and goes back from none. -/
def isValue : Nat → Plan → Bool
  | depth, plain line => line.isPlain depth
  | _, ret | _, entry .. | _, inside .. => false
  | depth, both first second => first.isValue depth && second.isValue depth
  | depth, keeping _ body => body.isValue (depth + 1)
  | depth, tagged _ body => body.isValue depth
  | _, _ => true

@[simp] theorem isPlain_append (depth : Nat) (first second : Plan) :
    (first ++ second).isPlain depth = (first.isPlain depth && second.isPlain depth) := rfl

@[simp] theorem isValue_append (depth : Nat) (first second : Plan) :
    (first ++ second).isValue depth = (first.isValue depth && second.isValue depth) := rfl

@[simp] theorem isValue_valueOnly (depth : Nat) (want : Want) (form : ExprForm) (position : Position) :
    (valueOnly want form position).isValue depth = true := by
  cases want <;> rfl

@[simp] theorem isValue_chain (depth : Nat) (several : Bool) (sides : Plan) :
    (chain several sides).isValue depth = sides.isValue depth := by
  cases several <;> simp [chain, isValue]

theorem isPlain_of_isValue {plan : Plan} {depth : Nat} (isValue : plan.isValue depth = true) :
    plan.isPlain depth = true := by
  induction plan generalizing depth with
  | plain line => exact isValue
  | both first second firstPlain secondPlain =>
    obtain ⟨firstValue, secondValue⟩ := Bool.and_eq_true_iff.mp isValue
    exact Bool.and_eq_true_iff.mpr ⟨firstPlain firstValue, secondPlain secondValue⟩
  | keeping position body isPlain => exact isPlain isValue
  | tagged stem body isPlain => exact isPlain isValue
  | inside => cases isValue
  | _ => rfl

end Plan

section Trees

open Plan

mutual

/-- The plan of an expression only has slots of its own, and leaves scopes and routines alone. -/
theorem Source.Expr.isValue_plan (depth : Nat) (want : Want) (expr : Expr) :
    (expr.plan want).isValue depth = true := by
  cases expr with
  | number | call => cases want <;> rfl
  | name => rfl
  | index position base index =>
    simp only [Expr.plan, isValue_append, isValue, Expr.isValue_plan]
    cases want <;> rfl
  | binary position op left right =>
    rw [Expr.plan]
    split <;> simp only [isValue_append, isValue_valueOnly, isValue, Expr.isValue_plan] <;> rfl
  | unary position op operand =>
    cases op <;> simp only [Expr.plan, isValue_append, isValue_valueOnly, isValue, Expr.isValue_plan] <;> rfl
  | logical position op operands =>
    simp only [Expr.plan, isValue_append, isValue_valueOnly, isValue, isValue_operandsPlan]
    rfl
  | compare position first stages =>
    simp only [Expr.plan, isValue_append, isValue_valueOnly, isValue_chain, isValue, isValue_stagesPlan,
      Expr.isValue_plan]
    rfl

theorem Source.isValue_operandsPlan (depth : Nat) (op : LogicalOp) (operands : List Expr) :
    (operandsPlan op operands).isValue depth = true := by
  match operands with
  | [] => rfl
  | [operand] => simp only [operandsPlan, Expr.isValue_plan]
  | operand :: next :: operands =>
    simp only [operandsPlan, isValue_append, Expr.isValue_plan, isValue_operandsPlan]
    rfl

theorem Source.isValue_stagesPlan (depth : Nat) (several : Bool) (stages : List (Relation × Expr)) :
    (stagesPlan several stages).isValue (depth + 2) = true := by
  match stages with
  | [] => rfl
  | (relation, operand) :: stages =>
    simp only [stagesPlan, isValue_append, Expr.isValue_plan, isValue_stagesPlan]
    cases relation <;> cases several <;> cases stages <;> rfl

end

theorem Source.Expr.isPlain_plan (depth : Nat) (want : Want) (expr : Expr) :
    (expr.plan want).isPlain depth = true :=
  isPlain_of_isValue (expr.isValue_plan depth want)

theorem Source.isValue_targetsPlan (depth : Nat) (targets : List Expr) :
    (targetsPlan targets).isValue (depth + 1) = true := by
  induction targets with
  | nil => rfl
  | cons target targets ih =>
    simp only [targetsPlan, isValue_append, Expr.isValue_plan, ih]
    rfl

mutual

/-- The plan of a statement names slots that it has taken only. -/
theorem Source.Stmt.isPlain_plan (depth : Nat) (statement : Stmt) : statement.plan.isPlain depth = true := by
  cases statement with
  | routine position name body =>
    simp only [Stmt.plan, isPlain_append, isPlain, isPlain_blockPlan]
    split <;> rfl
  | ret position value =>
    cases value with
    | none => rfl
    | some value =>
      simp only [Stmt.plan, isPlain_append, Expr.isPlain_plan]
      rfl
  | branch position test body alternative =>
    simp only [Stmt.plan, isPlain_append, isPlain, Expr.isPlain_plan, isPlain_blockPlan]
    rfl
  | whileLoop position test body =>
    simp only [Stmt.plan, loop, isPlain_append, isPlain, Expr.isPlain_plan, isPlain_blockPlan]
    rfl
  | forLoop position init test step body =>
    simp only [Stmt.plan, loop, isPlain_append, isPlain, Expr.isPlain_plan, Stmt.isPlain_plan, isPlain_blockPlan]
    rfl
  | assign position targets value =>
    simp only [Stmt.plan, isPlain_append, isPlain, Expr.isPlain_plan,
      isPlain_of_isValue (isValue_targetsPlan _ _)]
    rfl
  | evaluate position value => simp only [Stmt.plan, Expr.isPlain_plan]

theorem Source.isPlain_blockPlan (depth : Nat) (statements : List Stmt) :
    (blockPlan statements).isPlain depth = true := by
  cases statements with
  | nil => rfl
  | cons statement statements =>
    simp only [blockPlan, isPlain_append, Stmt.isPlain_plan, isPlain_blockPlan, Bool.and_self]

end

end Trees

section Mentions

namespace Plan

/-- The names whose lines a plan has, in their order. -/
def mentions : Plan → List Mention
  | access want name _ => [⟨want, name⟩]
  | both first second => first.mentions ++ second.mentions
  | keeping _ body | inside _ body | tagged _ body => body.mentions
  | _ => []

@[simp] theorem mentions_append (first second : Plan) :
    (first ++ second).mentions = first.mentions ++ second.mentions := rfl

@[simp] theorem mentions_lines (plain : List Line) : (lines plain).mentions = [] := by
  induction plain with
  | nil => rfl
  | cons line plain ih =>
    rw [lines, mentions_append, ih]
    rfl

@[simp] theorem mentions_valueOnly (want : Want) (form : ExprForm) (position : Position) :
    (valueOnly want form position).mentions = [] := by
  cases want <;> rfl

@[simp] theorem mentions_nextStage (goesOn : Bool) : (nextStage goesOn).mentions = [] := by
  cases goesOn <;> rfl

@[simp] theorem mentions_chain (several : Bool) (sides : Plan) :
    (chain several sides).mentions = sides.mentions := by
  cases several <;> simp [chain, mentions]

end Plan

open Plan

mutual

/-- The plan of an expression has the lines of the names in it. -/
theorem Source.Expr.mentions_plan (want : Want) (expr : Expr) : (expr.plan want).mentions = expr.mentions want := by
  cases expr with
  | number | call => cases want <;> rfl
  | name => rfl
  | index position base index =>
    cases want <;> simp [Expr.plan, Expr.mentions, Plan.mentions, Expr.mentions_plan]
  | binary position op left right =>
    rw [Expr.plan]
    cases opcode? op <;> simp [Expr.mentions, Plan.mentions, Expr.mentions_plan]
  | unary position op operand =>
    cases op <;> simp [Expr.plan, Expr.mentions, Plan.mentions, Expr.mentions_plan]
  | logical position op operands =>
    simp [Expr.plan, Expr.mentions, Plan.mentions, mentions_operandsPlan]
  | compare position first stages =>
    simp [Expr.plan, Expr.mentions, Plan.mentions, Expr.mentions_plan, mentions_stagesPlan]

theorem Source.mentions_operandsPlan (op : LogicalOp) (operands : List Expr) :
    (operandsPlan op operands).mentions = mentionsOfAll .value operands := by
  match operands with
  | [] => rfl
  | [operand] => simp [operandsPlan, mentionsOfAll, Expr.mentions_plan]
  | operand :: next :: operands =>
    have rest := mentions_operandsPlan op (next :: operands)
    simp only [operandsPlan, mentions_append, Expr.mentions_plan, rest]
    simp [mentionsOfAll, Plan.mentions]

theorem Source.mentions_stagesPlan (several : Bool) (stages : List (Relation × Expr)) :
    (stagesPlan several stages).mentions = mentionsOfStages stages := by
  match stages with
  | [] => rfl
  | (relation, operand) :: stages =>
    simp [stagesPlan, mentionsOfStages, Plan.mentions, Expr.mentions_plan, mentions_stagesPlan]

end

theorem Source.mentions_targetsPlan (targets : List Expr) :
    (targetsPlan targets).mentions = mentionsOfAll .address targets := by
  induction targets with
  | nil => rfl
  | cons target targets ih => simp [targetsPlan, mentionsOfAll, Plan.mentions, Expr.mentions_plan, ih]

mutual

/-- The plan of a statement mentions the names of the statement, in their order. -/
theorem Source.Stmt.mentions_plan (statement : Stmt) : statement.plan.mentions = statement.mentions := by
  cases statement with
  | routine position name body =>
    rw [Stmt.plan]
    split <;> simp [Stmt.mentions, Plan.mentions, mentions_blockPlan]
  | ret position value =>
    cases value with
    | none => rfl
    | some value => simp [Stmt.plan, Stmt.mentions, Plan.mentions, Expr.mentions_plan]
  | branch position test body alternative =>
    simp [Stmt.plan, Stmt.mentions, Plan.mentions, Plan.unlessHolds, Expr.mentions_plan, mentions_blockPlan]
  | whileLoop position test body =>
    simp [Stmt.plan, Stmt.mentions, loop, Plan.mentions, Plan.unlessHolds, Expr.mentions_plan,
      mentions_blockPlan]
  | forLoop position init test step body =>
    simp [Stmt.plan, Stmt.mentions, loop, Plan.mentions, Plan.unlessHolds, Expr.mentions_plan,
      Stmt.mentions_plan, mentions_blockPlan]
  | assign position targets value =>
    simp [Stmt.plan, Stmt.mentions, Plan.mentions, Expr.mentions_plan, mentions_targetsPlan]
  | evaluate position value => simp [Stmt.plan, Stmt.mentions, Expr.mentions_plan]

/-- The plan of a block has the lines of the names in it. -/
theorem Source.mentions_blockPlan (statements : List Stmt) :
    (blockPlan statements).mentions = mentionsIn statements := by
  cases statements with
  | nil => rfl
  | cons statement statements =>
    simp [blockPlan, mentionsIn, Stmt.mentions_plan, mentions_blockPlan]

end

end Mentions

end Dcpu
