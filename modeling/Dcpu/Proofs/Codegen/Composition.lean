import Dcpu.Proofs.Codegen.Bookkeeping
import Dcpu.Proofs.Codegen.Plans

/-! # What code generation is made of

The code of every expression, statement and program is put together from a few kinds of steps. What
each of these does, and what their combinations do, all code generation does. Of the lines that are emitted it
is told which they may be: only the code of routines and of returns uses the stack.
-/

namespace Dcpu

open Source Effects

/-- Steps that are put together from the basic steps of code generation and emit allowed lines only. -/
inductive Gen.Composed (allowed : Line → Prop) : {α : Type} → Gen α → Prop where
  | pure {α : Type} (value : α) : Composed allowed (pure value)
  | throw {α : Type} (error : CompileError) : Composed allowed (throw error : Gen α)
  | get : Composed allowed (get : Gen Emission)
  | record (event : Event) : (∀ line ∈ event.line?, allowed line) → Composed allowed (record event)
  | nextTag (stem : String) : Composed allowed (nextTag stem)
  | addressOf (name : String) (scope : ScopeId) (position : Position) :
      Composed allowed (addressOf name scope position)
  | bind {α β : Type} {first : Gen α} {next : α → Gen β} :
      Composed allowed first → (∀ value, Composed allowed (next value)) → Composed allowed (first >>= next)
  | withScratch (position : Position) {body : Word → Gen Unit} :
      (∀ slot, Composed allowed (body slot)) → Composed allowed (withScratch position body)
  | inScope (parent : ScopeId) (position : Position) {body : ScopeId → Gen Unit} :
      (∀ scope, Composed allowed (body scope)) → Composed allowed (inScope parent position body)

namespace Gen.Composed

variable {allowed : Line → Prop} {α β : Type}

theorem andThen {first : Gen α} {next : Gen β} (composed : Composed allowed first)
    (behind : Composed allowed next) : Composed allowed (first >>= fun _ => next) :=
  .bind composed fun _ => behind

/-- Events that emit no line are noted freely. -/
theorem note (event : Event) (silent : event.line? = none) : Composed allowed (Gen.record event) :=
  .record event (by simp [silent])

theorem emit {line : Line} (isAllowed : allowed line) : Composed allowed (Gen.emit line) :=
  .record _ (by simpa [Event.line?] using isAllowed)

end Gen.Composed

/-- A relation between states of code generation that holds along every basic step that emits allowed lines
only. -/
structure Gen.Tracks (allowed : Line → Prop) (related : Emission → Emission → Prop) : Prop where
  refl (state : Emission) : related state state
  trans {first second third : Emission} : related first second → related second third → related first third
  noted (state : Emission) (event : Event) :
    (∀ line ∈ event.line?, allowed line) → related state (state.noted event)
  tagged (state : Emission) : related state state.tagged
  allotted (state : Emission) (slots : Slots) (held : Nat) :
    related state { state.withSlots slots with held }

namespace Gen.Tracks

variable {allowed : Line → Prop} {related : Emission → Emission → Prop} {α β : Type}

theorem onSlots (tracks : Tracks allowed related) (position : Position) (step : Alloc α) (state : Emission) :
    related state ((Gen.onSlots position step).after state) := by
  rw [after, Gen.onSlots]
  cases step state.context.slots <;> exact tracks.allotted state _ state.held

/-- A sequence goes on where its first part ended, if that succeeded. -/
theorem bind (tracks : Tracks allowed related) {first : Gen α} {next : α → Gen β} {state : Emission}
    (begun : related state (first.after state))
    (goesOn : ∀ value middle, related middle ((next value).after middle)) :
    related state ((first >>= next).after state) := by
  rw [after] at begun ⊢
  rw [bind_apply]
  cases ran : first state with
  | error error middle =>
    rw [ran] at begun
    exact begun
  | ok value middle =>
    rw [ran] at begun
    exact tracks.trans begun (goesOn value middle)

theorem note (tracks : Tracks allowed related) (event : Event) (silent : event.line? = none) (state : Emission) :
    related state (state.noted event) :=
  tracks.noted state event (by simp [silent])

end Gen.Tracks

/-- What holds along every basic step holds between the state before and behind all code generation, whether or
not it fails. -/
theorem Gen.Composed.tracked {allowed : Line → Prop} {related : Emission → Emission → Prop} {α : Type}
    {steps : Gen α} (composed : Composed allowed steps) (tracks : Tracks allowed related) (state : Emission) :
    related state (steps.after state) := by
  induction composed generalizing state with
  | pure | throw | get => exact tracks.refl state
  | record event allowed => exact tracks.noted state event allowed
  | nextTag stem => exact tracks.tagged state
  | addressOf name scope position =>
    apply tracks.bind (tracks.refl state)
    intro slots before
    cases slots.special? name with
    | some address => exact tracks.refl before
    | none =>
      apply tracks.bind (tracks.onSlots ..)
      intro binding middle
      dsimp only
      split
      · exact tracks.note _ rfl middle
      · exact tracks.refl middle
  | bind _ _ first next => exact tracks.bind (first state) next
  | withScratch position _ body =>
    apply tracks.bind
    · apply tracks.bind (tracks.onSlots ..)
      intro slot middle
      apply tracks.bind (tracks.allotted middle middle.context.slots _)
      intro _ middle
      exact tracks.note _ rfl middle
    · intro slot middle
      rw [after_always]
      apply tracks.trans (body slot middle)
      exact tracks.trans (tracks.allotted ..) (tracks.note _ rfl _)
  | inScope parent position _ body =>
    apply tracks.bind
    · apply tracks.bind (tracks.onSlots ..)
      intro scope middle
      exact tracks.note _ rfl middle
    · intro scope middle
      rw [after_always]
      apply tracks.trans (body scope middle)
      apply tracks.bind (tracks.onSlots ..)
      intro _ middle
      exact tracks.note _ rfl middle

/-- The lines that are emitted stand behind those that were there. -/
theorem Gen.Composed.emits {allowed : Line → Prop} {α : Type} {steps : Gen α} (composed : Composed allowed steps)
    (state : Emission) : ∃ code : Listing, (steps.after state).listing = state.listing ++ code ∧
      ∀ line ∈ code, allowed line := by
  let related (before behind : Emission) : Prop :=
    ∃ code : Listing, behind.listing = before.listing ++ code ∧ ∀ line ∈ code, allowed line
  have still {before behind : Emission} (same : behind.listing = before.listing) : related before behind :=
    ⟨[], by simpa using same, by simp⟩
  have tracks : Tracks allowed related := by
    refine ⟨fun _ => still rfl, ?_, ?_, fun _ => still rfl, fun _ _ _ => still rfl⟩
    · rintro first second third ⟨code, emitted, areAllowed⟩ ⟨more, emittedToo, moreAllowed⟩
      refine ⟨code ++ more, ?_, List.forall_mem_append.mpr ⟨areAllowed, moreAllowed⟩⟩
      rw [emittedToo, emitted, List.append_assoc]
    · intro state event isAllowed
      exact ⟨event.line?.toList, state.listing_noted event, by simpa using isAllowed⟩
  exact composed.tracked tracks state

namespace Source

mutual

/-- Whether a routine is defined or gone back from anywhere in a statement. -/
def Stmt.returns : Stmt → Bool
  | .routine .. | .ret .. => true
  | .branch _ _ body alternative => returnsIn body || returnsIn alternative
  | .whileLoop _ _ body => returnsIn body
  | .forLoop _ init _ step body => init.returns || step.returns || returnsIn body
  | .assign .. | .evaluate .. => false

def returnsIn : List Stmt → Bool
  | [] => false
  | statement :: statements => statement.returns || returnsIn statements

end

end Source

/-- Whether a word is put on the stack by way of an operand or taken from it. -/
def Operand.isStack : Operand → Bool
  | .push | .pop => true
  | _ => false

/-- Whether a line has no operand that stands for the stack. -/
def Line.leavesStack : Line → Bool
  | .label _ => true
  | .instruction body => !body.operands.any Operand.isStack

open Gen

/-- A plain operand leaves the stack alone at all addresses. -/
theorem Operand.isStack_readdressed {operand : Operand} {depth : Nat} (isPlain : operand.isPlain depth = true)
    (address : Word → Word) : (operand.readdressed address).isStack = false := by
  cases operand with
  | push | pop => cases isPlain
  | _ => rfl

theorem Line.leavesStack_of_isPlain {line : Line} {depth : Nat} (isPlain : line.isPlain depth = true)
    (address : Word → Word) : (line.readdressed address).leavesStack = true := by
  obtain ⟨op, b, a, rfl, plainB, plainA, _⟩ := Line.of_isPlain isPlain
  simp [Line.basic, Line.readdressed, Instruction.readdressed, Line.leavesStack, Instruction.operands,
    Operand.isStack_readdressed plainB, Operand.isStack_readdressed plainA]

namespace Plan

def returns : Plan → Bool
  | ret => true
  | both first second => first.returns || second.returns
  | keeping _ body => body.returns
  | inside _ body => body.returns
  | tagged _ body => body.returns
  | _ => false

@[simp] theorem returns_append (first second : Plan) :
    (first ++ second).returns = (first.returns || second.returns) := rfl

/-- No plan of a value returns. -/
theorem returns_of_isValue {plan : Plan} {depth : Nat} (isValue : plan.isValue depth = true) :
    plan.returns = false := by
  induction plan generalizing depth with
  | both first second firstReturns secondReturns =>
    obtain ⟨firstValue, secondValue⟩ := Bool.and_eq_true_iff.mp isValue
    rw [returns, firstReturns firstValue, secondReturns secondValue, Bool.or_false]
  | keeping position body returns => exact returns isValue
  | tagged stem body returns => exact returns isValue
  | inside | ret => cases isValue
  | _ => rfl

variable {allowed : Line → Prop} (routines : List String)

private theorem callCode_composed (leaves : ∀ line : Line, line.leavesStack = true → allowed line)
    (name : String) (position : Position) : Composed allowed (callCode routines name position) := by
  rw [callCode]
  split
  · exact .emit (leaves _ rfl)
  · split
    · apply Composed.bind .get
      intro state
      dsimp only
      split
      · exact .andThen (.note _ rfl) (.emit (leaves _ rfl))
      · exact .emit (leaves _ rfl)
    · exact .throw _

/-- A plan is put together from the basic steps, and uses the stack only where it goes back from a routine. -/
theorem composed {plan : Plan} {slots : List Word} (scope : ScopeId) (tag : String)
    (leaves : ∀ line : Line, line.leavesStack = true → allowed line) (isPlain : plan.isPlain slots.length = true)
    (returned : plan.returns = true → allowed .ret) : Composed allowed (plan.code routines scope slots tag) := by
  induction plan generalizing slots scope tag with
  | nothing => exact .pure _
  | noAddress | unsupported => exact .throw _
  | plain line => exact .emit (leaves _ (Line.leavesStack_of_isPlain isPlain _))
  | jump | label => exact .emit (leaves _ rfl)
  | ret => exact .emit (returned rfl)
  | connective => exact .note _ rfl
  | entry => exact .andThen (.note _ rfl) (.emit (leaves _ rfl))
  | access want name position =>
    apply Composed.bind (.addressOf name scope position)
    intro address
    cases want <;> exact .emit (leaves _ rfl)
  | call name position => exact callCode_composed routines leaves name position
  | both first second firstComposed secondComposed =>
    obtain ⟨firstPlain, secondPlain⟩ := Bool.and_eq_true_iff.mp isPlain
    simp only [returns, Bool.or_eq_true, or_imp] at returned
    exact .andThen (firstComposed scope tag firstPlain returned.1)
      (secondComposed scope tag secondPlain returned.2)
  | keeping position body composed =>
    exact .withScratch position fun slot => composed scope tag isPlain returned
  | inside position body composed =>
    exact .inScope scope position fun inner => composed inner tag isPlain returned
  | tagged stem body composed => exact .bind (.nextTag stem) fun drawn => composed scope drawn isPlain returned

end Plan

section Trees

open Plan

private theorem Source.Expr.returns_plan (want : Want) (expr : Expr) : (expr.plan want).returns = false :=
  returns_of_isValue (expr.isValue_plan 0 want)

mutual

/-- The plan of a statement goes back from a routine only if the statement does. -/
theorem Source.Stmt.returns_of_plan {statement : Stmt} (returned : statement.plan.returns = true) :
    statement.returns = true := by
  cases statement with
  | routine | ret => rfl
  | branch position test body alternative =>
    simp only [Stmt.plan, Plan.returns, returns_append, Expr.returns_plan, Plan.unlessHolds, Bool.false_or,
      Bool.or_false, Bool.or_eq_true] at returned
    exact Bool.or_eq_true_iff.mpr (returned.imp returnsIn_of_blockPlan returnsIn_of_blockPlan)
  | whileLoop position test body =>
    simp only [Stmt.plan, loop, Plan.returns, returns_append, Expr.returns_plan, Plan.unlessHolds, Bool.false_or,
      Bool.or_false] at returned
    exact returnsIn_of_blockPlan returned
  | forLoop position init test step body =>
    simp only [Stmt.plan, loop, Plan.returns, returns_append, Expr.returns_plan, Plan.unlessHolds, Bool.false_or,
      Bool.or_false, Bool.or_eq_true] at returned
    simp only [Stmt.returns, Bool.or_eq_true]
    obtain inInit | inBody | inStep := returned
    · exact .inl (.inl (Stmt.returns_of_plan inInit))
    · exact .inr (returnsIn_of_blockPlan inBody)
    · exact .inl (.inr (Stmt.returns_of_plan inStep))
  | assign position targets value =>
    simp only [Stmt.plan, Plan.returns, returns_append, Expr.returns_plan, Bool.false_or,
      returns_of_isValue (isValue_targetsPlan 0 targets), Bool.false_eq_true] at returned
  | evaluate position value =>
    simp only [Stmt.plan, Expr.returns_plan, Bool.false_eq_true] at returned

/-- The plan of a block returns only where a statement of the block does. -/
theorem Source.returnsIn_of_blockPlan {statements : List Stmt} (returned : (blockPlan statements).returns = true) :
    returnsIn statements = true := by
  cases statements with
  | nil => cases returned
  | cons statement statements =>
    simp only [blockPlan, returns_append, Bool.or_eq_true] at returned
    exact Bool.or_eq_true_iff.mpr (returned.imp Stmt.returns_of_plan returnsIn_of_blockPlan)

end

end Trees

section Programs

variable {allowed : Line → Prop}

private theorem registerRoutines_composed (known : List String) (definitions : List (String × Position)) :
    Composed allowed (registerRoutines known definitions) := by
  induction definitions generalizing known with
  | nil => exact .pure _
  | cons definition definitions ih =>
    obtain ⟨name, position⟩ := definition
    simp only [registerRoutines]
    have rest : Composed allowed (if known.contains name then do
        record (.redefined name position)
        registerRoutines known definitions
      else registerRoutines (known ++ [name]) definitions) := by
      split
      · exact .andThen (.note _ rfl) (ih known)
      · exact ih (known ++ [name])
    split
    · exact .andThen (.throw _) rest
    · exact rest

/-- The code of a program uses the stack only where it goes back from a routine. -/
theorem programCode_composed (plain : ∀ line : Line, line.leavesStack = true → allowed line) (haltLoop : Bool)
    (program : Program) (returned : returnsIn program = true → allowed .ret) :
    Composed allowed (programCode haltLoop program) := by
  apply Composed.bind (registerRoutines_composed [] (definitionsIn program))
  intro routines
  apply Composed.andThen (.note _ rfl)
  apply Composed.andThen
  · rw [← code_blockPlan routines 0 [] ""]
    exact Plan.composed routines 0 "" plain (isPlain_blockPlan 0 program) fun goesBack =>
      returned (returnsIn_of_blockPlan goesBack)
  split
  · exact .andThen (.note _ rfl) (.andThen (.emit (plain _ rfl)) (.emit (plain _ rfl)))
  · exact .pure _

end Programs

end Dcpu
