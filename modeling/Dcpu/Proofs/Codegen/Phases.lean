import Dcpu.Proofs.Codegen.Linking
import Dcpu.Proofs.Machine.Stores

/-! # Code stores right behind addresses

In the code of every program, a store stands right behind the computation of its address, no label stands
between the two, and no test skips the first. This is seen line by line on plans, with the phase that each line
leaves.
-/

namespace Dcpu

open Source Effects Gen

namespace Phase

theorem Goes.readdressed {phase last : Phase} {body : Instruction} (goes : phase.Goes body last)
    (address : Word → Word) : phase.Goes (body.readdressed address) last := by
  cases goes with
  | call => exact .call
  | jump => exact .jump
  | ret => exact .ret
  | test tests => exact .test tests
  | keep computes => exact .keep computes
  | load computes => exact .load computes
  | point => exact .point
  | offset => exact .offset
  | store => exact .store

/-- A run through phases does not depend on addresses. -/
theorem Along.readdressed {phase last : Phase} {code : Listing} (along : phase.Along code last)
    (address : Word → Word) : phase.Along (code.readdressed address) last := by
  induction along with
  | nil => exact .nil
  | label _ ih => exact .label ih
  | next goes _ ih => exact .next (goes.readdressed address) ih

end Phase

namespace Gen

private theorem listing_emit {line : Line} {state after : Emission} (ran : emit line state = .ok () after) :
    after.listing = state.listing ++ [line] := by
  cases ran
  exact state.listing_noted _

private theorem listing_record {event : Event} (silent : event.line? = none) {state after : Emission}
    (ran : record event state = .ok () after) : after.listing = state.listing := by
  cases ran
  exact (state.listing_noted event).trans (by simp [silent])

private theorem listing_access {want : Want} {name : String} {scope : ScopeId} {position : Position}
    {state after : Emission} (ran : Gen.access want name scope position state = .ok () after) :
    ∃ address, after.listing = state.listing ++ [.set .a (want.operand address)] := by
  obtain ⟨address, middle, found, ran⟩ := bind_eq_ok_iff.mp ran
  refine ⟨address, ?_⟩
  rw [listing_emit ran]
  obtain ⟨_, _, rfl⟩ | ⟨_, _, slots, _, _, rfl | rfl⟩ := addressOf_eq_ok found
  · rfl
  · rfl
  · simp [Emission.listing_noted, Event.line?]

/-- The code for a call is one line: the jump to the end, or the jump to a routine. -/
private theorem listing_callCode {routines : List String} {name : String} {position : Position}
    {state after : Emission} (ran : callCode routines name position state = .ok () after) :
    after.listing = state.listing ++ [.jump endLabel] ∨ after.listing = state.listing ++ [.jsr name] := by
  rw [callCode] at ran
  split at ran
  · exact .inl (listing_emit ran)
  · split at ran
    · right
      obtain ⟨_, _, same, ran⟩ := bind_eq_ok_iff.mp ran
      cases same
      dsimp only at ran
      split at ran
      · obtain ⟨_, middle, warned, ran⟩ := bind_eq_ok_iff.mp ran
        rw [listing_emit ran, listing_record rfl warned]
      · exact listing_emit ran
    · cases ran

end Gen

/-- The lines that a plan becomes, with the slots and the tag that it is for. -/
inductive Plan.Spelled : Plan → List Word → String → Listing → Prop where
  | nothing {slots tag} : Spelled .nothing slots tag []
  | plain {line slots tag} : Spelled (.plain line) slots tag [line.readdressed (slotAt slots)]
  | jump {mark slots tag} : Spelled (.jump mark) slots tag [.jump (mark.label tag)]
  | label {mark slots tag} : Spelled (.label mark) slots tag [.label (mark.label tag)]
  | ret {slots tag} : Spelled .ret slots tag [.ret]
  | connective {op operands slots tag} : Spelled (.connective op operands) slots tag []
  | entry {name position slots tag} : Spelled (.entry name position) slots tag [.label name]
  | access {want name position slots tag} (address : Word) :
      Spelled (.access want name position) slots tag [.set .a (want.operand address)]
  | exit {name position slots tag} : Spelled (.call name position) slots tag [.jump endLabel]
  | call {name position slots tag} : Spelled (.call name position) slots tag [.jsr name]
  | both {first second slots tag code rest} : Spelled first slots tag code → Spelled second slots tag rest →
      Spelled (.both first second) slots tag (code ++ rest)
  | keeping {position body slots tag code} (slot : Word) : Spelled body (slot :: slots) tag code →
      Spelled (.keeping position body) slots tag code
  | inside {position body slots tag code} : Spelled body slots tag code →
      Spelled (.inside position body) slots tag code
  | tagged {stem body slots tag code} (drawn : String) : Spelled body slots drawn code →
      Spelled (.tagged stem body) slots tag code

namespace Plan

/-- Steps of a plan that succeed emit lines that spell the plan. -/
theorem spelled {routines : List String} {plan : Plan} {scope : ScopeId} {slots : List Word} {tag : String}
    {state after : Emission} (ran : plan.code routines scope slots tag state = .ok () after) :
    ∃ code, after.listing = state.listing ++ code ∧ plan.Spelled slots tag code := by
  induction plan generalizing scope slots tag state after with
  | nothing =>
    cases ran
    exact ⟨[], (List.append_nil _).symm, .nothing⟩
  | noAddress | unsupported => cases ran
  | plain line => exact ⟨_, listing_emit ran, .plain⟩
  | jump mark => exact ⟨_, listing_emit ran, .jump⟩
  | label mark => exact ⟨_, listing_emit ran, .label⟩
  | ret => exact ⟨_, listing_emit ran, .ret⟩
  | connective op operands =>
    exact ⟨[], (listing_record rfl ran).trans (List.append_nil _).symm, .connective⟩
  | entry name position =>
    obtain ⟨_, middle, told, ran⟩ := bind_eq_ok_iff.mp ran
    exact ⟨_, by rw [listing_emit ran, listing_record rfl told], .entry⟩
  | access want name position =>
    obtain ⟨address, listing⟩ := listing_access ran
    exact ⟨_, listing, .access address⟩
  | call name position =>
    obtain listing | listing := listing_callCode ran
    · exact ⟨_, listing, .exit⟩
    · exact ⟨_, listing, .call⟩
  | both first second firstSpelled secondSpelled =>
    obtain ⟨_, middle, firstRan, secondRan⟩ := bind_eq_ok_iff.mp ran
    obtain ⟨code, listing, isCode⟩ := firstSpelled firstRan
    obtain ⟨rest, further, isRest⟩ := secondSpelled secondRan
    exact ⟨code ++ rest, by rw [further, listing, List.append_assoc], .both isCode isRest⟩
  | keeping position body spelled =>
    obtain ⟨slot, middle, _, bodyRan, rfl⟩ := withScratch_eq_ok_iff.mp ran
    obtain ⟨code, listing, isCode⟩ := spelled bodyRan
    exact ⟨code, by simpa using listing, .keeping slot isCode⟩
  | inside position body spelled =>
    obtain ⟨inner, opened, middle, behind, _, bodyRan, _, rfl⟩ := inScope_eq_ok_iff.mp ran
    obtain ⟨code, listing, isCode⟩ := spelled bodyRan
    exact ⟨code, by simpa [Emission.listing_noted, Event.line?] using listing, .inside isCode⟩
  | tagged stem body spelled =>
    obtain ⟨drawn, middle, drew, bodyRan⟩ := bind_eq_ok_iff.mp ran
    cases drew
    obtain ⟨code, listing, isCode⟩ := spelled bodyRan
    exact ⟨code, listing, .tagged _ isCode⟩

/-- From a phase on, every line of a plan may stand where it does, and what is asked of the phase behind the plan
holds. Behind a refusal there are no lines. -/
def Tidy : Plan → Phase → (Phase → Prop) → Prop
  | nothing, phase, holds | connective .., phase, holds => holds phase
  | noAddress .., _, _ | unsupported .., _, _ => True
  | plain line, phase, holds => ∃ last, phase.Along [line] last ∧ holds last
  | jump _, _, holds => holds .idle
  | label _, phase, holds | entry .., phase, holds | ret, phase, holds | call .., phase, holds =>
    phase = .idle ∧ holds .idle
  | access .value _ _, _, holds => holds .idle
  | access .address _ _, phase, holds => phase = .idle ∧ holds .aimed
  | both first second, phase, holds => first.Tidy phase fun middle => second.Tidy middle holds
  | keeping _ body, phase, holds | inside _ body, phase, holds | tagged _ body, phase, holds =>
    body.Tidy phase holds

/-- The lines of a tidy plan may stand where they do. -/
theorem Tidy.along {plan : Plan} {phase : Phase} {holds : Phase → Prop} (tidy : plan.Tidy phase holds)
    {slots : List Word} {tag : String} {code : Listing} (spelled : plan.Spelled slots tag code) :
    ∃ last, phase.Along code last ∧ holds last := by
  induction spelled generalizing phase holds with
  | nothing | connective => exact ⟨phase, .nil, tidy⟩
  | plain =>
    obtain ⟨last, along, holdsThere⟩ := tidy
    exact ⟨last, along.readdressed _, holdsThere⟩
  | jump => exact ⟨.idle, .next .jump .nil, tidy⟩
  | label | entry =>
    obtain ⟨rfl, holdsThere⟩ := tidy
    exact ⟨.idle, .label .nil, holdsThere⟩
  | ret =>
    obtain ⟨rfl, holdsThere⟩ := tidy
    exact ⟨.idle, .next .ret .nil, holdsThere⟩
  | @access want name position _ _ address =>
    cases want with
    | value => exact ⟨.idle, .next (.load rfl) .nil, tidy⟩
    | address =>
      obtain ⟨rfl, holdsThere⟩ := tidy
      exact ⟨.aimed, .next .point .nil, holdsThere⟩
  | exit =>
    obtain ⟨rfl, holdsThere⟩ := tidy
    exact ⟨.idle, .next .jump .nil, holdsThere⟩
  | call =>
    obtain ⟨rfl, holdsThere⟩ := tidy
    exact ⟨.idle, .next .call .nil, holdsThere⟩
  | both _ _ first second =>
    obtain ⟨middle, along, tidy⟩ := first tidy
    obtain ⟨last, further, holdsThere⟩ := second tidy
    exact ⟨last, Phase.along_append.mpr ⟨middle, along, further⟩, holdsThere⟩
  | keeping slot _ body => exact body tidy
  | inside _ body => exact body tidy
  | tagged drawn _ body => exact body tidy

end Plan

def Want.phase : Want → Phase
  | .value => .idle
  | .address => .aimed

section Trees

open Plan

namespace Plan

/-- Into a slot or register `a`, anything may be computed, also behind a test. -/
theorem tidy_keep {op : Opcode} (computes : op.isConditional = false) {phase : Phase} {holds : Phase → Prop}
    (holdsBehind : holds .idle) {slot : Word} {a : Operand} :
    (plain (.basic op (.memory slot) a)).Tidy phase holds :=
  ⟨.idle, .next (.keep computes) .nil, holdsBehind⟩

theorem tidy_load {op : Opcode} (computes : op.isConditional = false) {phase : Phase} {holds : Phase → Prop}
    (holdsBehind : holds .idle) {a : Operand} : (plain (.basic op .a a)).Tidy phase holds :=
  ⟨.idle, .next (.load computes) .nil, holdsBehind⟩

/-- A test may stand where what comes behind it may be skipped. -/
theorem tidy_test {op : Opcode} (tests : op.isConditional = true) {holds : Phase → Prop}
    (holdsBehind : holds .skipping) {b a : Operand} : (plain (.basic op b a)).Tidy .idle holds :=
  ⟨.skipping, .next (.test tests) .nil, holdsBehind⟩

theorem tidy_valueOnly {want : Want} {form : ExprForm} {position : Position} {rest : Plan} {phase : Phase}
    {holds : Phase → Prop} (tidy : want = .value → rest.Tidy phase holds) :
    (valueOnly want form position ++ rest).Tidy phase holds := by
  cases want with
  | value => exact tidy rfl
  | address => exact trivial

theorem tidy_nextStage {goesOn : Bool} {holds : Phase → Prop} (holdsBehind : holds .idle) :
    (nextStage goesOn).Tidy .idle holds := by
  cases goesOn with
  | false => exact holdsBehind
  | true => exact tidy_test rfl (tidy_keep rfl holdsBehind)

theorem tidy_unlessHolds {mark : Mark} {holds : Phase → Prop} (holdsBehind : holds .idle) :
    (unlessHolds mark).Tidy .idle holds :=
  tidy_test rfl holdsBehind

private theorem tidy_tests {tests : List Opcode} (areTests : ∀ test ∈ tests, test.isConditional = true)
    {left right : Word} {holds : Phase → Prop} (holdsBehind : holds .idle) :
    (lines (tests.flatMap fun test =>
      [.basic test (.memory left) (.memory right), .set .a (.literal 1)])).Tidy .idle holds := by
  induction tests with
  | nil => exact holdsBehind
  | cons test tests ih =>
    obtain ⟨isTest, areTests⟩ := List.forall_mem_cons.mp areTests
    exact tidy_test isTest (tidy_load rfl (ih areTests))

/-- Code of a relation goes from the idle phase back to it. -/
theorem tidy_relationCode {relation : Relation} {left right : Word} {holds : Phase → Prop}
    (holdsBehind : holds .idle) : (lines (relationCode relation left right)).Tidy .idle holds := by
  refine tidy_load rfl (tidy_tests ?_ holdsBehind)
  cases relation <;> decide

end Plan

mutual

/-- The code of an expression may stand where nothing of note stands before, and the code for an address ends
with the address in register `a`. -/
theorem Source.Expr.tidy_plan {want : Want} {holds : Phase → Prop} (holdsBehind : holds want.phase) (expr : Expr) :
    (expr.plan want).Tidy .idle holds := by
  cases expr with
  | number position value =>
    apply tidy_valueOnly
    rintro rfl
    exact tidy_load rfl holdsBehind
  | name position name =>
    cases want with
    | value => exact holdsBehind
    | address => exact ⟨rfl, holdsBehind⟩
  | index position base index =>
    rw [Expr.plan]
    refine index.tidy_plan (tidy_keep rfl (base.tidy_plan ⟨.aimed, .next .offset .nil, ?_⟩))
    cases want with
    | value => exact tidy_load rfl holdsBehind
    | address => exact holdsBehind
  | call position routine =>
    apply tidy_valueOnly
    rintro rfl
    exact ⟨rfl, holdsBehind⟩
  | binary position op left right =>
    rw [Expr.plan]
    apply tidy_valueOnly
    rintro rfl
    cases instruction : opcode? op with
    | none => exact trivial
    | some opcode =>
      have computes : opcode.isConditional = false := by
        cases op <;> cases instruction <;> rfl
      exact left.tidy_plan (tidy_keep rfl (right.tidy_plan (tidy_keep computes (tidy_load rfl holdsBehind))))
  | unary position op operand =>
    cases op with
    | not =>
      apply tidy_valueOnly
      rintro rfl
      exact operand.tidy_plan (tidy_load rfl holdsBehind)
    | negate => cases want <;> exact trivial
  | logical position op operands =>
    apply tidy_valueOnly
    rintro rfl
    exact tidy_operandsPlan ⟨rfl, holdsBehind⟩ op operands
  | compare position first stages =>
    apply tidy_valueOnly
    rintro rfl
    cases decide (1 < stages.length) with
    | false => exact first.tidy_plan (tidy_keep rfl (tidy_stagesPlan holdsBehind false stages))
    | true => exact first.tidy_plan (tidy_keep rfl (tidy_stagesPlan ⟨rfl, holdsBehind⟩ true stages))

theorem Source.tidy_operandsPlan {holds : Phase → Prop} (holdsBehind : holds .idle) (op : LogicalOp)
    (operands : List Expr) : (operandsPlan op operands).Tidy .idle holds := by
  match operands with
  | [] => exact holdsBehind
  | [operand] => exact operand.tidy_plan holdsBehind
  | operand :: next :: operands =>
    have rest := tidy_operandsPlan holdsBehind op (next :: operands)
    exact operand.tidy_plan (tidy_test rfl rest)

theorem Source.tidy_stagesPlan {holds : Phase → Prop} (holdsBehind : holds .idle) (several : Bool)
    (stages : List (Relation × Expr)) : (stagesPlan several stages).Tidy .idle holds := by
  match stages with
  | [] => exact holdsBehind
  | (relation, operand) :: stages =>
    have rest := tidy_stagesPlan holdsBehind several stages
    exact operand.tidy_plan (tidy_keep rfl (tidy_relationCode (tidy_nextStage rest)))

end

theorem Source.tidy_targetsPlan {holds : Phase → Prop} (holdsBehind : holds .idle) (targets : List Expr) :
    (targetsPlan targets).Tidy .idle holds := by
  induction targets with
  | nil => exact holdsBehind
  | cons target targets ih => exact target.tidy_plan ⟨.idle, .next .store .nil, ih⟩

/-- The code of a loop may stand anywhere if the code of its body may. -/
theorem Plan.tidy_loop {position : Position} {test body : Plan} {phase : Phase} {holds : Phase → Prop}
    (idle : phase = .idle)
    (tidyTest : ∀ {behind : Phase → Prop}, behind .idle → test.Tidy .idle behind)
    (tidyBody : ∀ {behind : Phase → Prop}, behind .idle → body.Tidy .idle behind)
    (holdsBehind : holds .idle) : (loop position test body).Tidy phase holds :=
  ⟨idle, tidyTest (tidy_unlessHolds (tidyBody ⟨rfl, holdsBehind⟩))⟩

mutual

/-- The plan of a statement goes from the idle phase back to it. -/
theorem Source.Stmt.tidy_plan {holds : Phase → Prop} (holdsBehind : holds .idle) (statement : Stmt) :
    statement.plan.Tidy .idle holds := by
  cases statement with
  | routine position name body =>
    rw [Stmt.plan]
    refine ⟨rfl, tidy_blockPlan ?_ body⟩
    split
    · exact ⟨rfl, holdsBehind⟩
    · exact holdsBehind
  | ret position value =>
    cases value with
    | none => exact ⟨rfl, holdsBehind⟩
    | some value => exact value.tidy_plan ⟨rfl, holdsBehind⟩
  | branch position test body alternative =>
    have otherwise : (inside position (blockPlan alternative)).Tidy .idle fun last =>
        (label .ending).Tidy last holds :=
      tidy_blockPlan ⟨rfl, holdsBehind⟩ alternative
    rw [Stmt.plan]
    refine test.tidy_plan (tidy_unlessHolds (tidy_blockPlan ⟨rfl, ?_⟩ body))
    exact otherwise
  | whileLoop position test body =>
    rw [Stmt.plan]
    exact tidy_loop rfl (fun behind => test.tidy_plan behind) (fun behind => tidy_blockPlan behind body) holdsBehind
  | forLoop position init test step body =>
    rw [Stmt.plan]
    refine init.tidy_plan (tidy_loop rfl (fun behind => test.tidy_plan behind) ?_ holdsBehind)
    exact fun behind => tidy_blockPlan (step.tidy_plan behind) body
  | assign position targets value =>
    exact value.tidy_plan (tidy_keep rfl (tidy_targetsPlan holdsBehind targets))
  | evaluate position value => exact value.tidy_plan holdsBehind

theorem Source.tidy_blockPlan {holds : Phase → Prop} (holdsBehind : holds .idle) (statements : List Stmt) :
    (blockPlan statements).Tidy .idle holds := by
  cases statements with
  | nil => exact holdsBehind
  | cons statement statements => exact statement.tidy_plan (tidy_blockPlan holdsBehind statements)

end

end Trees

/-- The code of statements may stand where nothing of note stands before, and leaves nothing of note. -/
theorem blockCode_along {routines : List String} {scope : ScopeId} {statements : List Stmt}
    {state after : Emission} (ran : blockCode routines scope statements state = .ok () after) :
    ∃ code, after.listing = state.listing ++ code ∧ Phase.idle.Along code .idle := by
  rw [← code_blockPlan routines scope [] "" statements] at ran
  obtain ⟨code, listing, spelled⟩ := Plan.spelled ran
  have tidy : (blockPlan statements).Tidy .idle (.idle = ·) := tidy_blockPlan rfl statements
  obtain ⟨_, along, rfl⟩ := tidy.along spelled
  exact ⟨code, listing, along⟩

/-- In the listing of a program, every store stands right behind the computation of its address. -/
theorem Context.compile_along {context : Context} {haltLoop : Bool} {program : Program} {listing : Listing}
    (compiled : (context.compile haltLoop program).result = .ok listing) : Phase.idle.Along listing .idle := by
  obtain ⟨after, ran, rfl, _⟩ := compile_eq_ok compiled
  obtain ⟨known, registered, registers, ran⟩ := bind_eq_ok_iff.mp ran
  obtain ⟨⟨unchanged, _⟩, _⟩ := registerRoutines_eq_ok registers
  obtain ⟨_, noted, records, ran⟩ := bind_eq_ok_iff.mp ran
  obtain ⟨_, middle, blockRan, ran⟩ := bind_eq_ok_iff.mp ran
  obtain ⟨code, listing, along⟩ := blockCode_along blockRan
  have before : noted.listing = [] := by
    rw [listing_record rfl records, unchanged]
    rfl
  rw [before, List.nil_append] at listing
  split at ran
  · obtain ⟨_, appended, records, ran⟩ := bind_eq_ok_iff.mp ran
    obtain ⟨_, labelled, labels, ran⟩ := bind_eq_ok_iff.mp ran
    rw [listing_emit ran, listing_emit labels, listing_record rfl records, listing, List.append_assoc]
    exact Phase.along_append.mpr ⟨.idle, along, .label (.next .jump .nil)⟩
  · cases ran
    exact listing ▸ along

end Dcpu
