import Dcpu.Proofs.Codegen.ExpressionCode
import Dcpu.Proofs.Slots.Flat

/-! # The code of statements

Where every name has its address already, the code of a statement is put together from the code of
its parts, whatever scopes are opened for it on the way.
-/

namespace Dcpu

open Source Effects Gen

/-- The lines of a conditional around those of its parts. -/
def branchLines (tag : String) (test body alternative : Listing) : Listing :=
  test ++ (unlessHolds (Tag.alternative tag) ++ (body ++ .jump (Tag.ending tag) ::
    .label (Tag.alternative tag) :: (alternative ++ [.label (Tag.ending tag)])))

/-- The lines of a loop around those of its test and its body. -/
def loopLines (tag : String) (test body : Listing) : Listing :=
  .label (Tag.start tag) :: (test ++ (unlessHolds (Tag.ending tag) ++
    (body ++ [.jump (Tag.start tag), .label (Tag.ending tag)])))

/-- The code of the targets of an assignment whose value is kept in a slot. -/
inductive TargetsCode (layout : Layout) (used : Word → Prop) (slot : Word) :
    List Expr → Nat → Nat → Listing → Prop where
  | nil {tags} : TargetsCode layout used slot [] tags tags []
  | cons {target targets tags middle tags' code rest} :
      ExprCode layout used .address target tags middle code →
      TargetsCode layout used slot targets middle tags' rest →
      TargetsCode layout used slot (target :: targets) tags tags'
        (code ++ .set .atA (.memory slot) :: rest)

mutual

/-- The code of a statement for which the given addresses are in use and so many tags were drawn
before and after. -/
inductive StmtCode (layout : Layout) (used : Word → Prop) : Stmt → Nat → Nat → Listing → Prop where
  | branch {position test body alternative tags tested bodied tags' testCode bodyCode otherCode} :
      ExprCode layout used .value test (tags + 1) tested testCode →
      BlockCode layout used body tested bodied bodyCode →
      BlockCode layout used alternative bodied tags' otherCode →
      StmtCode layout used (.branch position test body alternative) tags tags'
        (branchLines (Tag.text Tag.conditional (tags + 1)) testCode bodyCode otherCode)
  | whileLoop {position test body tags tested tags' testCode bodyCode} :
      ExprCode layout used .value test (tags + 1) tested testCode →
      BlockCode layout used body tested tags' bodyCode →
      StmtCode layout used (.whileLoop position test body) tags tags'
        (loopLines (Tag.text Tag.loop (tags + 1)) testCode bodyCode)
  | forLoop {position init test step body tags begun tested bodied tags' initCode testCode bodyCode
        stepCode} :
      StmtCode layout used init tags begun initCode →
      ExprCode layout used .value test (begun + 1) tested testCode →
      BlockCode layout used body tested bodied bodyCode →
      StmtCode layout used step bodied tags' stepCode →
      StmtCode layout used (.forLoop position init test step body) tags tags'
        (initCode ++ loopLines (Tag.text Tag.loop (begun + 1)) testCode (bodyCode ++ stepCode))
  | assign {position targets value tags middle tags' slot valueCode targetsCode} :
      ExprCode layout used .value value tags middle valueCode → layout.Spare used slot →
      TargetsCode layout (Taking slot used) slot targets middle tags' targetsCode →
      StmtCode layout used (.assign position targets value) tags tags'
        (valueCode ++ .set (.memory slot) .a :: targetsCode)
  | evaluate {position value tags tags' code} :
      ExprCode layout used .value value tags tags' code →
      StmtCode layout used (.evaluate position value) tags tags' code

inductive BlockCode (layout : Layout) (used : Word → Prop) :
    List Stmt → Nat → Nat → Listing → Prop where
  | nil {tags} : BlockCode layout used [] tags tags []
  | cons {statement statements tags middle tags' code rest} :
      StmtCode layout used statement tags middle code →
      BlockCode layout used statements middle tags' rest →
      BlockCode layout used (statement :: statements) tags tags' (code ++ rest)

end

section Labels

variable {layout : Layout} {used : Word → Prop}

/-- Code of targets is labelled, whatever labels stand outside. -/
private theorem TargetsCode.labelled {slot : Word} {targets : List Expr} {tags tags' : Nat} {code : Listing}
    (isCode : TargetsCode layout used slot targets tags tags' code) (outside : List String) :
    code.Labelled outside tags tags' := by
  induction isCode with
  | nil => exact .nil _ _
  | cons isTarget _ ih => exact (isTarget.labelled _).append (.cons ih rfl)

private theorem labelled_unlessHolds {outside : List String} {name : String} (tags : Nat)
    (named : name ∈ outside) : Listing.Labelled outside tags tags (unlessHolds name) :=
  .cons (.jump (.nil _ _) named) rfl

/-- The lines of a conditional have the labels of its parts and two of its own. -/
private theorem labelled_branchLines {outside : List String} {tags tested bodied tags' : Nat}
    {test body alternative : Listing} (testLabels : ∀ outside, test.Labelled outside (tags + 1) tested)
    (bodyLabels : ∀ outside, body.Labelled outside tested bodied)
    (otherLabels : ∀ outside, alternative.Labelled outside bodied tags') :
    (branchLines (Tag.text Tag.conditional (tags + 1)) test body alternative).Labelled outside tags tags' := by
  let tag := Tag.text Tag.conditional (tags + 1)
  let otherwise := Tag.alternative tag
  let ending := Tag.ending tag
  have otherwiseNumber : Tag.number otherwise = tags + 1 := Tag.number_alternative _
  have endingNumber : Tag.number ending = tags + 1 := Tag.number_ending_conditional _
  let opening : Listing := test ++ (unlessHolds otherwise ++ (body ++ [.jump ending]))
  have before : opening.Labelled (otherwise :: ending :: outside) (tags + 1) bodied :=
    (testLabels _).append ((labelled_unlessHolds _ (by simp)).append
      ((bodyLabels _).append (.jump (.nil _ _) (by simp))))
  have whole := before.append (otherLabels _)
  have room : tags + 1 ≤ tags' := whole.ordered
  have inserted := (whole.weaken (Nat.le_succ tags) fun _ member => member).insert
    (whole.fresh (by omega)) (by omega) (by omega)
  have fresh : ending ∉ Listing.labels (opening ++ .label otherwise :: alternative) := by
    rw [Listing.Labelled.mem_labels_insert]
    rintro (same | member)
    · exact Tag.alternative_ne_ending tag same.symm
    · exact whole.fresh (by omega) member
  simpa [branchLines, opening] using inserted.close fresh (by omega) (by omega)

/-- The lines of a loop have the labels of its parts and two of its own. -/
private theorem labelled_loopLines {outside : List String} {tags tested tags' : Nat}
    {test body : Listing} (testLabels : ∀ outside, test.Labelled outside (tags + 1) tested)
    (bodyLabels : ∀ outside, body.Labelled outside tested tags') :
    (loopLines (Tag.text Tag.loop (tags + 1)) test body).Labelled outside tags tags' := by
  let tag := Tag.text Tag.loop (tags + 1)
  let start := Tag.start tag
  let ending := Tag.ending tag
  have startNumber : Tag.number start = tags + 1 := Tag.number_start _
  have endingNumber : Tag.number ending = tags + 1 := Tag.number_ending_loop _
  let inside : Listing := test ++ (unlessHolds ending ++ (body ++ [.jump start]))
  have whole : Listing.Labelled (start :: ending :: outside) (tags + 1) tags' ([] ++ inside) :=
    (testLabels _).append ((labelled_unlessHolds _ (by simp)).append
      ((bodyLabels _).append (.jump (.nil _ _) (by simp))))
  have room : tags + 1 ≤ tags' := whole.ordered
  have inserted := (whole.weaken (Nat.le_succ tags) fun _ member => member).insert
    (whole.fresh (by omega)) (by omega) (by omega)
  have fresh : ending ∉ Listing.labels ([] ++ .label start :: inside) := by
    rw [Listing.Labelled.mem_labels_insert]
    rintro (same | member)
    · exact Tag.start_ne_ending tag same.symm
    · exact whole.fresh (by omega) member
  simpa [loopLines, inside] using inserted.close fresh (by omega) (by omega)

mutual

/-- The labels of a statement's code were drawn for it, and it goes to no others. -/
theorem StmtCode.labelled {statement : Stmt} {tags tags' : Nat} {code : Listing}
    (isCode : StmtCode layout used statement tags tags' code) (outside : List String) :
    code.Labelled outside tags tags' := by
  cases isCode with
  | branch isTest isBody isOther =>
    exact labelled_branchLines isTest.labelled isBody.labelled isOther.labelled
  | whileLoop isTest isBody => exact labelled_loopLines isTest.labelled isBody.labelled
  | forLoop isInit isTest isBody isStep =>
    exact (isInit.labelled _).append (labelled_loopLines isTest.labelled fun outside =>
      (isBody.labelled outside).append (isStep.labelled outside))
  | assign isValue _ isTargets =>
    exact (isValue.labelled _).append (.cons (isTargets.labelled _) rfl)
  | evaluate isValue => exact isValue.labelled _

/-- The labels of the code of statements were drawn for it, and it goes to no others. -/
theorem BlockCode.labelled {statements : List Stmt} {tags tags' : Nat} {code : Listing}
    (isCode : BlockCode layout used statements tags tags' code) (outside : List String) :
    code.Labelled outside tags tags' := by
  cases isCode with
  | nil => exact .nil _ _
  | cons isStatement isRest => exact (isStatement.labelled _).append (isRest.labelled _)

end

end Labels

/-- The steps from one state to another have emitted code and kept the variables. -/
structure Emission.Extends (state : Emission) (code : Listing) (after : Emission) : Prop where
  keeps : state.context.slots.Keeps after.context.slots
  held : after.held = state.held
  listing : after.listing = state.listing ++ code

namespace Emission.Extends

variable {state middle after : Emission} {code more : Listing}

/-- What is written from a consistent allocator extends the listing. -/
theorem of_wrote (consistent : state.context.slots.Consistent []) (wrote : state.Wrote code after) :
    state.Extends code after :=
  ⟨by rw [wrote.slots]; exact .refl consistent, wrote.held, wrote.listing⟩

theorem trans (first : state.Extends code middle) (second : middle.Extends more after) :
    state.Extends (code ++ more) after :=
  ⟨first.keeps.trans second.keeps, second.held.trans first.held,
    by rw [second.listing, first.listing, List.append_assoc]⟩

theorem tagged (consistent : state.context.slots.Consistent []) : state.Extends [] state.tagged :=
  ⟨.refl consistent, rfl, by simp⟩

end Emission.Extends

/-- An allocator in the middle of statements has the variables that were bound before them, and sees
them from the scope of the statements. -/
structure Slots.Serves (slots : Slots) (state : Emission) (scope : ScopeId) : Prop where
  flat : slots.Flat
  consistent : slots.Consistent []
  keeps : slots.Keeps state.context.slots
  opened : (state.context.slots.around? scope).isSome

namespace Slots.Serves

variable {slots : Slots} {state after : Emission} {scope : ScopeId} {code : Listing}

/-- An allocator that serves a scope places the names there as at the beginning. -/
theorem layout_eq (serves : slots.Serves state scope) :
    state.context.slots.layout scope = slots.layout 0 := by
  obtain ⟨outer, opened⟩ := Option.isSome_iff_exists.mp serves.opened
  have here (name : String) : state.context.slots.visible? name scope = slots.visible? name 0 := by
    rw [serves.keeps.consistent.visible?_of_flat (serves.keeps.flat serves.flat) opened,
      serves.consistent.visible?_of_flat serves.flat serves.consistent.root,
      serves.keeps.live_eq serves.consistent]
  obtain ⟨first, last, screen⟩ := serves.keeps.bounds
  simp only [Slots.layout, first, last, screen, here]

theorem used_eq (serves : slots.Serves state scope) :
    (· ∈ state.context.slots.occupied) = (· ∈ slots.occupied) := by
  funext address
  exact propext (serves.keeps.occupied_iff serves.consistent address)

theorem knows (serves : slots.Serves state scope) {names : List String} (known : slots.Knows 0 names) :
    state.context.slots.Knows scope names := by
  intro name member plain
  obtain ⟨outer, opened⟩ := Option.isSome_iff_exists.mp serves.opened
  have found := known name member plain
  rw [serves.consistent.visible?_of_flat serves.flat serves.consistent.root] at found
  rw [serves.keeps.consistent.visible?_of_flat (serves.keeps.flat serves.flat) opened,
    serves.keeps.live_eq serves.consistent]
  exact found

/-- An allocator that serves a scope still does after steps that keep its variables. -/
theorem later (serves : slots.Serves state scope) (keeps : state.context.slots.Keeps after.context.slots) :
    slots.Serves after scope := by
  obtain ⟨outer, opened⟩ := Option.isSome_iff_exists.mp serves.opened
  exact ⟨serves.flat, serves.consistent, serves.keeps.trans keeps, by simp [keeps.opened scope outer opened]⟩

/-- Steps in a scope of their own see the same variables. -/
theorem inScope (serves : slots.Serves state scope) {position : Position} {body : ScopeId → Gen Unit}
    (ran : Gen.inScope scope position body state = .ok () after) :
    ∃ inner entered middle, slots.Serves entered inner ∧
      entered.context.tags = state.context.tags ∧ body inner entered = .ok () middle ∧
      after.context.tags = middle.context.tags ∧
      ∀ code, entered.Extends code middle → state.Extends code after := by
  obtain ⟨outer, opened⟩ := Option.isSome_iff_exists.mp serves.opened
  obtain ⟨inner, inside, middle, behind, opens, bodyRan, closes, rfl⟩ := inScope_eq_ok_iff.mp ran
  have steps := opens
  rw [Slots.openChild_eq opened] at steps
  cases steps
  have flat := serves.keeps.flat serves.flat
  have consistent := serves.keeps.consistent
  have entering : state.context.slots.Keeps (state.context.slots.opened (scope :: outer)) :=
    .opened_scope consistent opened
  let entered := (state.withSlots (state.context.slots.opened (scope :: outer))).noted
    (.opened state.context.slots.scopes.size scope)
  refine ⟨_, entered, middle, ⟨serves.flat, serves.consistent, serves.keeps.trans entering, ?_⟩, rfl,
    bodyRan, rfl, ?_⟩
  · change ((state.context.slots.opened (scope :: outer)).around? _).isSome
    simp [Slots.around?_opened]
  · intro code extends'
    refine ⟨.inScope consistent flat opened opens extends'.keeps closes, extends'.held, ?_⟩
    have entering : entered.listing = state.listing := by
      simp [entered, Emission.listing_noted, Event.line?]
    simpa [Emission.listing_noted, Event.line?, entering] using extends'.listing

/-- What a plan for a value emits is what it renders for the variables that were bound before. -/
theorem extends_of_isValue (serves : slots.Serves state scope) {routines : List String} {plan : Plan}
    {taken : List Word} {tag : String} {holds : Nat → Listing → Prop}
    (renders : plan.Renders (slots.layout 0) (· ∈ slots.occupied) taken tag state.context.tags code holds)
    (isValue : plan.isValue taken.length = true)
    (ran : plan.code routines scope taken tag state = .ok () after) :
    ∃ more, state.Extends more after ∧ holds after.context.tags (code ++ more) := by
  rw [← serves.layout_eq, ← serves.used_eq] at renders
  obtain ⟨more, wrote, holdsThere⟩ := renders.wrote isValue serves.keeps.consistent ran
  exact ⟨more, .of_wrote serves.keeps.consistent wrote, holdsThere⟩

end Slots.Serves

/-- What a plan emits between statements is what it renders for the variables that were bound before them. -/
theorem Plan.Renders.extends' {routines : List String} {plan : Plan} {scope : ScopeId} {taken : List Word}
    {tag : String} {code : Listing} {holds : Nat → Listing → Prop} {slots : Slots} {state after : Emission}
    (renders : plan.Renders (slots.layout 0) (· ∈ slots.occupied) taken tag state.context.tags code holds)
    (serves : slots.Serves state scope) (ran : plan.code routines scope taken tag state = .ok () after) :
    ∃ more, state.Extends more after ∧ holds after.context.tags (code ++ more) := by
  induction plan generalizing scope tag code holds state after with
  | noAddress | unsupported => cases ran
  | nothing | connective | access => exact serves.extends_of_isValue renders rfl ran
  | plain | jump | label =>
    cases ran
    exact ⟨_, .of_wrote serves.keeps.consistent ((Emission.Wrote.refl state).emitted _), renders⟩
  | ret | entry | call => exact renders.elim
  | both first second firstExtends secondExtends =>
    obtain ⟨_, middle, firstRan, secondRan⟩ := bind_eq_ok_iff.mp ran
    obtain ⟨more, extends', renders⟩ := firstExtends renders serves firstRan
    obtain ⟨rest, extendsRest, holdsThere⟩ := secondExtends renders (serves.later extends'.keeps) secondRan
    exact ⟨more ++ rest, extends'.trans extendsRest, by rwa [← List.append_assoc]⟩
  | keeping position body _ => exact serves.extends_of_isValue renders renders.1 ran
  | inside position body bodyExtends =>
    obtain ⟨inner, entered, middle, servesBody, enteredTags, bodyRan, afterTags, leaves⟩ := serves.inScope ran
    rw [← enteredTags] at renders
    obtain ⟨more, extends', holdsThere⟩ := bodyExtends renders servesBody bodyRan
    exact ⟨more, leaves more extends', by rwa [afterTags]⟩
  | tagged stem body bodyExtends =>
    obtain ⟨drawn, middle, drew, bodyRan⟩ := bind_eq_ok_iff.mp ran
    rw [nextTag_apply] at drew
    cases drew
    have drawing := Emission.Extends.tagged serves.keeps.consistent
    obtain ⟨more, extends', holdsThere⟩ :=
      @bodyExtends _ _ _ _ state.tagged _ renders (serves.later drawing.keeps) bodyRan
    exact ⟨more, drawing.trans extends', holdsThere⟩

section Trees

open Plan

variable {slots : Slots} {scope : ScopeId}

theorem Source.renders_targetsPlan {targets : List Expr} {used : Word → Prop} {slot : Word} {taken : List Word}
    {tag : String} {tags : Nat} (structured : allStructured targets = true)
    (known : slots.Knows scope (namesOfAll targets)) :
    (targetsPlan targets).RendersAs (slots.layout scope) used (slot :: taken) tag tags
      (TargetsCode (slots.layout scope) used slot targets tags) := by
  intro before holds holdsBehind
  induction targets generalizing tags before with
  | nil => exact List.append_nil before ▸ holdsBehind _ _ .nil
  | cons target targets ih =>
    obtain ⟨isStructured, areStructured⟩ := Bool.and_eq_true_iff.mp structured
    obtain ⟨targetKnown, restKnown⟩ := Slots.knows_append.mp known
    apply target.renders_plan (target.isPure_of_isStructured isStructured) targetKnown
    intro middle code isCode
    apply ih areStructured restKnown
    intro tags' rest isRest
    simpa using holdsBehind _ _ (.cons isCode isRest)

mutual

/-- The plan of a statement whose names are bound renders its code. -/
theorem Source.Stmt.renders_plan (statement : Stmt) {used : Word → Prop} {taken : List Word} {tag : String}
    {tags : Nat} (structured : statement.isStructured = true) (known : slots.Knows scope statement.names) :
    statement.plan.RendersAs (slots.layout scope) used taken tag tags
      (StmtCode (slots.layout scope) used statement tags) := by
  intro before holds holdsBehind
  cases statement with
  | routine | ret => simp [Stmt.isStructured] at structured
  | evaluate position value =>
    apply value.renders_plan (value.isPure_of_isStructured structured) known
    intro tags' code isCode
    exact holdsBehind _ _ (.evaluate isCode)
  | assign position targets value =>
    simp only [Stmt.isStructured, Bool.and_eq_true] at structured
    obtain ⟨⟨_, targetsStructured⟩, valueStructured⟩ := structured
    obtain ⟨targetsKnown, valueKnown⟩ := Slots.knows_append.mp known
    apply value.renders_plan (value.isPure_of_isStructured valueStructured) valueKnown
    intro middle valueCode isValue
    refine ⟨Bool.and_eq_true_iff.mpr ⟨rfl, isValue_targetsPlan _ _⟩, fun slot spare => ?_⟩
    apply renders_targetsPlan targetsStructured targetsKnown
    intro tags' targetsCode isTargets
    simpa using holdsBehind _ _ (.assign isValue spare isTargets)
  | branch position test body alternative =>
    simp only [Stmt.isStructured, Bool.and_eq_true] at structured
    obtain ⟨⟨testStructured, bodyStructured⟩, otherStructured⟩ := structured
    obtain ⟨testAndBody, otherKnown⟩ := Slots.knows_append.mp known
    obtain ⟨testKnown, bodyKnown⟩ := Slots.knows_append.mp testAndBody
    rw [Stmt.plan]
    apply test.renders_plan (test.isPure_of_isStructured testStructured) testKnown
    intro tested testCode isTest
    apply renders_blockPlan body bodyStructured bodyKnown
    intro bodied bodyCode isBody
    apply renders_blockPlan alternative otherStructured otherKnown
    intro tags' otherCode isOther
    simpa [Renders, branchLines, unlessHolds, Mark.label] using holdsBehind _ _ (.branch isTest isBody isOther)
  | whileLoop position test body =>
    obtain ⟨testStructured, bodyStructured⟩ := Bool.and_eq_true_iff.mp structured
    obtain ⟨testKnown, bodyKnown⟩ := Slots.knows_append.mp known
    rw [Stmt.plan]
    apply test.renders_plan (test.isPure_of_isStructured testStructured) testKnown
    intro tested testCode isTest
    apply renders_blockPlan body bodyStructured bodyKnown
    intro tags' bodyCode isBody
    simpa [Renders, loopLines, unlessHolds, Mark.label] using holdsBehind _ _ (.whileLoop isTest isBody)
  | forLoop position init test step body =>
    simp only [Stmt.isStructured, Bool.and_eq_true] at structured
    obtain ⟨⟨⟨⟨⟨_, initStructured⟩, testStructured⟩, _⟩, stepStructured⟩, bodyStructured⟩ := structured
    obtain ⟨others, bodyKnown⟩ := Slots.knows_append.mp known
    obtain ⟨initAndTest, stepKnown⟩ := Slots.knows_append.mp others
    obtain ⟨initKnown, testKnown⟩ := Slots.knows_append.mp initAndTest
    rw [Stmt.plan]
    apply init.renders_plan initStructured initKnown
    intro begun initCode isInit
    apply test.renders_plan (test.isPure_of_isStructured testStructured) testKnown
    intro tested testCode isTest
    apply renders_blockPlan body bodyStructured bodyKnown
    intro bodied bodyCode isBody
    apply step.renders_plan stepStructured stepKnown
    intro tags' stepCode isStep
    simpa [Renders, loopLines, unlessHolds, Mark.label] using
      holdsBehind _ _ (.forLoop isInit isTest isBody isStep)

theorem Source.renders_blockPlan (statements : List Stmt) {used : Word → Prop} {taken : List Word}
    {tag : String} {tags : Nat} (structured : blockStructured statements = true)
    (known : slots.Knows scope (namesOfBlock statements)) :
    (blockPlan statements).RendersAs (slots.layout scope) used taken tag tags
      (BlockCode (slots.layout scope) used statements tags) := by
  intro before holds holdsBehind
  cases statements with
  | nil => exact List.append_nil before ▸ holdsBehind _ _ .nil
  | cons statement statements =>
    obtain ⟨isStructured, areStructured⟩ := Bool.and_eq_true_iff.mp structured
    obtain ⟨statementKnown, restKnown⟩ := Slots.knows_append.mp known
    apply statement.renders_plan isStructured statementKnown
    intro middle code isCode
    apply renders_blockPlan statements areStructured restKnown
    intro tags' rest isRest
    simpa using holdsBehind _ _ (.cons isCode isRest)

end

end Trees

/-- What is emitted for statements whose names are bound is their code. -/
theorem blockCode_emits (routines : List String) (scope : ScopeId) (statements : List Stmt)
    {slots : Slots} {state after : Emission}
    (ran : blockCode routines scope statements state = .ok () after) (serves : slots.Serves state scope)
    (structured : blockStructured statements = true) (known : slots.Knows 0 (namesOfBlock statements)) :
    ∃ code, BlockCode (slots.layout 0) (· ∈ slots.occupied) statements state.context.tags
      after.context.tags code ∧ state.Extends code after := by
  rw [← code_blockPlan routines scope [] ""] at ran
  have renders : (blockPlan statements).Renders (slots.layout 0) (· ∈ slots.occupied) [] "" state.context.tags []
      (BlockCode (slots.layout 0) (· ∈ slots.occupied) statements state.context.tags) :=
    renders_blockPlan statements structured known fun _ _ isCode => isCode
  obtain ⟨code, extends', isCode⟩ := renders.extends' serves ran
  exact ⟨code, isCode, extends'⟩

end Dcpu
