import Dcpu.Proofs.Codegen.Labels
import Dcpu.Proofs.Codegen.Plans
import Dcpu.Proofs.Source.Evaluation

/-! # The code of expressions

Where every name of an expression has its address already, the code of the expression depends on
little of the state: on the addresses of names, on slots for intermediate results that are free, and
on the number of tags drawn so far. `ExprCode` says what the code is, without the steps that emit it.
-/

namespace Dcpu

open Source Effects Gen

/-- Where code finds its words: the range of variables, the screen, and the addresses of names. -/
structure Layout where
  first : Word
  last : Word
  screen : Word
  home? : String → Option Word

namespace Layout

def InRange (layout : Layout) (address : Word) : Prop :=
  layout.first ≤ address ∧ address ≤ layout.last

def address? (layout : Layout) (name : String) : Option Word :=
  if Slots.isScreen name then some layout.screen else layout.home? name

/-- An address may be taken for an intermediate result. -/
def Spare (layout : Layout) (used : Word → Prop) (slot : Word) : Prop :=
  layout.InRange slot ∧ ¬ used slot

end Layout

/-- The addresses in use when one more is taken. -/
def Taking (slot : Word) (used : Word → Prop) : Word → Prop :=
  fun address => address = slot ∨ used address

/-- The line that follows an address in register `a` when its word is wanted. -/
def Want.readBack : Want → Listing
  | value => [.set .a .atA]
  | address => []

mutual

/-- The code of an expression for which the given addresses are in use and so many tags were drawn
before and after. -/
inductive ExprCode (layout : Layout) :
    (Word → Prop) → Want → Expr → Nat → Nat → Listing → Prop where
  | name {used want position name address tags} : layout.address? name = some address →
      ExprCode layout used want (.name position name) tags tags [.set .a (want.operand address)]
  | index {used want position base index slot tags middle tags' indexCode baseCode} :
      ExprCode layout used .value index tags middle indexCode → layout.Spare used slot →
      ExprCode layout (Taking slot used) .address base middle tags' baseCode →
      ExprCode layout used want (.index position base index) tags tags'
        (indexCode ++ .set (.memory slot) .a ::
          (baseCode ++ .basic .add .a (.memory slot) :: want.readBack))
  | number {used position value tags} :
      ExprCode layout used .value (.number position value) tags tags [.set .a (.literal value)]
  | binary {used position op opcode left right slot tags middle tags' leftCode rightCode} :
      opcode? op = some opcode → ExprCode layout used .value left tags middle leftCode →
      layout.Spare used slot →
      ExprCode layout (Taking slot used) .value right middle tags' rightCode →
      ExprCode layout used .value (.binary position op left right) tags tags'
        (leftCode ++ .set (.memory slot) .a ::
          (rightCode ++ [.basic opcode (.memory slot) .a, .set .a (.memory slot)]))
  | not {used position operand tags tags' code} :
      ExprCode layout used .value operand tags tags' code →
      ExprCode layout used .value (.unary position .not operand) tags tags'
        (code ++ [.basic .xor .a (.literal 1)])
  | logical {used position op operands tags tags' code} :
      OperandsCode layout used op (Tag.skip (Tag.text Tag.logical (tags + 1))) operands (tags + 1) tags'
        code →
      ExprCode layout used .value (.logical position op operands) tags tags'
        (code ++ [.label (Tag.skip (Tag.text Tag.logical (tags + 1)))])
  | comparison {used position first stages done left right tags middle tags' code firstCode} :
      stages.length = 1 → ExprCode layout used .value first tags middle firstCode →
      layout.Spare used left → layout.Spare (Taking left used) right →
      StagesCode layout (Taking right (Taking left used)) done left right stages middle tags' code →
      ExprCode layout used .value (.compare position first stages) tags tags'
        (firstCode ++ .set (.memory left) .a :: code)
  | chain {used position first stages left right tags middle tags' code firstCode} :
      1 < stages.length → ExprCode layout used .value first (tags + 1) middle firstCode →
      layout.Spare used left → layout.Spare (Taking left used) right →
      StagesCode layout (Taking right (Taking left used))
        (Tag.done (Tag.text Tag.comparison (tags + 1))) left right stages middle tags' code →
      ExprCode layout used .value (.compare position first stages) tags tags'
        (firstCode ++ .set (.memory left) .a ::
          (code ++ [.label (Tag.done (Tag.text Tag.comparison (tags + 1)))]))

/-- The code of the operands of a connective, with the label behind it. -/
inductive OperandsCode (layout : Layout) :
    (Word → Prop) → LogicalOp → String → List Expr → Nat → Nat → Listing → Prop where
  | last {used op skip operand tags tags' code} :
      ExprCode layout used .value operand tags tags' code →
      OperandsCode layout used op skip [operand] tags tags' code
  | more {used op skip operand operands tags middle tags' code rest} : operands ≠ [] →
      ExprCode layout used .value operand tags middle code →
      OperandsCode layout used op skip operands middle tags' rest →
      OperandsCode layout used op skip (operand :: operands) tags tags'
        (code ++ .basic .ife .a (.literal op.settling) :: .jump skip :: rest)

/-- The code of the stages of a comparison, with the label behind it and the addresses of the sides. -/
inductive StagesCode (layout : Layout) :
    (Word → Prop) → String → Word → Word → List (Relation × Expr) → Nat → Nat → Listing → Prop where
  | last {used done left right relation operand tags tags' code} :
      ExprCode layout used .value operand tags tags' code →
      StagesCode layout used done left right [(relation, operand)] tags tags'
        (code ++ .set (.memory right) .a :: relationCode relation left right)
  | more {used done left right relation operand stages tags middle tags' code rest} : stages ≠ [] →
      ExprCode layout used .value operand tags middle code →
      StagesCode layout used done left right stages middle tags' rest →
      StagesCode layout used done left right ((relation, operand) :: stages) tags tags'
        (code ++ .set (.memory right) .a :: (relationCode relation left right ++
          .basic .ife .a (.literal 0) :: .jump done :: .set (.memory left) (.memory right) :: rest))

end

/-- Where an allocator places the names that are seen from a scope. -/
def Slots.layout (slots : Slots) (scope : ScopeId) : Layout where
  first := slots.first
  last := slots.last
  screen := slots.screen
  home? name := (slots.visible? name scope).map Binding.address

/-- Every name but the screen's has its address already. -/
def Slots.Knows (slots : Slots) (scope : ScopeId) (names : List String) : Prop :=
  ∀ name ∈ names, Slots.isScreen name = false → (slots.visible? name scope).isSome

theorem Slots.knows_append {slots : Slots} {scope : ScopeId} {names more : List String} :
    slots.Knows scope (names ++ more) ↔ slots.Knows scope names ∧ slots.Knows scope more := by
  simp only [Slots.Knows, List.mem_append]
  constructor
  · intro all
    exact ⟨fun name member => all name (.inl member), fun name member => all name (.inr member)⟩
  · rintro ⟨first, second⟩ name (member | member)
    · exact first name member
    · exact second name member

/-- The steps from one state to another have emitted code and left the allocator as it was. -/
structure Emission.Wrote (state : Emission) (code : Listing) (after : Emission) : Prop where
  slots : after.context.slots = state.context.slots
  held : after.held = state.held
  listing : after.listing = state.listing ++ code

namespace Emission.Wrote

variable {state middle after : Emission} {code more : Listing} {held : List Word} {slot : Word}

theorem refl (state : Emission) : state.Wrote [] state :=
  ⟨rfl, rfl, by simp⟩

theorem trans (first : state.Wrote code middle) (second : middle.Wrote more after) :
    state.Wrote (code ++ more) after :=
  ⟨second.slots.trans first.slots, second.held.trans first.held,
    by rw [second.listing, first.listing, List.append_assoc]⟩

theorem emitted (wrote : state.Wrote code middle) (line : Line) :
    state.Wrote (code ++ [line]) (middle.noted (.emitted line)) :=
  wrote.trans ⟨rfl, rfl, listing_noted _ _⟩

/-- A slot that was held in between is free again. -/
theorem scratch (consistent : state.context.slots.Consistent held)
    (free : state.context.slots.free? = some slot) (wrote : (state.holding slot).Wrote code middle) :
    state.Wrote code (middle.dropping slot) := by
  obtain ⟨fresh, _, _⟩ := consistent.ranged.free?_eq_some free
  refine ⟨?_, ?_, ?_⟩
  · have inside : middle.context.slots = state.context.slots.occupy slot := wrote.slots
    change middle.context.slots.release slot = _
    rw [inside, Slots.release_occupy fresh]
  · change middle.held - 1 = state.held
    rw [wrote.held]
    rfl
  · rw [listing_dropping, wrote.listing, listing_holding]

end Emission.Wrote

/-- An address that the allocator offers may be used as scratch space beside the addresses in use. -/
theorem spare_of_free {slots : Slots} {held : List Word} (consistent : slots.Consistent held)
    {slot : Word} (free : slots.free? = some slot) (scope : ScopeId) :
    (slots.layout scope).Spare (· ∈ slots.occupied) slot := by
  obtain ⟨fresh, inside, _⟩ := consistent.ranged.free?_eq_some free
  exact ⟨inside, fresh⟩

theorem used_occupy (slots : Slots) (slot : Word) :
    (· ∈ (slots.occupy slot).occupied) = Taking slot (· ∈ slots.occupied) := by
  funext address
  simp [Slots.occupy, Taking]

/-- A name that has its address is found there, and nothing else happens. -/
theorem addressOf_placed {name : String} {scope : ScopeId} {position : Position} {state : Emission}
    {held : List Word} (consistent : state.context.slots.Consistent held) {address : Word}
    (placed : (state.context.slots.layout scope).address? name = some address) :
    addressOf name scope position state = .ok address state := by
  unfold Layout.address? at placed
  split at placed
  · rename_i screen
    cases placed
    exact addressOf_screen screen scope position state
  · rename_i other
    obtain ⟨binding, seen, rfl⟩ := Option.map_eq_some_iff.mp placed
    exact addressOf_visible (Bool.eq_false_iff.mpr other) position consistent seen

theorem Slots.Knows.exists_address {slots : Slots} {scope : ScopeId} {names : List String}
    (known : slots.Knows scope names) {name : String} (member : name ∈ names) :
    ∃ address, (slots.layout scope).address? name = some address := by
  unfold Layout.address?
  split
  · exact ⟨_, rfl⟩
  · rename_i other
    have seen := known name member (Bool.eq_false_iff.mpr other)
    exact Option.isSome_iff_exists.mp (by simpa [Slots.layout] using seen)

namespace Plan

/-- All names of a plan have their addresses, and whichever slots it takes, what is asked of the tags drawn and
the lines emitted up to its end holds. Slots are taken for values only. Behind a refusal there are no lines. -/
def Renders (layout : Layout) :
    Plan → (Word → Prop) → List Word → String → Nat → Listing → (Nat → Listing → Prop) → Prop
  | nothing, _, _, _, tags, code, holds | connective .., _, _, _, tags, code, holds => holds tags code
  | noAddress .., _, _, _, _, _, _ | unsupported .., _, _, _, _, _, _ => True
  | plain line, _, taken, _, tags, code, holds => holds tags (code ++ [line.readdressed (slotAt taken)])
  | jump mark, _, _, tag, tags, code, holds => holds tags (code ++ [.jump (mark.label tag)])
  | label mark, _, _, tag, tags, code, holds => holds tags (code ++ [.label (mark.label tag)])
  | access want name _, _, _, _, tags, code, holds =>
    ∃ address, layout.address? name = some address ∧ holds tags (code ++ [.set .a (want.operand address)])
  | ret, _, _, _, _, _, _ | entry .., _, _, _, _, _, _ | call .., _, _, _, _, _, _ => False
  | both first second, used, taken, tag, tags, code, holds =>
    first.Renders layout used taken tag tags code fun middle code =>
      second.Renders layout used taken tag middle code holds
  | keeping _ body, used, taken, tag, tags, code, holds =>
    body.isValue (taken.length + 1) = true ∧ ∀ slot, layout.Spare used slot →
      body.Renders layout (Taking slot used) (slot :: taken) tag tags code holds
  | inside _ body, used, taken, tag, tags, code, holds => body.Renders layout used taken tag tags code holds
  | tagged stem body, used, taken, _, tags, code, holds =>
    body.Renders layout used taken (Tag.text stem (tags + 1)) (tags + 1) code holds

/-- What a plan for a value emits is what it renders. -/
theorem Renders.wrote {routines : List String} {plan : Plan} {scope : ScopeId} {taken held : List Word}
    {tag : String} {code : Listing} {holds : Nat → Listing → Prop} {state after : Emission}
    (renders : plan.Renders (state.context.slots.layout scope) (· ∈ state.context.slots.occupied) taken tag
      state.context.tags code holds)
    (isValue : plan.isValue taken.length = true) (consistent : state.context.slots.Consistent held)
    (ran : plan.code routines scope taken tag state = .ok () after) :
    ∃ more, state.Wrote more after ∧ holds after.context.tags (code ++ more) := by
  induction plan generalizing taken held tag code holds state after with
  | nothing =>
    cases ran
    exact ⟨[], .refl _, by rwa [List.append_nil]⟩
  | noAddress | unsupported => cases ran
  | plain | jump | label =>
    cases ran
    exact ⟨_, (Emission.Wrote.refl state).emitted _, renders⟩
  | connective op operands =>
    cases ran
    exact ⟨[], ⟨rfl, rfl, Emission.listing_noted _ _⟩, by rwa [List.append_nil]⟩
  | access want name position =>
    obtain ⟨address, placed, holdsThere⟩ := renders
    obtain ⟨_, _, found, ran⟩ := bind_eq_ok_iff.mp ran
    cases found.symm.trans (addressOf_placed consistent placed)
    cases ran
    exact ⟨_, (Emission.Wrote.refl state).emitted _, holdsThere⟩
  | ret | entry | call => exact renders.elim
  | both first second firstWrote secondWrote =>
    obtain ⟨firstValue, secondValue⟩ := Bool.and_eq_true_iff.mp isValue
    obtain ⟨_, middle, firstRan, secondRan⟩ := bind_eq_ok_iff.mp ran
    obtain ⟨more, wrote, renders⟩ := firstWrote renders firstValue consistent firstRan
    rw [← wrote.slots] at renders consistent
    obtain ⟨rest, wroteRest, holdsThere⟩ := secondWrote renders secondValue consistent secondRan
    exact ⟨more ++ rest, wrote.trans wroteRest, by rwa [← List.append_assoc]⟩
  | keeping position body bodyWrote =>
    obtain ⟨slot, inner, free, bodyRan, rfl⟩ := withScratch_eq_ok_iff.mp ran
    have renders := renders.2 slot (spare_of_free consistent free scope)
    rw [← used_occupy] at renders
    obtain ⟨more, wrote, holdsThere⟩ := bodyWrote renders isValue (consistent.occupy free) bodyRan
    exact ⟨more, .scratch consistent free wrote, holdsThere⟩
  | inside => cases isValue
  | tagged stem body bodyWrote =>
    obtain ⟨drawn, middle, drew, bodyRan⟩ := bind_eq_ok_iff.mp ran
    rw [nextTag_apply] at drew
    cases drew
    obtain ⟨more, wrote, holdsThere⟩ := @bodyWrote _ _ _ _ _ state.tagged _ renders isValue consistent bodyRan
    exact ⟨more, ⟨wrote.slots, wrote.held, wrote.listing⟩, holdsThere⟩

section Lines

variable {layout : Layout} {used : Word → Prop} {taken : List Word} {tag : String} {tags : Nat} {code : Listing}
  {holds : Nat → Listing → Prop}

/-- Plain lines render as themselves, at the slots that are taken. -/
theorem renders_lines {plain : List Line}
    (holdsBehind : holds tags (code ++ plain.map (Line.readdressed (slotAt taken)))) :
    (lines plain).Renders layout used taken tag tags code holds := by
  induction plain generalizing code with
  | nil => exact List.append_nil code ▸ holdsBehind
  | cons line plain ih => exact ih (by simpa using holdsBehind)

/-- Behind the check that a value is wanted, the rest has to render only where one is. -/
theorem renders_valueOnly {want : Want} {form : ExprForm} {position : Position} {rest : Plan}
    (renders : want = .value → rest.Renders layout used taken tag tags code holds) :
    (valueOnly want form position ++ rest).Renders layout used taken tag tags code holds := by
  cases want with
  | value => exact renders rfl
  | address => exact trivial

/-- A plan renders code of the given kind, whatever stands in front of it and is asked behind it. -/
def RendersAs (layout : Layout) (plan : Plan) (used : Word → Prop) (taken : List Word) (tag : String) (tags : Nat)
    (isCode : Nat → Listing → Prop) : Prop :=
  ∀ ⦃before holds⦄, (∀ tags' code, isCode tags' code → holds tags' (before ++ code)) →
    plan.Renders layout used taken tag tags before holds

/-- The first side of a comparison is kept in a slot, and a second slot is taken for the others. -/
theorem rendersAs_sides {position : Position} {first : Expr} {stages : List (Relation × Expr)} {several : Bool}
    (firstRenders : (first.plan .value).RendersAs layout used taken tag tags
      (ExprCode layout used .value first tags))
    (stagesRender : ∀ ⦃used left right middle⦄, (stagesPlan several stages).RendersAs layout used
      (right :: left :: taken) tag middle (StagesCode layout used (Tag.done tag) left right stages middle)) :
    (first.plan .value ++ keeping position (plain (.set (.memory 0) .a) ++
      keeping position (stagesPlan several stages))).RendersAs layout used taken tag tags fun tags' code =>
        ∃ middle firstCode left right stagesCode, ExprCode layout used .value first tags middle firstCode ∧
          layout.Spare used left ∧ layout.Spare (Taking left used) right ∧
          StagesCode layout (Taking right (Taking left used)) (Tag.done tag) left right stages middle tags'
            stagesCode ∧
          code = firstCode ++ .set (.memory left) .a :: stagesCode := by
  intro before holds holdsBehind
  apply firstRenders
  intro middle firstCode isFirst
  have isValue := isValue_stagesPlan taken.length several stages
  refine ⟨Bool.and_eq_true_iff.mpr ⟨rfl, isValue⟩, fun left spareLeft => ⟨isValue, fun right spareRight => ?_⟩⟩
  apply stagesRender
  intro tags' stagesCode isStages
  simpa using holdsBehind _ _ ⟨_, _, _, _, _, isFirst, spareLeft, spareRight, isStages, rfl⟩

/-- With several stages a comparison has a label behind it, where it ends as soon as a stage fails. -/
theorem rendersAs_compare {want : Want} {position : Position} {first : Expr} {stages : List (Relation × Expr)}
    (some : stages ≠ [])
    (firstRenders : ∀ tag tags, (first.plan .value).RendersAs layout used taken tag tags
      (ExprCode layout used .value first tags))
    (stagesRender : ∀ ⦃several⦄, (stages.length ≠ 1 → several = true) → ∀ tag ⦃used left right tags⦄,
      (stagesPlan several stages).RendersAs layout used (right :: left :: taken) tag tags
        (StagesCode layout used (Tag.done tag) left right stages tags)) :
    ((Expr.compare position first stages).plan want).RendersAs layout used taken tag tags
      (ExprCode layout used want (.compare position first stages) tags) := by
  intro before holds holdsBehind
  rw [Expr.plan]
  apply renders_valueOnly
  rintro rfl
  by_cases several : 1 < stages.length
  · rw [decide_eq_true several]
    apply rendersAs_sides (firstRenders _ _) (stagesRender (fun _ => rfl) _)
    rintro tags' _ ⟨middle, firstCode, left, right, code, isFirst, spareLeft, spareRight, isStages, rfl⟩
    simpa [Renders, Mark.label] using holdsBehind _ _ (.chain several isFirst spareLeft spareRight isStages)
  · have single : stages.length = 1 := by
      have := List.length_pos_iff.mpr some
      omega
    rw [decide_eq_false several]
    apply rendersAs_sides (firstRenders _ _) (stagesRender (fun several => (several single).elim) _)
    rintro tags' _ ⟨middle, firstCode, left, right, code, isFirst, spareLeft, spareRight, isStages, rfl⟩
    exact holdsBehind _ _ (.comparison single isFirst spareLeft spareRight isStages)

end Lines

end Plan

section Trees

open Plan

variable {slots : Slots} {scope : ScopeId}

mutual

/-- The plan of an expression whose names have their addresses renders its code. -/
theorem Source.Expr.renders_plan {want : Want} (expr : Expr) {used : Word → Prop} {taken : List Word}
    {tag : String} {tags : Nat} (isPure : expr.isPure = true) (known : slots.Knows scope expr.names) :
    (expr.plan want).RendersAs (slots.layout scope) used taken tag tags
      (ExprCode (slots.layout scope) used want expr tags) := by
  intro before holds holdsBehind
  cases expr with
  | number position value =>
    apply renders_valueOnly
    rintro rfl
    exact holdsBehind _ _ .number
  | name position name =>
    obtain ⟨address, placed⟩ := known.exists_address (List.mem_singleton_self name)
    exact ⟨address, placed, holdsBehind _ _ (.name placed)⟩
  | call position routine => cases isPure
  | unary position op operand =>
    cases op with
    | negate => cases want <;> exact trivial
    | not =>
      apply renders_valueOnly
      rintro rfl
      apply operand.renders_plan isPure known
      intro tags' code isCode
      simpa [Renders] using holdsBehind _ _ (.not isCode)
  | binary position op left right =>
    obtain ⟨leftPure, rightPure⟩ := Bool.and_eq_true_iff.mp isPure
    obtain ⟨leftKnown, rightKnown⟩ := Slots.knows_append.mp known
    rw [Expr.plan]
    apply renders_valueOnly
    rintro rfl
    cases found : opcode? op with
    | none => exact trivial
    | some opcode =>
      apply left.renders_plan leftPure leftKnown
      intro middle leftCode isLeft
      refine ⟨by simp only [isValue_append, Expr.isValue_plan]; rfl, fun slot spare => ?_⟩
      apply right.renders_plan rightPure rightKnown
      intro tags' rightCode isRight
      simpa [Renders] using holdsBehind _ _ (.binary found isLeft spare isRight)
  | index position base index =>
    obtain ⟨basePure, indexPure⟩ := Bool.and_eq_true_iff.mp isPure
    obtain ⟨baseKnown, indexKnown⟩ := Slots.knows_append.mp known
    rw [Expr.plan]
    apply index.renders_plan indexPure indexKnown
    intro middle indexCode isIndex
    refine ⟨by simp only [isValue_append, Expr.isValue_plan]; rfl, fun slot spare => ?_⟩
    apply base.renders_plan basePure baseKnown
    intro tags' baseCode isBase
    have whole := holdsBehind _ _ (.index isIndex spare isBase)
    cases want <;> simpa [Renders, Want.readBack] using whole
  | logical position op operands =>
    obtain ⟨some, operandsPure⟩ := Bool.and_eq_true_iff.mp isPure
    apply renders_valueOnly
    rintro rfl
    apply renders_operandsPlan operands (by simpa using some) operandsPure known
    intro tags' code isCode
    simpa [Renders, Mark.label] using holdsBehind _ _ (.logical isCode)
  | compare position first stages =>
    simp only [Expr.isPure, Bool.and_eq_true] at isPure
    obtain ⟨⟨some, firstPure⟩, stagesArePure⟩ := isPure
    obtain ⟨firstKnown, stagesKnown⟩ := Slots.knows_append.mp known
    have some : stages ≠ [] := by simpa using some
    exact rendersAs_compare some (fun _ _ => first.renders_plan firstPure firstKnown)
      (fun _ chained _ _ _ _ _ => renders_stagesPlan stages chained some stagesArePure stagesKnown) holdsBehind

theorem Source.renders_operandsPlan {op : LogicalOp} (operands : List Expr) {used : Word → Prop}
    {taken : List Word} {tag : String} {tags : Nat} (some : operands ≠ []) (arePure : allPure operands = true)
    (known : slots.Knows scope (namesOfAll operands)) :
    (operandsPlan op operands).RendersAs (slots.layout scope) used taken tag tags
      (OperandsCode (slots.layout scope) used op (Tag.skip tag) operands tags) := by
  intro before holds holdsBehind
  match operands with
  | [] => exact absurd rfl some
  | [operand] =>
    obtain ⟨isPure, _⟩ := Bool.and_eq_true_iff.mp arePure
    obtain ⟨operandKnown, _⟩ := Slots.knows_append.mp known
    apply operand.renders_plan isPure operandKnown
    intro tags' code isCode
    exact holdsBehind _ _ (.last isCode)
  | operand :: next :: operands =>
    obtain ⟨isPure, arePure⟩ := Bool.and_eq_true_iff.mp arePure
    obtain ⟨operandKnown, known⟩ := Slots.knows_append.mp known
    apply operand.renders_plan isPure operandKnown
    intro middle code isCode
    apply renders_operandsPlan (next :: operands) (List.cons_ne_nil _ _) arePure known
    intro tags' rest isRest
    simpa [Mark.label] using holdsBehind _ _ (.more (List.cons_ne_nil _ _) isCode isRest)

theorem Source.renders_stagesPlan {several : Bool} (stages : List (Relation × Expr)) {used : Word → Prop}
    {left right : Word} {taken : List Word} {tag : String} {tags : Nat}
    (chained : stages.length ≠ 1 → several = true) (some : stages ≠ []) (arePure : stagesPure stages = true)
    (known : slots.Knows scope (namesOfStages stages)) :
    (stagesPlan several stages).RendersAs (slots.layout scope) used (right :: left :: taken) tag tags
      (StagesCode (slots.layout scope) used (Tag.done tag) left right stages tags) := by
  intro before holds holdsBehind
  match stages with
  | [] => exact absurd rfl some
  | (relation, operand) :: stages =>
    obtain ⟨isPure, arePure⟩ := Bool.and_eq_true_iff.mp arePure
    obtain ⟨operandKnown, known⟩ := Slots.knows_append.mp known
    apply operand.renders_plan isPure operandKnown
    intro middle code isCode
    apply renders_lines
    rw [← relationCode_readdressed]
    cases stages with
    | nil =>
      have whole := holdsBehind _ _ (.last isCode)
      cases several <;> simpa [Renders, stagesPlan, nextStage] using whole
    | cons next stages =>
      obtain rfl := chained (by simp)
      apply renders_stagesPlan (next :: stages) (fun _ => rfl) (List.cons_ne_nil _ _) arePure known
      intro tags' rest isRest
      simpa [Mark.label] using holdsBehind _ _ (.more (List.cons_ne_nil _ _) isCode isRest)

end

end Trees

/-- What is emitted for an expression whose names have their addresses is its code. -/
theorem exprCode_emits (routines : List String) (scope : ScopeId) (want : Want) (expr : Expr)
    {state after : Emission} {held : List Word}
    (ran : exprCode routines scope want expr state = .ok () after)
    (isPure : expr.isPure = true) (consistent : state.context.slots.Consistent held)
    (known : state.context.slots.Knows scope expr.names) :
    ∃ code, ExprCode (state.context.slots.layout scope) (· ∈ state.context.slots.occupied) want expr
      state.context.tags after.context.tags code ∧ state.Wrote code after := by
  rw [← expr.code_plan routines scope [] ""] at ran
  have renders : (expr.plan want).Renders (state.context.slots.layout scope)
      (· ∈ state.context.slots.occupied) [] "" state.context.tags [] (ExprCode (state.context.slots.layout scope)
        (· ∈ state.context.slots.occupied) want expr state.context.tags) :=
    expr.renders_plan isPure known fun _ _ isCode => isCode
  obtain ⟨code, wrote, isCode⟩ := renders.wrote (expr.isValue_plan 0 want) consistent ran
  exact ⟨code, isCode, wrote⟩

private theorem relationCode_plain (relation : Relation) (left right : Word) :
    Listing.labels (relationCode relation left right) = [] ∧
      Listing.targets (relationCode relation left right) = [] := by
  cases relation <;> exact ⟨rfl, rfl⟩

private theorem labelled_relationCode (outside : List String) (tags : Nat) (relation : Relation)
    (left right : Word) : Listing.Labelled outside tags tags (relationCode relation left right) :=
  .of_plain tags (relationCode_plain relation left right).1
    (by simp [(relationCode_plain relation left right).2])

private theorem labelled_readBack (outside : List String) (tags : Nat) (want : Want) :
    Listing.Labelled outside tags tags want.readBack := by
  cases want with
  | value => exact .cons (.nil _ _) rfl
  | address => exact .nil _ _

mutual

/-- The labels of an expression's code were drawn for it, and it goes to no others. -/
theorem ExprCode.labelled {layout : Layout} {used : Word → Prop} {want : Want} {expr : Expr}
    {tags tags' : Nat} {code : Listing} (isCode : ExprCode layout used want expr tags tags' code)
    (outside : List String) : Listing.Labelled outside tags tags' code := by
  cases isCode with
  | name found => cases want <;> exact .cons (.nil _ _) rfl
  | number => exact .cons (.nil _ _) rfl
  | index isIndex _ isBase =>
    exact (isIndex.labelled _).append
      (.cons ((isBase.labelled _).append (.cons (labelled_readBack _ _ _) rfl)) rfl)
  | @binary _ _ _ opcode _ _ _ _ _ _ _ _ _ isLeft _ isRight =>
    exact (isLeft.labelled _).append
      (.cons ((isRight.labelled _).append (.cons (.cons (.nil _ _) rfl) rfl)) rfl)
  | not isOperand => exact (isOperand.labelled _).append (.cons (.nil _ _) rfl)
  | logical isOperands =>
    have operands := isOperands.labelled outside
    refine (operands.weaken (Nat.le_succ tags) (fun _ member => member)).close
      (operands.fresh (by simp)) (by simp) ?_
    simpa using operands.ordered
  | comparison single isFirst _ _ isStages =>
    cases isStages with
    | last isOperand =>
      exact (isFirst.labelled _).append
        (.cons ((isOperand.labelled _).append (.cons (labelled_relationCode _ _ _ _ _) rfl)) rfl)
    | more some _ _ => exact absurd single (by simpa using some)
  | @chain _ _ _ _ left _ _ _ _ code firstCode several isFirst _ _ isStages =>
    have sides : Listing.Labelled (Tag.done (Tag.text Tag.comparison (tags + 1)) :: outside) (tags + 1)
        tags' (firstCode ++ .set (.memory left) .a :: code) :=
      (isFirst.labelled _).append (.cons (isStages.labelled outside) rfl)
    have closed := (sides.weaken (Nat.le_succ tags) (fun _ member => member)).close
      (sides.fresh (by simp)) (by simp) (by simpa using sides.ordered)
    simpa using closed

/-- Code of operands has labels of its own, and jumps to these or to where the operands end. -/
theorem OperandsCode.labelled {layout : Layout} {used : Word → Prop} {op : LogicalOp} {skip : String}
    {operands : List Expr} {tags tags' : Nat} {code : Listing}
    (isCode : OperandsCode layout used op skip operands tags tags' code) (outside : List String) :
    Listing.Labelled (skip :: outside) tags tags' code := by
  cases isCode with
  | last isOperand => exact isOperand.labelled _
  | more _ isOperand isRest =>
    exact (isOperand.labelled _).append (.cons (.jump (isRest.labelled _) (List.mem_cons_self ..)) rfl)

theorem StagesCode.labelled {layout : Layout} {used : Word → Prop} {done : String} {left right : Word}
    {stages : List (Relation × Expr)} {tags tags' : Nat} {code : Listing}
    (isCode : StagesCode layout used done left right stages tags tags' code) (outside : List String) :
    Listing.Labelled (done :: outside) tags tags' code := by
  cases isCode with
  | last isOperand =>
    exact (isOperand.labelled _).append (.cons (labelled_relationCode _ _ _ _ _) rfl)
  | more _ isOperand isRest =>
    exact (isOperand.labelled _).append (.cons ((labelled_relationCode _ _ _ _ _).append
      (.cons (.jump (.cons (isRest.labelled _) rfl) (List.mem_cons_self ..)) rfl)) rfl)

end

end Dcpu
