import Dcpu.Proofs.Codegen.Plans
import Dcpu.Proofs.Simulation
import Dcpu.Proofs.Source.Rewording

/-! # Two compilations side by side

A program and a rewording of it are compiled with allocators that work alike, each in its own way of
giving out addresses. Step by step the second compilation does what the first does, so that the listings
differ in addresses only, and the errors in positions only.
-/

namespace Dcpu

open Source Gen Effects

theorem Context.result_compile (context : Context) (haltLoop : Bool) (program : Program) :
    (context.compile haltLoop program).result = match programCode haltLoop program (.start context) with
      | .ok _ state => .ok state.listing
      | .error error _ => .error error := by
  rw [Context.compile]
  change (match programCode haltLoop program (.start context) with
    | .ok _ state => _
    | .error error state => _ : Compilation).result = _
  cases programCode haltLoop program (.start context) with
  | ok _ state => rfl
  | error error state => rfl

/-- Two ways to compile that have the same outcome: the trees, the allocators and the addresses of the
second correspond to those of the first. -/
structure Twin where
  wording : Rewording
  address : Word → Word
  slots : Pairing SlotError Slots
  /-- The addresses that the first allocator gives out. -/
  slot : Word → Prop
  blames : slots.blame = id
  acquire : Follows slots (fun given other => slot given ∧ other = address given) Slots.acquire Slots.acquire
  release : ∀ {before other : Slots} {given : Word}, slots.alike before other → slot given →
    slots.alike (before.release given) (other.release (address given))
  openChild : ∀ parent, Follows slots Eq (Slots.openChild parent) (Slots.openChild parent)
  close : ∀ scope, Follows slots (fun _ _ => True) (Slots.close scope) (Slots.close scope)
  special : ∀ {before other : Slots}, slots.alike before other → ∀ name,
    other.special? (wording.name name) = (before.special? name).map address
  resolve : ∀ name scope, Slots.isScreen name = false →
    Follows slots (fun binding other => other.address = address binding.address)
      (Slots.resolve name scope) (Slots.resolve (wording.name name) scope)

namespace Twin

variable {twin : Twin}

/-- The states of two compilations correspond. Events other than lines may differ. -/
structure Alike (twin : Twin) (state other : Emission) : Prop where
  slots : twin.slots.alike state.context.slots other.context.slots
  tags : other.context.tags = state.context.tags
  listing : other.listing = state.listing.readdressed twin.address

def pairing (twin : Twin) : Pairing CompileError Emission where
  alike := twin.Alike
  excused error := ∃ refusal position, error = .slots refusal position ∧ twin.slots.excused refusal
  blame := CompileError.blamedOn twin.wording.place

/-- A step of the second compilation does what a step of the first does. -/
abbrev Mirrors (twin : Twin) (step other : Gen Unit) : Prop :=
  Follows twin.pairing (fun _ _ => True) step other

section Steps

/-- An event with no line may be noted on one side only. -/
theorem Alike.noted_left {state other : Emission} (alike : twin.Alike state other) {event : Event}
    (silent : event.line? = none) : twin.Alike (state.noted event) other :=
  ⟨alike.slots, alike.tags, by simp [Emission.listing_noted, silent, alike.listing]⟩

theorem Alike.noted_right {state other : Emission} (alike : twin.Alike state other) {event : Event}
    (silent : event.line? = none) : twin.Alike state (other.noted event) :=
  ⟨alike.slots, alike.tags, by simp [Emission.listing_noted, silent, alike.listing]⟩

theorem mirrors_record {event other : Event} (silent : event.line? = none) (otherSilent : other.line? = none) :
    twin.Mirrors (record event) (record other) :=
  fun _ _ alike => ⟨(), _, rfl, (alike.noted_left silent).noted_right otherSilent, trivial⟩

/-- An event that is no line may be noted in one compilation and not in the other. -/
theorem follows_noting {α β : Type} {paired : α → β → Prop} {rest : Gen α} {rest' : Gen β}
    (behind : Follows twin.pairing paired rest rest') (noted noted' : Prop) [Decidable noted]
    [Decidable noted'] {event event' : Event} (silent : event.line? = none) (silent' : event'.line? = none) :
    Follows twin.pairing paired (if noted then record event >>= fun _ => rest else rest)
      (if noted' then record event' >>= fun _ => rest' else rest') := by
  split
  · split
    · exact fun _ _ alike => behind ((Alike.noted_left alike silent).noted_right silent')
    · exact fun _ _ alike => behind (Alike.noted_left alike silent)
  · split
    · exact fun _ _ alike => behind (Alike.noted_right alike silent')
    · exact behind

theorem mirrors_emit {line other : Line} (same : other = line.readdressed twin.address) :
    twin.Mirrors (emit line) (emit other) := by
  intro state state' alike
  refine ⟨(), state'.noted (.emitted other), rfl, ⟨alike.slots, alike.tags, ?_⟩, trivial⟩
  change _ = (state.noted (.emitted line)).listing.readdressed twin.address
  rw [Emission.listing_noted, Emission.listing_noted, alike.listing, same]
  simp [Listing.readdressed, Event.line?]

theorem mirrors_throw (error : CompileError) :
    twin.Mirrors (throw error) (throw (error.blamedOn twin.wording.place)) :=
  follows_throw error

theorem nextTag_follows (stem : String) : Follows twin.pairing Eq (nextTag stem) (nextTag stem) := by
  intro state state' alike
  refine ⟨_, _, rfl, ⟨alike.slots, ?_, alike.listing⟩, ?_⟩
  · simp [alike.tags]
  · simp [alike.tags]

/-- Requests that follow each other do so as steps of code generation. -/
theorem onSlots_follows {α β : Type} {paired : α → β → Prop} {step : Alloc α} {other : Alloc β}
    (follows : Follows twin.slots paired step other) (position : Position) :
    Follows twin.pairing paired (onSlots position step) (onSlots (twin.wording.place position) other) := by
  intro state state' alike
  have ran := follows alike.slots
  rw [onSlots, onSlots]
  cases stepped : step state.context.slots with
  | ok value slots =>
    rw [stepped] at ran
    obtain ⟨value', slots', otherStepped, slotsAlike, same⟩ := ran
    rw [otherStepped]
    exact ⟨value', _, rfl, ⟨slotsAlike, alike.tags, alike.listing⟩, same⟩
  | error error slots =>
    rw [stepped] at ran
    obtain excused | ⟨slots', failed⟩ := ran
    · exact .inl ⟨error, position, rfl, excused⟩
    · rw [failed, twin.blames]
      exact .inr ⟨_, rfl⟩

/-- What a body fails with is reported, however the step behind it ends. -/
theorem always_of_error {body cleanup : Gen Unit} {state after : Emission} {error : CompileError}
    (failed : body state = .error error after) : ∃ final, always body cleanup state = .error error final := by
  rw [always, failed]
  dsimp only
  cases cleanup after with
  | ok _ final => exact ⟨final, rfl⟩
  | error _ final => exact ⟨final, rfl⟩

theorem always_mirrored {body body' cleanup cleanup' : Gen Unit} (first : twin.Mirrors body body')
    (behind : twin.Mirrors cleanup cleanup') : twin.Mirrors (always body cleanup) (always body' cleanup') := by
  intro state state' alike
  have ran := first alike
  cases stepped : body state with
  | ok value after =>
    rw [stepped] at ran
    obtain ⟨_, after', otherStepped, alikeAfter, _⟩ := ran
    rw [always, always, stepped, otherStepped]
    exact behind alikeAfter
  | error error after =>
    rw [stepped] at ran
    obtain ⟨final, reported⟩ : ∃ final, always body cleanup state = .error error final :=
      always_of_error stepped
    rw [reported]
    -- The steps behind the failure may start from states that are no longer alike.
    obtain excused | ⟨after', failed⟩ := ran
    · exact .inl excused
    · exact .inr (always_of_error failed)

/-- Bodies that mirror each other at paired slots do so with a slot around them. -/
theorem withScratch_mirrored (position : Position) {body body' : Word → Gen Unit}
    (mirrors : ∀ slot, twin.Mirrors (body slot) (body' (twin.address slot))) :
    twin.Mirrors (withScratch position body) (withScratch (twin.wording.place position) body') := by
  have acquired : Follows twin.pairing (fun given other => twin.slot given ∧ other = twin.address given)
      (Gen.acquire position) (Gen.acquire (twin.wording.place position)) := by
    apply follows_bind (onSlots_follows twin.acquire position)
    rintro slot _ ⟨given, rfl⟩
    apply follows_then
    · apply follows_modify
      intro state state' alike
      exact ⟨alike.slots, alike.tags, alike.listing⟩
    · apply follows_then (mirrors_record rfl rfl)
      exact follows_pure ⟨given, rfl⟩
  apply follows_bind acquired
  rintro slot _ ⟨given, rfl⟩
  apply always_mirrored (mirrors slot)
  apply follows_then
  · apply follows_modify
    intro state state' alike
    exact ⟨twin.release alike.slots given, alike.tags, alike.listing⟩
  · exact mirrors_record rfl rfl

theorem inScope_mirrored (parent : ScopeId) (position : Position) {body body' : ScopeId → Gen Unit}
    (mirrors : ∀ scope, twin.Mirrors (body scope) (body' scope)) :
    twin.Mirrors (inScope parent position body) (inScope parent (twin.wording.place position) body') := by
  have opened : Follows twin.pairing Eq (openScope parent position)
      (openScope parent (twin.wording.place position)) := by
    apply follows_bind (onSlots_follows (twin.openChild parent) position)
    rintro scope _ rfl
    exact follows_then (mirrors_record rfl rfl) (follows_pure rfl)
  apply follows_bind opened
  rintro scope _ rfl
  apply always_mirrored (mirrors scope)
  exact follows_then (onSlots_follows (twin.close scope) position) (mirrors_record rfl rfl)

/-- Paired names have paired addresses. -/
theorem addressOf_follows (name : String) (scope : ScopeId) (position : Position) :
    Follows twin.pairing (fun given other => other = twin.address given) (addressOf name scope position)
      (addressOf (twin.wording.name name) scope (twin.wording.place position)) := by
  have before : Follows twin.pairing twin.slots.alike Gen.slots Gen.slots :=
    fun state state' alike => ⟨_, _, rfl, alike, alike.slots⟩
  apply follows_bind before
  intro slots other alike
  rw [twin.special alike name]
  cases reserved : slots.special? name with
  | some address => exact follows_pure rfl
  | none =>
    have ordinary : Slots.isScreen name = false := by simpa [Slots.special?] using reserved
    apply follows_bind (onSlots_follows (twin.resolve name scope ordinary) position)
    intro binding binding' same
    -- Whether a variable is noted as new depends on its number, which the two allocators need not share.
    have found : Follows twin.pairing (fun given other => other = twin.address given)
        (pure binding.address) (pure binding'.address) := follows_pure same
    apply follows_noting found
    · rfl
    · rfl

end Steps

section Expressions

variable (twin : Twin) (routines : List String) (scope : ScopeId)

theorem callCode_mirrored (name : String) (position : Position) :
    twin.Mirrors (callCode routines name position) (callCode routines name (twin.wording.place position)) := by
  rw [callCode, callCode]
  split
  · exact mirrors_emit rfl
  · split
    · apply follows_bind follows_get
      intro state state' _
      apply follows_noting (mirrors_emit rfl)
      · rfl
      · rfl
    · exact mirrors_throw (.undefinedRoutine name position)

end Expressions

end Twin

section Plans

variable {slots : List Word}

/-- A plain operand at paired slots stands for paired addresses. -/
theorem Operand.readdressed_slotAt_map {operand : Operand} (isPlain : operand.isPlain slots.length = true)
    (address : Word → Word) : operand.readdressed (Plan.slotAt (slots.map address)) =
      (operand.readdressed (Plan.slotAt slots)).readdressed address := by
  cases operand with
  | memory number =>
    have below : number.toNat < slots.length := by simpa [Operand.isPlain] using isPlain
    simp [Operand.readdressed, Plan.slotAt, below]
  | address => cases isPlain
  | _ => rfl

/-- The lines of a plan for other slots are its lines with other addresses. -/
theorem Line.readdressed_slotAt_map {line : Line} (isPlain : line.isPlain slots.length = true)
    (address : Word → Word) : line.readdressed (Plan.slotAt (slots.map address)) =
      (line.readdressed (Plan.slotAt slots)).readdressed address := by
  obtain ⟨op, b, a, rfl, plainB, plainA, _⟩ := Line.of_isPlain isPlain
  simp only [Line.basic, Line.readdressed, Instruction.readdressed, Operand.readdressed_slotAt_map plainB,
    Operand.readdressed_slotAt_map plainA]

def Plan.reworded (wording : Rewording) : Plan → Plan
  | noAddress form position => noAddress form (wording.place position)
  | unsupported operator position => unsupported operator (wording.place position)
  | entry name position => entry name (wording.place position)
  | access want name position => access want (wording.name name) (wording.place position)
  | call name position => call name (wording.place position)
  | both first second => both (first.reworded wording) (second.reworded wording)
  | keeping position body => keeping (wording.place position) (body.reworded wording)
  | inside position body => inside (wording.place position) (body.reworded wording)
  | tagged stem body => tagged stem (body.reworded wording)
  | plan => plan

/-- The steps of a reworded plan are those of the plan. -/
theorem Twin.plan_mirrored (twin : Twin) (routines : List String) {plan : Plan} (scope : ScopeId) (tag : String)
    (isPlain : plan.isPlain slots.length = true) :
    twin.Mirrors (plan.code routines scope slots tag)
      ((plan.reworded twin.wording).code routines scope (slots.map twin.address) tag) := by
  induction plan generalizing slots scope tag with
  | nothing => exact follows_pure trivial
  | noAddress form position => exact mirrors_throw (.noAddress form position)
  | unsupported operator position => exact mirrors_throw (.unsupported operator position)
  | plain line => exact mirrors_emit (Line.readdressed_slotAt_map isPlain twin.address)
  | jump | label | ret => exact mirrors_emit rfl
  | connective => exact mirrors_record rfl rfl
  | entry => exact follows_then (mirrors_record rfl rfl) (mirrors_emit rfl)
  | access want name position =>
    apply follows_bind (addressOf_follows name scope position)
    rintro address _ rfl
    cases want <;> exact mirrors_emit rfl
  | call name position => exact callCode_mirrored twin routines name position
  | both first second firstMirrored secondMirrored =>
    obtain ⟨firstPlain, secondPlain⟩ := Bool.and_eq_true_iff.mp isPlain
    exact follows_then (firstMirrored scope tag firstPlain) (secondMirrored scope tag secondPlain)
  | keeping position body mirrored =>
    apply withScratch_mirrored
    intro slot
    exact mirrored scope tag isPlain
  | inside position body mirrored =>
    apply inScope_mirrored
    intro inner
    exact mirrored inner tag isPlain
  | tagged stem body mirrored =>
    apply follows_bind (nextTag_follows stem)
    rintro drawn _ rfl
    exact mirrored scope drawn isPlain

end Plans

section Trees

open Plan

variable (wording : Rewording)

namespace Plan

@[simp] theorem reworded_append (first second : Plan) :
    (first ++ second).reworded wording = first.reworded wording ++ second.reworded wording := rfl

@[simp] theorem reworded_valueOnly (want : Want) (form : ExprForm) (position : Position) :
    (valueOnly want form position).reworded wording = valueOnly want form (wording.place position) := by
  cases want <;> rfl

@[simp] theorem reworded_chain (several : Bool) (sides : Plan) :
    (chain several sides).reworded wording = chain several (sides.reworded wording) := by
  cases several <;> rfl

@[simp] theorem reworded_lines (plain : List Line) : (lines plain).reworded wording = lines plain := by
  induction plain with
  | nil => rfl
  | cons line plain ih =>
    rw [lines, reworded_append, ih]
    rfl

@[simp] theorem reworded_nextStage (goesOn : Bool) : (nextStage goesOn).reworded wording = nextStage goesOn := by
  cases goesOn <;> rfl

end Plan

mutual

/-- The plan of a reworded expression is that of the expression. -/
theorem Source.Expr.plan_reworded (want : Want) (expr : Expr) :
    (expr.reworded wording).plan want = (expr.plan want).reworded wording := by
  cases expr with
  | number position value => cases want <;> rfl
  | name position name => rfl
  | index position base index =>
    simp only [Expr.reworded, Expr.plan, reworded_append, Plan.reworded, Expr.plan_reworded]
    cases want <;> rfl
  | call position routine => cases want <;> rfl
  | binary position op left right =>
    simp only [Expr.reworded, Expr.plan]
    cases opcode? op <;>
      simp only [reworded_append, reworded_valueOnly, Plan.reworded, Expr.plan_reworded]
  | unary position op operand =>
    cases op <;>
      simp only [Expr.reworded, Expr.plan, reworded_append, reworded_valueOnly, Plan.reworded,
        Expr.plan_reworded]
  | logical position op operands =>
    have length : (rewordedAll wording operands).length = operands.length := by
      rw [rewordedAll_eq_map, List.length_map]
    simp only [Expr.reworded, Expr.plan, reworded_append, reworded_valueOnly, Plan.reworded, length,
      operandsPlan_reworded]
  | compare position first stages =>
    have length : (rewordedStages wording stages).length = stages.length := by
      rw [rewordedStages_eq_map, List.length_map]
    simp only [Expr.reworded, Expr.plan, reworded_append, reworded_valueOnly, reworded_chain, Plan.reworded,
      length, Expr.plan_reworded, stagesPlan_reworded]

theorem Source.operandsPlan_reworded (op : LogicalOp) (operands : List Expr) :
    operandsPlan op (rewordedAll wording operands) = (operandsPlan op operands).reworded wording := by
  match operands with
  | [] => rfl
  | [operand] => simp only [rewordedAll, operandsPlan, Expr.plan_reworded]
  | operand :: next :: operands =>
    have rest := operandsPlan_reworded op (next :: operands)
    simp only [rewordedAll] at rest
    simp only [rewordedAll, operandsPlan, reworded_append, Plan.reworded, Expr.plan_reworded, rest]

theorem Source.stagesPlan_reworded (several : Bool) (stages : List (Relation × Expr)) :
    stagesPlan several (rewordedStages wording stages) = (stagesPlan several stages).reworded wording := by
  match stages with
  | [] => rfl
  | (relation, operand) :: stages =>
    have empty : (rewordedStages wording stages).isEmpty = stages.isEmpty := by
      rw [rewordedStages_eq_map, List.isEmpty_map]
    simp only [rewordedStages, stagesPlan, reworded_append, reworded_lines, reworded_nextStage, Plan.reworded,
      empty, Expr.plan_reworded, stagesPlan_reworded]

end

theorem Source.targetsPlan_reworded (targets : List Expr) :
    targetsPlan (rewordedAll wording targets) = (targetsPlan targets).reworded wording := by
  induction targets with
  | nil => rfl
  | cons target targets ih =>
    simp only [rewordedAll, targetsPlan, reworded_append, Plan.reworded, Expr.plan_reworded, ih]

theorem returnsItself_reworded (name : String) (body : List Stmt) :
    returnsItself name (rewordedIn wording body) = returnsItself name body := by
  have same : endsByReturn (rewordedIn wording body) = endsByReturn body := by
    rw [endsByReturn, endsByReturn, rewordedIn_eq_map, List.getLast?_map]
    cases body.getLast? with
    | none => rfl
    | some statement =>
      cases statement with
      | ret position value => cases value <;> rfl
      | _ => rfl
  rw [returnsItself, returnsItself, same]

mutual

/-- The plan of a reworded statement is that of the statement. -/
theorem Source.Stmt.plan_reworded (statement : Stmt) :
    (statement.reworded wording).plan = statement.plan.reworded wording := by
  cases statement with
  | routine position name body =>
    simp only [Stmt.reworded, Stmt.plan, returnsItself_reworded, reworded_append, Plan.reworded,
      blockPlan_reworded]
    split <;> rfl
  | ret position value =>
    cases value with
    | none => rfl
    | some value =>
      simp only [Stmt.reworded, Stmt.plan, reworded_append, Plan.reworded, Expr.plan_reworded]
  | branch position test body alternative =>
    simp only [Stmt.reworded, Stmt.plan, reworded_append, Plan.reworded, Expr.plan_reworded, blockPlan_reworded]
    rfl
  | whileLoop position test body =>
    simp only [Stmt.reworded, Stmt.plan, loop, reworded_append, Plan.reworded, Expr.plan_reworded,
      blockPlan_reworded]
    rfl
  | forLoop position init test step body =>
    simp only [Stmt.reworded, Stmt.plan, loop, reworded_append, Plan.reworded, Expr.plan_reworded,
      Stmt.plan_reworded, blockPlan_reworded]
    rfl
  | assign position targets value =>
    simp only [Stmt.reworded, Stmt.plan, reworded_append, Plan.reworded, Expr.plan_reworded,
      targetsPlan_reworded]
  | evaluate position value => simp only [Stmt.reworded, Stmt.plan, Expr.plan_reworded]

theorem Source.blockPlan_reworded (statements : List Stmt) :
    blockPlan (rewordedIn wording statements) = (blockPlan statements).reworded wording := by
  cases statements with
  | nil => rfl
  | cons statement statements =>
    simp only [rewordedIn, blockPlan, reworded_append, Stmt.plan_reworded, blockPlan_reworded]

end

end Trees

namespace Twin

/-- The code of a reworded block is that of the block. -/
theorem blockCode_mirrored (twin : Twin) (routines : List String) (scope : ScopeId) (statements : List Stmt) :
    twin.Mirrors (blockCode routines scope statements)
      (blockCode routines scope (rewordedIn twin.wording statements)) := by
  rw [← code_blockPlan routines scope [] "", ← code_blockPlan routines scope [] "", blockPlan_reworded]
  exact twin.plan_mirrored routines scope "" (isPlain_blockPlan 0 statements)

section Programs

mutual

/-- A reworded statement defines the same routines, elsewhere. -/
theorem definitions_reworded (wording : Rewording) (statement : Stmt) :
    (statement.reworded wording).definitions = statement.definitions.map (Prod.map id wording.place) := by
  cases statement with
  | routine position name body =>
    simp only [Stmt.reworded, Stmt.definitions, definitionsIn_reworded, List.map_cons, Prod.map_apply, id]
  | ret position value => cases value <;> rfl
  | branch position test body alternative =>
    simp only [Stmt.reworded, Stmt.definitions, definitionsIn_reworded, List.map_append]
  | whileLoop position test body => simp only [Stmt.reworded, Stmt.definitions, definitionsIn_reworded]
  | forLoop position init test step body =>
    simp only [Stmt.reworded, Stmt.definitions, definitionsIn_reworded]
  | assign position targets value => rfl
  | evaluate position value => rfl

/-- Reworded statements define the same routines, elsewhere. -/
theorem definitionsIn_reworded (wording : Rewording) (statements : List Stmt) :
    definitionsIn (rewordedIn wording statements) =
      (definitionsIn statements).map (Prod.map id wording.place) := by
  match statements with
  | [] => rfl
  | statement :: statements =>
    simp only [rewordedIn, definitionsIn, definitions_reworded, definitionsIn_reworded, List.map_append]

end

variable (twin : Twin)

theorem registerRoutines_follows (known : List String) (definitions : List (String × Position)) :
    Follows twin.pairing Eq (registerRoutines known definitions)
      (registerRoutines known (definitions.map (Prod.map id twin.wording.place))) := by
  induction definitions generalizing known with
  | nil => exact follows_pure rfl
  | cons definition definitions ih =>
    obtain ⟨name, position⟩ := definition
    simp only [registerRoutines, List.map_cons, Prod.map_apply, id]
    cases nameClash? name with
    | some clash => exact follows_throw (CompileError.reservedName name clash position)
    | none =>
      simp only
      split
      · exact follows_then (mirrors_record rfl rfl) (ih known)
      · exact ih (known ++ [name])

/-- A reworded program compiles to the code of the program, at paired addresses. -/
theorem programCode_mirrored (haltLoop : Bool) (program : Program) :
    twin.Mirrors (programCode haltLoop program) (programCode haltLoop (rewordedIn twin.wording program)) := by
  simp only [programCode, definitionsIn_reworded]
  apply follows_bind (registerRoutines_follows twin [] (definitionsIn program))
  rintro routines _ rfl
  apply follows_then (mirrors_record rfl rfl)
  apply follows_then (blockCode_mirrored twin routines 0 program)
  split
  · apply follows_then (mirrors_record rfl rfl)
    apply follows_then (mirrors_emit rfl)
    exact mirrors_emit rfl
  · exact follows_pure trivial

/-- The second compilation ends as the first does. -/
theorem compile_result {context other : Context} (alike : twin.slots.alike context.slots other.slots)
    (tags : other.tags = context.tags) (haltLoop : Bool) (program : Program) :
    match (context.compile haltLoop program).result with
    | .ok listing => (other.compile haltLoop (rewordedIn twin.wording program)).result =
        .ok (listing.readdressed twin.address)
    | .error error => twin.pairing.excused error ∨
        (other.compile haltLoop (rewordedIn twin.wording program)).result =
          .error (error.blamedOn twin.wording.place) := by
  have begun : twin.Alike (.start context) (.start other) := ⟨alike, tags, rfl⟩
  have ran := twin.programCode_mirrored haltLoop program begun
  rw [Context.result_compile, Context.result_compile]
  cases first : programCode haltLoop program (.start context) with
  | ok _ after =>
    rw [first] at ran
    obtain ⟨_, after', second, alikeAfter, _⟩ := ran
    simp only [second, alikeAfter.listing]
  | error error after =>
    rw [first] at ran
    refine ran.imp id ?_
    rintro ⟨after', second⟩
    simp only [second]
    rfl

end Programs

end Twin

end Dcpu
