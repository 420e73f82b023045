import Dcpu.Proofs.Codegen.Linking
import Dcpu.Proofs.Source.Landmarks

/-! # The events about routines

Registration tells of the routines of a program and of every name that is defined again. The code of a routine
is told of where it begins, and a call where slots are held. The number of slots that are held is a count which
goes up and down while code is made; it is the number of slots that the expressions around the call keep. The
events about routines are therefore those of the tree.
-/

namespace Dcpu

open Source Effects Gen

/-- Whether an event is about routines: which there are, where the code of one begins, and calls. -/
def Event.isAboutRoutines : Event → Bool
  | .redefined .. | .registered _ | .routine .. | .callWhileHolding .. | .haltAppended => true
  | .emitted (.instruction (.jsr _)) => true
  | _ => false

/-- Whether the name of a definition, which is given with its index, is that of one before it. -/
def isRedefinition (definitions : List (String × Position)) (definition : (String × Position) × Nat) : Bool :=
  decide (definition.1.1 ∈ (definitions.take definition.2).map Prod.fst)

/-- The definitions of names that are defined before them. -/
def redefinitions (definitions : List (String × Position)) : List (String × Position) :=
  (definitions.zipIdx.filter (isRedefinition definitions)).map Prod.fst

/-- A definition of a name that is defined before it is told of. -/
def redefined (definition : String × Position) : Event :=
  .redefined definition.1 definition.2

namespace Source

/-- The warning that is due for a call: it is not one that ends the program, and slots are held. -/
def CallSite.warning? (site : CallSite) : Option Event :=
  if site.routine ≠ exitCall ∧ 0 < slotsAround site.around then
    some (.callWhileHolding site.routine site.position (slotsAround site.around))
  else none

/-- The routine that is called where a call does not end the program. -/
def CallSite.callee? (site : CallSite) : Option String :=
  if site.routine ≠ exitCall then some site.routine else none

/-- The events about routines that a call brings about. -/
def CallSite.events (site : CallSite) : List Event :=
  site.warning?.toList ++ (site.callee?.map fun routine => .emitted (.jsr routine)).toList

/-- The events of a call are a warning and a line. -/
theorem CallSite.mem_events {site : CallSite} {event : Event} (member : event ∈ site.events) :
    (∃ name position held, event = .callWhileHolding name position held) ∨
      ∃ name, event = .emitted (.jsr name) := by
  simp only [CallSite.events, CallSite.warning?, CallSite.callee?] at member
  obtain warning | line := List.mem_append.mp member
  · split at warning
    · exact .inl ⟨_, _, _, List.mem_singleton.mp warning⟩
    · cases warning
  · split at line
    · exact .inr ⟨_, List.mem_singleton.mp line⟩
    · cases line

def Landmark.events : Landmark → List Event
  | .routine name position => [.routine name position]
  | .call site => site.events

end Source

namespace Emission

def told (state : Emission) : List Event :=
  state.trail.toList.filter Event.isAboutRoutines

theorem told_noted (state : Emission) {event : Event} (about : event.isAboutRoutines = true) :
    (state.noted event).told = state.told ++ [event] := by
  simp [told, noted, about]

theorem told_noted_other (state : Emission) {event : Event} (other : event.isAboutRoutines = false) :
    (state.noted event).told = state.told := by
  simp [told, noted, other]

end Emission

namespace Gen

variable {α β : Type} {held : Nat} {events more : List Event}

/-- Steps that succeed with the given number of slots held hold as many behind them, and the events about
routines that they note are the given ones. -/
def Tells (held : Nat) (events : List Event) (steps : Gen α) : Prop :=
  ∀ ⦃state value after⦄, state.held = held → steps state = .ok value after →
    after.held = held ∧ after.told = state.told ++ events

/-- Steps that hold as many slots behind them and note nothing about routines tell nothing. -/
theorem tells_quiet {steps : Gen α} (quiet : ∀ ⦃state value after⦄, steps state = .ok value after →
    after.held = state.held ∧ after.told = state.told) : Tells held [] steps := by
  intro state value after holds ran
  obtain ⟨same, told⟩ := quiet ran
  exact ⟨same.trans holds, by rw [told, List.append_nil]⟩

theorem tells_pure (value : α) : Tells held [] (pure value : Gen α) :=
  tells_quiet fun _ _ _ ran => by
    cases ran
    exact ⟨rfl, rfl⟩

theorem tells_nextTag (stem : String) : Tells held [] (nextTag stem) :=
  tells_quiet fun _ _ _ ran => by
    cases ran
    exact ⟨rfl, rfl⟩

theorem tells_throw (error : CompileError) : Tells held events (throw error : Gen α) := by
  intro state value after _ ran
  cases ran

theorem tells_about {event : Event} (about : event.isAboutRoutines = true) : Tells held [event] (record event) := by
  intro state value after holds ran
  cases ran
  exact ⟨holds, state.told_noted about⟩

theorem tells_other {event : Event} (other : event.isAboutRoutines = false) : Tells held [] (record event) :=
  tells_quiet fun state _ _ ran => by
    cases ran
    exact ⟨rfl, state.told_noted_other other⟩

theorem tells_emit {line : Line} (other : (Event.emitted line).isAboutRoutines = false) :
    Tells held [] (emit line) :=
  tells_other other

/-- Two steps tell what the first tells and then what the second tells. -/
theorem tells_bind {first : Gen α} {next : α → Gen β} (tells : Tells held events first)
    (behind : ∀ value, Tells held more (next value)) : Tells held (events ++ more) (first >>= next) := by
  intro state result after holds ran
  obtain ⟨value, middle, ranFirst, ranNext⟩ := bind_eq_ok_iff.mp ran
  obtain ⟨holds, told⟩ := tells holds ranFirst
  obtain ⟨holds, toldNext⟩ := behind value holds ranNext
  exact ⟨holds, by rw [toldNext, told, List.append_assoc]⟩

/-- A sequence whose first part has nothing to tell. -/
theorem tells_then {first : Gen α} {next : α → Gen β} (tells : Tells held [] first)
    (behind : ∀ value, Tells held events (next value)) : Tells held events (first >>= next) :=
  tells_bind tells behind

/-- A sequence whose second part has nothing to tell. -/
theorem tells_before {first : Gen α} {next : α → Gen β} (tells : Tells held events first)
    (behind : ∀ value, Tells held [] (next value)) : Tells held events (first >>= next) := by
  have both := tells_bind tells behind
  rwa [List.append_nil] at both

/-- One more slot is held while steps with a slot run. -/
theorem tells_withScratch {position : Position} {body : Word → Gen Unit}
    (tells : ∀ slot, Tells (held + 1) events (body slot)) : Tells held events (withScratch position body) := by
  intro state value after holds ran
  obtain ⟨slot, middle, _, bodyRan, rfl⟩ := withScratch_eq_ok_iff.mp ran
  have holding : (state.holding slot).held = held + 1 := congrArg (· + 1) holds
  obtain ⟨holdsBehind, told⟩ := tells slot holding bodyRan
  refine ⟨?_, ?_⟩
  · change middle.held - 1 = held
    omega
  · have before : (state.holding slot).told = state.told := Emission.told_noted_other _ rfl
    rw [← before, ← told]
    exact Emission.told_noted_other _ rfl

theorem tells_inScope {parent : ScopeId} {position : Position} {body : ScopeId → Gen Unit}
    (tells : ∀ scope, Tells held events (body scope)) : Tells held events (inScope parent position body) := by
  intro state value after holds ran
  obtain ⟨scope, slots, middle, behind, _, bodyRan, _, rfl⟩ := inScope_eq_ok_iff.mp ran
  have before : ((state.withSlots slots).noted (.opened scope parent)).told = state.told :=
    Emission.told_noted_other _ rfl
  obtain ⟨holdsBehind, told⟩ :=
    tells scope (show ((state.withSlots slots).noted (.opened scope parent)).held = held from holds) bodyRan
  exact ⟨holdsBehind, (Emission.told_noted_other _ rfl).trans (told.trans (before ▸ rfl))⟩

theorem tells_addressOf (name : String) (scope : ScopeId) (position : Position) :
    Tells held [] (addressOf name scope position) := by
  apply tells_quiet
  intro state address after ran
  obtain ⟨_, _, rfl⟩ | ⟨_, _, slots, _, _, rfl | rfl⟩ := addressOf_eq_ok ran
  · exact ⟨rfl, rfl⟩
  · exact ⟨rfl, rfl⟩
  · exact ⟨rfl, Emission.told_noted_other _ rfl⟩

end Gen

/-- The events about routines that a call brings about while the given number of slots is held. -/
def callEvents (name : String) (position : Position) (held : Nat) : List Event :=
  if name = exitCall then []
  else (if 0 < held then [.callWhileHolding name position held] else []) ++ [.emitted (.jsr name)]

/-- What a call tells depends on how many slots are held around it. -/
theorem Source.CallSite.events_eq {site : CallSite} {held : Nat} (holds : slotsAround site.around = held) :
    site.events = callEvents site.routine site.position held := by
  subst holds
  by_cases isExit : site.routine = exitCall <;> by_cases some : 0 < slotsAround site.around <;>
    simp [CallSite.events, CallSite.warning?, CallSite.callee?, callEvents, isExit, some]

namespace Plan

/-- The events about routines that a plan notes while the given number of slots is held. -/
def told : Nat → Plan → List Event
  | held, call name position => callEvents name position held
  | _, entry name position => [.routine name position]
  | held, both first second => first.told held ++ second.told held
  | held, keeping _ body => body.told (held + 1)
  | held, inside _ body | held, tagged _ body => body.told held
  | _, _ => []

section Told

variable (held : Nat)

@[simp] theorem told_append (first second : Plan) :
    (first ++ second).told held = first.told held ++ second.told held := rfl

@[simp] theorem told_valueOnly (want : Want) (form : ExprForm) (position : Position) :
    (valueOnly want form position).told held = [] := by
  cases want <;> rfl

@[simp] theorem told_lines (plain : List Line) : (lines plain).told held = [] := by
  induction plain with
  | nil => rfl
  | cons line plain ih =>
    rw [lines, told_append, ih]
    rfl

@[simp] theorem told_nextStage (goesOn : Bool) : (nextStage goesOn).told held = [] := by
  cases goesOn <;> rfl

@[simp] theorem told_chain (several : Bool) (sides : Plan) :
    (chain several sides).told held = sides.told held := by
  cases several <;> simp [chain, told]

end Told

/-- A call is told of exactly if slots are held, and then with their number. -/
private theorem callCode_tells {held : Nat} (routines : List String) (name : String) (position : Position) :
    Tells held (callEvents name position held) (callCode routines name position) := by
  rw [callCode, callEvents]
  split
  case isTrue => exact tells_emit rfl
  case isFalse =>
    by_cases isKnown : routines.contains name = true
    case neg =>
      rw [if_neg isKnown]
      exact tells_throw _
    case pos =>
      rw [if_pos isKnown]
      intro state value after holds ran
      obtain ⟨_, _, same, ran⟩ := bind_eq_ok_iff.mp ran
      cases same
      simp only [holds] at ran
      have calls : Tells held [.emitted (.jsr name)] (emit (.jsr name)) := tells_about rfl
      split at ran
      case isTrue some =>
        rw [if_pos some]
        exact tells_bind (tells_about rfl) (fun _ => calls) holds ran
      case isFalse none =>
        rw [if_neg none]
        exact calls holds ran

/-- A plan tells of its calls and of its routines. -/
theorem tells (routines : List String) {held : Nat} {slots : List Word} {plan : Plan} (scope : ScopeId)
    (tag : String) (isPlain : plan.isPlain slots.length = true) :
    Tells held (plan.told held) (plan.code routines scope slots tag) := by
  induction plan generalizing held slots scope tag with
  | nothing => exact tells_pure _
  | noAddress | unsupported => exact tells_throw _
  | plain line =>
    obtain ⟨op, b, a, rfl, _⟩ := Line.of_isPlain isPlain
    exact tells_emit rfl
  | jump | label | ret => exact tells_emit rfl
  | connective => exact tells_other rfl
  | entry name position => exact tells_before (tells_about rfl) fun _ => tells_emit rfl
  | access want name position => exact tells_then (tells_addressOf ..) fun _ => tells_emit rfl
  | call name position => exact callCode_tells routines name position
  | both first second firstTells secondTells =>
    obtain ⟨firstPlain, secondPlain⟩ := Bool.and_eq_true_iff.mp isPlain
    exact tells_bind (firstTells scope tag firstPlain) fun _ => secondTells scope tag secondPlain
  | keeping position body tells =>
    apply tells_withScratch
    intro slot
    exact tells scope tag isPlain
  | inside position body tells =>
    apply tells_inScope
    intro inner
    exact tells inner tag isPlain
  | tagged stem body tells =>
    apply tells_then (tells_nextTag stem)
    intro drawn
    exact tells scope drawn isPlain

end Plan

section Trees

open Plan

mutual

/-- The plan of an expression has the calls in it. The slots that are held at a call are those that the roles of
the expressions around it account for. -/
theorem Source.Expr.told_plan {around : List Role} {held : Nat} (holds : slotsAround around = held) (want : Want)
    (expr : Expr) : (expr.plan want).told held = (expr.callSites around).flatMap CallSite.events := by
  cases expr with
  | number | name => cases want <;> rfl
  | call position routine =>
    have events := @CallSite.events_eq ⟨routine, position, around⟩ held holds
    simp [Expr.plan, Plan.told, Expr.callSites, events]
  | index position base index =>
    -- the subscript comes first, and is kept in a slot while the base is computed
    have first := index.told_plan (slotsAround_within holds .subscript) .value
    have second := base.told_plan (slotsAround_within holds .base) .address
    simp only [Role.slots, Nat.add_zero] at first second
    cases want <;> simp [Expr.plan, Plan.told, Expr.callSites, first, second]
  | binary position op left right =>
    have first := left.told_plan (slotsAround_within holds .left) .value
    have second := right.told_plan (slotsAround_within holds .right) .value
    simp only [Role.slots, Nat.add_zero] at first second
    rw [Expr.plan]
    cases opcode? op <;> simp [Plan.told, Expr.callSites, first, second]
  | unary position op operand =>
    have inner := operand.told_plan (slotsAround_within holds .negated) .value
    simp only [Role.slots, Nat.add_zero] at inner
    cases op <;> simp [Expr.plan, Plan.told, Expr.callSites, inner]
  | logical position op operands =>
    have inner := told_operandsPlan (slotsAround_within holds .connected) op operands
    simp only [Role.slots, Nat.add_zero] at inner
    simp [Expr.plan, Plan.told, Expr.callSites, inner]
  | compare position first stages =>
    -- both slots of the comparison are held during all further operands
    have left := first.told_plan (slotsAround_within holds .first) .value
    have right := told_stagesPlan (slotsAround_within holds .later) (decide (1 < stages.length)) stages
    simp only [Role.slots, Nat.add_zero] at left right
    simp [Expr.plan, Plan.told, Expr.callSites, left, right]

theorem Source.told_operandsPlan {around : List Role} {held : Nat} (holds : slotsAround around = held)
    (op : LogicalOp) (operands : List Expr) :
    (operandsPlan op operands).told held = (callSitesOfAll around operands).flatMap CallSite.events := by
  match operands with
  | [] => rfl
  | [operand] => simp [operandsPlan, callSitesOfAll, operand.told_plan holds]
  | operand :: next :: operands =>
    have rest := told_operandsPlan holds op (next :: operands)
    simp only [operandsPlan, told_append, operand.told_plan holds, rest]
    simp [callSitesOfAll, Plan.told]

theorem Source.told_stagesPlan {around : List Role} {held : Nat} (holds : slotsAround around = held)
    (several : Bool) (stages : List (Relation × Expr)) :
    (stagesPlan several stages).told held = (callSitesOfStages around stages).flatMap CallSite.events := by
  match stages with
  | [] => rfl
  | (relation, operand) :: stages =>
    simp [stagesPlan, callSitesOfStages, Plan.told, operand.told_plan holds, told_stagesPlan holds]

end

theorem Source.told_targetsPlan {around : List Role} {held : Nat} (holds : slotsAround around = held)
    (targets : List Expr) :
    (targetsPlan targets).told held = (callSitesOfAll around targets).flatMap CallSite.events := by
  induction targets with
  | nil => rfl
  | cons target targets ih =>
    simp [targetsPlan, callSitesOfAll, Plan.told, target.told_plan holds, ih]

theorem Source.flatMap_events_call (sites : List CallSite) :
    (sites.map Landmark.call).flatMap Landmark.events = sites.flatMap CallSite.events :=
  List.flatMap_map ..

mutual

/-- The plan of a statement has its landmarks, when no slot is held. -/
theorem Source.Stmt.told_plan (statement : Stmt) :
    statement.plan.told 0 = statement.landmarks.flatMap Landmark.events := by
  have alone (expr : Expr) : (expr.plan .value).told 0 = (expr.callSites []).flatMap CallSite.events :=
    expr.told_plan (show slotsAround [] = 0 from rfl) .value
  cases statement with
  | routine position name body =>
    rw [Stmt.plan]
    split <;> simp [Plan.told, Stmt.landmarks, Landmark.events, told_blockPlan]
  | ret position value =>
    cases value <;> simp [Stmt.plan, Plan.told, Stmt.landmarks, flatMap_events_call, alone]
  | branch position test body alternative =>
    simp [Stmt.plan, Plan.told, Plan.unlessHolds, Stmt.landmarks, flatMap_events_call, alone, told_blockPlan]
  | whileLoop position test body =>
    simp [Stmt.plan, loop, Plan.told, Plan.unlessHolds, Stmt.landmarks, flatMap_events_call, alone, told_blockPlan]
  | forLoop position init test step body =>
    simp [Stmt.plan, loop, Plan.told, Plan.unlessHolds, Stmt.landmarks, flatMap_events_call, alone,
      Stmt.told_plan, told_blockPlan]
  | assign position targets value =>
    have assigned : (value.plan .value).told 0 = (value.callSites [.assigned]).flatMap CallSite.events :=
      value.told_plan (show slotsAround [.assigned] = 0 from rfl) .value
    have stored : (targetsPlan targets).told 1 = (callSitesOfAll [.target] targets).flatMap CallSite.events :=
      told_targetsPlan (show slotsAround [.target] = 1 from rfl) targets
    simp [Stmt.plan, Plan.told, Stmt.landmarks, flatMap_events_call, assigned, stored]
  | evaluate position value => simp [Stmt.plan, Stmt.landmarks, flatMap_events_call, alone]

/-- The plan of a block tells of its calls and its routines in their order. -/
theorem Source.told_blockPlan (statements : List Stmt) :
    (blockPlan statements).told 0 = (landmarksIn statements).flatMap Landmark.events := by
  cases statements with
  | nil => rfl
  | cons statement statements => simp [blockPlan, landmarksIn, Stmt.told_plan, told_blockPlan]

end

/-- The code of statements tells of their landmarks, and holds no slot behind it. -/
theorem blockCode_tells (routines : List String) (scope : ScopeId) (statements : List Stmt) :
    Tells 0 ((landmarksIn statements).flatMap Landmark.events) (blockCode routines scope statements) := by
  rw [← code_blockPlan routines scope [] "", ← told_blockPlan]
  exact Plan.tells routines scope "" (isPlain_blockPlan 0 statements)

end Trees

/-- Registration tells of the definitions of names that are known. The names that are known are those of the
definitions before. -/
theorem registerRoutines_tells {held : Nat} {known : List String} (before definitions : List (String × Position))
    (same : ∀ name, name ∈ known ↔ name ∈ before.map Prod.fst) :
    Tells held (((definitions.zipIdx before.length).filter (isRedefinition (before ++ definitions))).map
      (redefined ∘ Prod.fst)) (registerRoutines known definitions) := by
  induction definitions generalizing known before with
  | nil => exact tells_pure _
  | cons definition definitions ih =>
    obtain ⟨name, position⟩ := definition
    -- `before` grows by every definition, `known` only by new names
    have whole : before ++ (name, position) :: definitions = (before ++ [(name, position)]) ++ definitions := by
      simp
    have isAgain : isRedefinition (before ++ (name, position) :: definitions) ((name, position), before.length) =
        decide (name ∈ known) := by
      simp [isRedefinition, same]
    have next : before.length + 1 = (before ++ [(name, position)]).length := by simp
    rw [List.zipIdx_cons, List.filter_cons, isAgain, whole, next, registerRoutines]
    cases nameClash? name with
    | some clash =>
      intro state value after _ ran
      cases ran
    | none =>
      by_cases isKnown : name ∈ known
      · rw [if_pos (by simpa using isKnown), if_pos (by simpa using isKnown)]
        apply tells_bind (tells_about rfl)
        intro _
        apply ih
        intro other
        simp [← same]
        grind
      · rw [if_neg (by simpa using isKnown), if_neg (by simpa using isKnown)]
        apply ih
        intro other
        simp [← same]

/-- The events about routines that a program brings about, when the given routines are registered. -/
def routineEvents (haltLoop : Bool) (program : Program) (known : List String) : List Event :=
  (redefinitions (definitionsIn program)).map redefined ++ (.registered known ::
    ((landmarksIn program).flatMap Landmark.events ++
      if haltLoop && !known.contains endLabel then [.haltAppended] else []))

/-- A compilation that succeeds tells of what is defined again, of the names that are registered, which are
those of the definitions and free for routines, of the landmarks of the program, and of a halt loop. -/
theorem Context.compile_tells {context : Context} {haltLoop : Bool} {program : Program} {listing : Listing}
    (compiled : (context.compile haltLoop program).result = .ok listing) :
    ∃ known, (∀ name, name ∈ known ↔ name ∈ (definitionsIn program).map Prod.fst) ∧
      (∀ name ∈ known, nameClash? name = none) ∧
      (context.compile haltLoop program).trail.toList.filter Event.isAboutRoutines =
        routineEvents haltLoop program known := by
  obtain ⟨after, ran, _, _, trail⟩ := compile_eq_ok compiled
  rw [trail]
  obtain ⟨known, middle, registers, rest⟩ := bind_eq_ok_iff.mp ran
  obtain ⟨_, members, vetted⟩ := registerRoutines_eq_ok registers
  have members (name : String) : name ∈ known ↔ name ∈ (definitionsIn program).map Prod.fst := by
    simpa using members name
  refine ⟨known, members, fun name isKnown => vetted name ((members name).mp isKnown), ?_⟩
  obtain ⟨holds, told⟩ := registerRoutines_tells [] (definitionsIn program) (by simp) rfl registers
  have ends : Tells 0 (if haltLoop && !known.contains endLabel then [.haltAppended] else [])
      (if haltLoop && !known.contains endLabel then do
          record .haltAppended
          emit (.label endLabel)
          emit (.jump endLabel)
        else pure ()) := by
    by_cases appended : (haltLoop && !known.contains endLabel) = true
    · rw [if_pos appended, if_pos appended]
      apply tells_before (tells_about rfl)
      intro _
      exact tells_then (tells_emit rfl) fun _ => tells_emit rfl
    · rw [if_neg appended, if_neg appended]
      exact tells_pure _
  have notes : Tells 0 [.registered known] (record (.registered known)) := tells_about rfl
  have body := tells_bind notes fun _ =>
    tells_bind (blockCode_tells known 0 program) fun _ => ends
  have toldRest := (body holds rest).2
  rw [told] at toldRest
  simpa [routineEvents, redefinitions, Emission.told, Emission.start, Function.comp_def] using toldRest

end Dcpu
