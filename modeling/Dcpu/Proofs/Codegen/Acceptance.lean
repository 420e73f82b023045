import Dcpu.Proofs.Codegen.Contexts
import Dcpu.Proofs.Codegen.Linking
import Dcpu.Proofs.Codegen.Relocation
import Dcpu.Proofs.Source.WellFormed

/-! # Which programs are accepted

Code generation reaches every expression and every assignment of a program, and asks of each what makes
the program well formed. So code is made for a well-formed program unless memory runs out, and any other
program is refused for a fault of its own. Scopes are never at fault, since the ledger has each of them
open while its body runs.
-/

namespace Dcpu

open Source Effects Gen

/-- The kinds of errors, without what they tell. -/
inductive ErrorKind where
  | lexical
  | unexpectedCharacter
  | parse
  | expectedToken
  | unsupportedOperator
  | noAddress
  | memoryExhausted
  | scope
  | undefinedRoutine
  | reservedName
  | settings
  | file
deriving DecidableEq, Repr

def CompileError.kind : CompileError → ErrorKind
  | .number .. => .lexical
  | .unexpectedCharacter .. => .unexpectedCharacter
  | .misplacedCall .. => .parse
  | .expected .. => .expectedToken
  | .unsupported .. => .unsupportedOperator
  | .noAddress .. => .noAddress
  | .slots .memoryExhausted _ => .memoryExhausted
  | .slots _ _ => .scope
  | .undefinedRoutine .. => .undefinedRoutine
  | .reservedName .. => .reservedName
  | .settings _ => .settings
  | .file .. => .file

/-- Whether a syntax tree is to blame for errors of a kind. -/
def ErrorKind.isFault : ErrorKind → Bool
  | unsupportedOperator | noAddress | undefinedRoutine | reservedName => true
  | _ => false

theorem CompileError.eq_memoryExhausted {error : CompileError} (exhausted : error.kind = .memoryExhausted) :
    ∃ position, error = .slots .memoryExhausted position := by
  cases error with
  | slots refusal position =>
    cases refusal with
    | memoryExhausted => exact ⟨position, rfl⟩
    | rootClosed | unknownScope => cases exhausted
  | _ => cases exhausted

namespace Gen

variable {α β : Type} {needed : List Word} {scope : ScopeId} {fine other : Prop}

/-- An outcome tells whether a condition holds: it does after success, and it does not after a fault.
Only when memory has run out is nothing told. -/
def Judges (fine : Prop) : EStateM.Result CompileError Emission α → Prop
  | .ok _ _ => fine
  | .error error _ => error.kind = .memoryExhausted ∨ error.kind.isFault = true ∧ ¬ fine

/-- Wherever steps run in a scope with the given slots held, their outcome tells whether a condition
holds. -/
def Decides (needed : List Word) (scope : ScopeId) (fine : Prop) (steps : Gen α) : Prop :=
  ∀ (ledger : Ledger) (state : Emission), ledger.Mirrors scope state.context.slots →
    (∀ slot ∈ needed, slot ∈ ledger.held) → Judges fine (steps state)

theorem decides_of_iff {steps : Gen α} (same : fine ↔ other) (decides : Decides needed scope fine steps) :
    Decides needed scope other steps :=
  propext same ▸ decides

theorem decides_pure (value : α) : Decides needed scope True (pure value : Gen α) :=
  fun _ _ _ _ => trivial

theorem decides_get : Decides needed scope True (get : Gen Emission) :=
  fun _ _ _ _ => trivial

theorem decides_record (event : Event) : Decides needed scope True (record event) :=
  fun _ _ _ _ => trivial

theorem decides_emit (line : Line) : Decides needed scope True (emit line) :=
  decides_record _

theorem decides_nextTag (stem : String) : Decides needed scope True (nextTag stem) :=
  fun _ _ _ _ => trivial

theorem decides_throw {error : CompileError} (isFault : error.kind.isFault = true) :
    Decides needed scope False (throw error : Gen α) :=
  fun _ _ _ _ => .inr ⟨isFault, id⟩

/-- The rest of a sequence need only be looked at for what its first part may give. -/
theorem decides_sequence {first : Gen α} {next : α → Gen β} (keeps : Keeps needed scope first)
    (decidesFirst : Decides needed scope fine first)
    (decidesNext : ∀ state value middle, first state = .ok value middle →
      Decides needed scope other (next value)) : Decides needed scope (fine ∧ other) (first >>= next) := by
  intro ledger state mirrors isHeld
  obtain ⟨events, records⟩ := keeps ledger state mirrors isHeld
  have judged := decidesFirst ledger state mirrors isHeld
  rw [bind_apply]
  cases ran : first state with
  | error error middle =>
    rw [ran] at judged
    exact judged.imp_right fun ⟨isFault, isWrong⟩ => ⟨isFault, fun both => isWrong both.1⟩
  | ok value middle =>
    rw [ran] at judged
    rw [after_of_ok ran] at records
    have further := decidesNext state value middle ran _ middle records.mirrors (records.held.symm ▸ isHeld)
    dsimp only
    cases rest : next value middle with
    | ok =>
      rw [rest] at further
      exact ⟨judged, further⟩
    | error =>
      rw [rest] at further
      exact further.imp_right fun ⟨isFault, isWrong⟩ => ⟨isFault, fun both => isWrong both.2⟩

/-- Two steps succeed exactly when both conditions hold, for what the first leaves is still in order when the
second begins. -/
theorem decides_bind {first : Gen α} {next : α → Gen β} (keeps : Keeps needed scope first)
    (decidesFirst : Decides needed scope fine first)
    (decidesNext : ∀ value, Decides needed scope other (next value)) :
    Decides needed scope (fine ∧ other) (first >>= next) :=
  decides_sequence keeps decidesFirst fun _ value _ _ => decidesNext value

/-- A first part that is never at fault leaves the decision to the rest. -/
theorem decides_then {first : Gen α} {next : α → Gen β} (keeps : Keeps needed scope first)
    (decidesFirst : Decides needed scope True first)
    (decidesNext : ∀ value, Decides needed scope fine (next value)) :
    Decides needed scope fine (first >>= next) :=
  decides_of_iff (iff_of_eq (true_and _)) (decides_bind keeps decidesFirst decidesNext)

/-- The first part makes the decision if the rest is never at fault. -/
theorem decides_first {first : Gen α} {next : α → Gen β} (keeps : Keeps needed scope first)
    (decidesFirst : Decides needed scope fine first)
    (decidesNext : ∀ value, Decides needed scope True (next value)) :
    Decides needed scope fine (first >>= next) :=
  decides_of_iff (iff_of_eq (and_true _)) (decides_bind keeps decidesFirst decidesNext)

theorem decides_record_then {event : Event} {rest : Gen α} (aside : event.isAside = true)
    (decides : Decides needed scope fine rest) : Decides needed scope fine (record event >>= fun _ => rest) :=
  decides_then (keeps_record aside) (decides_record event) fun _ => decides

theorem decides_emit_then {line : Line} {rest : Gen α}
    (placed : ∀ address ∈ line.places, address ∈ needed) (decides : Decides needed scope fine rest) :
    Decides needed scope fine (emit line >>= fun _ => rest) :=
  decides_then (keeps_emit placed) (decides_emit line) fun _ => decides

/-- A clean-up that succeeds leaves the verdict of the body as it is. -/
theorem judges_always {body behind : Gen Unit} {state : Emission}
    (succeeds : ∃ final, behind (body.after state) = .ok () final) (judged : Judges fine (body state)) :
    Judges fine (always body behind state) := by
  obtain ⟨final, behindRan⟩ := succeeds
  rw [always]
  cases ran : body state with
  | ok _ middle =>
    rw [after, ran] at behindRan
    rw [ran] at judged
    dsimp only at behindRan ⊢
    rw [behindRan]
    exact judged
  | error error middle =>
    rw [after, ran] at behindRan
    rw [ran] at judged
    dsimp only at behindRan ⊢
    rw [behindRan]
    exact judged

/-- A slot that is taken around a body does not change what decides its success. -/
theorem decides_withScratch {position : Position} {body : Word → Gen Unit}
    (decidesBody : ∀ slot, Decides (slot :: needed) scope fine (body slot)) :
    Decides needed scope fine (withScratch position body) := by
  intro ledger state mirrors isHeld
  cases free : state.context.slots.free? with
  | none =>
    rw [withScratch_of_full free]
    exact .inl rfl
  | some slot =>
    rw [withScratch, bind_apply, acquire_eq position free]
    dsimp only
    apply judges_always
    · exact ⟨_, rfl⟩
    · exact decidesBody slot _ (state.holding slot) (mirrors.acquired free) (held_acquired isHeld)

/-- A scope of its own is open when a body ends, whether or not the body fails, and so can be closed. -/
theorem decides_inScope {position : Position} {body : ScopeId → Gen Unit}
    (keepsBody : ∀ inner, Keeps needed inner (body inner))
    (decidesBody : ∀ inner, Decides needed inner fine (body inner)) :
    Decides needed scope fine (inScope scope position body) := by
  intro ledger state mirrors isHeld
  obtain ⟨outer, isOpen, path⟩ := mirrors.path
  have entered := mirrors.opened isOpen
  obtain ⟨events, records⟩ := keepsBody _ _ (state.entering scope outer) entered isHeld
  obtain ⟨behind, closes, _⟩ := records.mirrors.closed (records.path_entered path)
  rw [inScope, bind_apply, openScope_eq position isOpen]
  dsimp only
  apply judges_always
  · rw [closeScope, bind_apply, onSlots, closes]
    exact ⟨_, rfl⟩
  · exact decidesBody _ _ (state.entering scope outer) entered isHeld

/-- A name has an address unless it needs one and memory has run out. -/
theorem decides_access (want : Want) (name : String) (position : Position) :
    Decides needed scope True (access want name scope position) := by
  intro ledger state mirrors _
  obtain ⟨outer, isOpen, _⟩ := mirrors.path
  rw [access, bind_apply]
  cases screen : Slots.isScreen name with
  | true =>
    rw [addressOf_screen screen]
    trivial
  | false =>
    cases seen : state.context.slots.visible? name scope with
    | some binding =>
      rw [addressOf_visible screen position mirrors.consistent seen]
      trivial
    | none =>
      cases free : state.context.slots.free? with
      | some address =>
        rw [addressOf_fresh screen position mirrors.consistent isOpen seen free]
        trivial
      | none =>
        rw [addressOf_full screen position mirrors.consistent isOpen seen free]
        exact .inl rfl

end Gen

namespace Source

/-- Whether code can be made that leaves what is wanted of an expression. -/
def Expr.isFine (routines : List String) (want : Want) (expr : Expr) : Bool :=
  expr.nodes.all (fits routines) && (want == .value || expr.isPlace)

def allFine (routines : List String) (statements : List Stmt) : Bool :=
  (nodesIn statements).all (Expr.fits routines) && (targetsIn statements).all Expr.isPlace

@[simp] theorem Expr.isFine_value (routines : List String) (expr : Expr) :
    expr.isFine routines .value = expr.nodes.all (fits routines) := by
  simp [isFine]

@[simp] theorem Expr.isFine_address (routines : List String) (expr : Expr) :
    expr.isFine routines .address = (expr.nodes.all (fits routines) && expr.isPlace) :=
  rfl

/-- Only the set of the routines matters. -/
theorem Expr.fits_congr {routines others : List String} (same : ∀ name, name ∈ routines ↔ name ∈ others) :
    fits routines = fits others := by
  funext expr
  cases expr with
  | call position routine => simp [fits, same]
  | _ => rfl

end Source

namespace Plan

/-- Whether a plan refuses nothing and calls known routines only. -/
def isFine (routines : List String) : Plan → Bool
  | noAddress .. | unsupported .. => false
  | call name _ => name == exitCall || routines.contains name
  | both first second => first.isFine routines && second.isFine routines
  | keeping _ body | inside _ body | tagged _ body => body.isFine routines
  | _ => true

variable (routines : List String)

@[simp] theorem isFine_append (first second : Plan) :
    (first ++ second).isFine routines = (first.isFine routines && second.isFine routines) := rfl

@[simp] theorem isFine_valueOnly (want : Want) (form : ExprForm) (position : Position) :
    (valueOnly want form position).isFine routines = decide (want = .value) := by
  cases want <;> rfl

@[simp] theorem isFine_lines (plain : List Line) : (lines plain).isFine routines = true := by
  induction plain with
  | nil => rfl
  | cons line plain ih =>
    rw [lines, isFine_append, ih]
    rfl

@[simp] theorem isFine_nextStage (goesOn : Bool) : (nextStage goesOn).isFine routines = true := by
  cases goesOn <;> rfl

@[simp] theorem isFine_chain (several : Bool) (sides : Plan) :
    (chain several sides).isFine routines = sides.isFine routines := by
  cases several <;> simp [chain, isFine]

variable {routines} {needed : List Word}

/-- A call succeeds exactly when its routine is known, or when it is the call that ends the program. -/
private theorem callCode_decides {scope : ScopeId} (name : String) (position : Position) :
    Decides needed scope ((Plan.call name position).isFine routines = true) (callCode routines name position) := by
  rw [callCode]
  split
  case isTrue exits => exact decides_of_iff (by simp [isFine, exits]) (decides_emit _)
  case isFalse stays =>
    split
    case isTrue isKnown =>
      have called : True ↔ (Plan.call name position).isFine routines = true := by
        simpa [isFine, stays] using isKnown
      apply decides_of_iff called
      apply decides_then keeps_get decides_get
      intro state
      dsimp only
      split
      · apply decides_record_then rfl
        exact decides_emit _
      · exact decides_emit _
    case isFalse isUnknown =>
      have uncalled : False ↔ (Plan.call name position).isFine routines = true := by
        simpa [isFine, stays] using isUnknown
      exact decides_of_iff uncalled (decides_throw rfl)

/-- Code is made or refused for a plan as the plan is fine or not. -/
theorem decides {slots : List Word} {plan : Plan} (scope : ScopeId) (tag : String)
    (isPlain : plan.isPlain slots.length = true) (areNeeded : slots ⊆ needed) :
    Decides needed scope (plan.isFine routines = true) (plan.code routines scope slots tag) := by
  induction plan generalizing needed slots scope tag with
  | nothing => exact decides_of_iff (by simp [isFine]) (decides_pure _)
  | noAddress | unsupported => exact decides_of_iff (by simp [isFine]) (decides_throw rfl)
  | plain | jump | label | ret => exact decides_of_iff (by simp [isFine]) (decides_emit _)
  | connective => exact decides_of_iff (by simp [isFine]) (decides_record _)
  | entry name position =>
    exact decides_of_iff (by simp [isFine]) (decides_record_then rfl (decides_emit _))
  | access want name position => exact decides_of_iff (by simp [isFine]) (decides_access want name position)
  | call name position => exact callCode_decides name position
  | both first second firstDecides secondDecides =>
    obtain ⟨firstPlain, secondPlain⟩ := Bool.and_eq_true_iff.mp isPlain
    apply decides_of_iff Bool.and_eq_true_iff.symm
    apply decides_bind (first.keeps routines scope tag firstPlain areNeeded)
      (firstDecides scope tag firstPlain areNeeded)
    intro _
    exact secondDecides scope tag secondPlain areNeeded
  | keeping position body decides =>
    apply decides_withScratch
    intro slot
    exact decides scope tag isPlain (List.cons_subset_cons slot areNeeded)
  | inside position body decides =>
    apply decides_inScope
    · intro inner
      exact body.keeps routines inner tag isPlain areNeeded
    · intro inner
      exact decides inner tag isPlain areNeeded
  | tagged stem body decides =>
    apply decides_then (keeps_nextTag stem) (decides_nextTag stem)
    intro drawn
    exact decides scope drawn isPlain areNeeded

end Plan

section Trees

open Plan

variable (routines : List String)

mutual

/-- The plan of an expression is fine if the expression is. -/
theorem Source.Expr.isFine_plan (want : Want) (expr : Expr) :
    (expr.plan want).isFine routines = expr.isFine routines want := by
  cases expr with
  | number | call | name =>
    cases want <;> simp [Expr.plan, Plan.isFine, Expr.nodes, Expr.fits, Expr.isPlace]
  -- the base is asked for its address, and this is where one that is no place is refused
  | index position base index =>
    cases want <;> simp [Expr.plan, Plan.isFine, Expr.nodes, Expr.fits, Expr.isPlace, Expr.isFine_plan] <;> grind
  | binary position op left right =>
    cases op <;> cases want <;>
      simp [Expr.plan, opcode?, Plan.isFine, Expr.nodes, Expr.fits, Expr.isPlace, Expr.isFine_plan]
  | unary position op operand =>
    cases op <;> cases want <;>
      simp [Expr.plan, Plan.isFine, Expr.nodes, Expr.fits, Expr.isPlace, Expr.isFine_plan]
  | logical position op operands =>
    cases want <;> simp [Expr.plan, Plan.isFine, Expr.nodes, Expr.fits, Expr.isPlace, isFine_operandsPlan]
  | compare position first stages =>
    cases want <;>
      simp [Expr.plan, Plan.isFine, Expr.nodes, Expr.fits, Expr.isPlace, Expr.isFine_plan, isFine_stagesPlan]

theorem Source.isFine_operandsPlan (op : LogicalOp) (operands : List Expr) :
    (operandsPlan op operands).isFine routines = (nodesOfAll operands).all (Expr.fits routines) := by
  match operands with
  | [] => rfl
  | [operand] => simp [operandsPlan, nodesOfAll, Expr.isFine_plan]
  | operand :: next :: operands =>
    have rest := isFine_operandsPlan op (next :: operands)
    simp only [operandsPlan, isFine_append, Expr.isFine_plan, rest]
    simp [nodesOfAll, Plan.isFine]

theorem Source.isFine_stagesPlan (several : Bool) (stages : List (Relation × Expr)) :
    (stagesPlan several stages).isFine routines = (nodesOfStages stages).all (Expr.fits routines) := by
  match stages with
  | [] => rfl
  | (relation, operand) :: stages =>
    simp [stagesPlan, nodesOfStages, Plan.isFine, Expr.isFine_plan, isFine_stagesPlan]

end

theorem Source.isFine_targetsPlan (targets : List Expr) : (targetsPlan targets).isFine routines =
    ((nodesOfAll targets).all (Expr.fits routines) && targets.all Expr.isPlace) := by
  induction targets with
  | nil => rfl
  | cons target targets ih =>
    simp [targetsPlan, nodesOfAll, Plan.isFine, Expr.isFine_plan, ih]
    grind

mutual

theorem Source.Stmt.isFine_plan (statement : Stmt) :
    statement.plan.isFine routines = allFine routines [statement] := by
  cases statement with
  | routine position name body =>
    rw [Stmt.plan]
    split <;> simp [Plan.isFine, isFine_blockPlan, allFine, nodesIn, targetsIn, Stmt.nodes, Stmt.targets]
  | ret position value =>
    cases value <;>
      simp [Stmt.plan, Plan.isFine, Expr.isFine_plan, allFine, nodesIn, targetsIn, Stmt.nodes, Stmt.targets]
  | branch position test body alternative =>
    simp [Stmt.plan, Plan.isFine, Plan.unlessHolds, Expr.isFine_plan, isFine_blockPlan, allFine, nodesIn, targetsIn,
      Stmt.nodes, Stmt.targets]
    grind
  | whileLoop position test body =>
    simp [Stmt.plan, loop, Plan.isFine, Plan.unlessHolds, Expr.isFine_plan, isFine_blockPlan, allFine, nodesIn,
      targetsIn, Stmt.nodes, Stmt.targets]
    grind
  | forLoop position init test step body =>
    simp [Stmt.plan, loop, Plan.isFine, Plan.unlessHolds, Expr.isFine_plan, Stmt.isFine_plan, isFine_blockPlan,
      allFine, nodesIn, targetsIn, Stmt.nodes, Stmt.targets]
    grind
  | assign position targets value =>
    simp [Stmt.plan, Plan.isFine, Expr.isFine_plan, isFine_targetsPlan, allFine, nodesIn, targetsIn, Stmt.nodes,
      Stmt.targets]
    grind
  | evaluate position value =>
    simp [Stmt.plan, Expr.isFine_plan, allFine, nodesIn, targetsIn, Stmt.nodes, Stmt.targets]

/-- The plan of a block is fine if its expressions and assignments are. -/
theorem Source.isFine_blockPlan (statements : List Stmt) :
    (blockPlan statements).isFine routines = allFine routines statements := by
  cases statements with
  | nil => rfl
  | cons statement statements =>
    simp [blockPlan, Stmt.isFine_plan, isFine_blockPlan, allFine, nodesIn, targetsIn]
    grind

end

/-- Code is made or refused for statements as their expressions and assignments are fine or not. -/
theorem blockCode_decides (needed : List Word) (scope : ScopeId) (statements : List Stmt) :
    Decides needed scope (allFine routines statements = true) (blockCode routines scope statements) := by
  rw [← code_blockPlan routines scope [] "", ← isFine_blockPlan]
  exact Plan.decides scope "" (isPlain_blockPlan 0 statements) (List.nil_subset _)

end Trees

/-- Routines are registered unless a name clashes. -/
theorem registerRoutines_decides (known : List String) (definitions : List (String × Position))
    (needed : List Word) (scope : ScopeId) :
    Decides needed scope (definitions.all (fun definition => (nameClash? definition.1).isNone) = true)
      (registerRoutines known definitions) := by
  induction definitions generalizing known with
  | nil => exact decides_of_iff (by simp) (decides_pure _)
  | cons definition definitions ih =>
    obtain ⟨name, position⟩ := definition
    simp only [registerRoutines]
    cases clash : nameClash? name with
    | some reason =>
      intro ledger state _ _
      exact .inr ⟨rfl, by simp [clash]⟩
    | none =>
      have parts : definitions.all (fun definition => (nameClash? definition.1).isNone) = true ↔
          ((name, position) :: definitions).all (fun definition => (nameClash? definition.1).isNone) = true := by
        simp [clash]
      apply decides_of_iff parts
      dsimp only
      split
      · apply decides_record_then rfl
        exact ih known
      · exact ih (known ++ [name])

/-- Code is made or refused for a program as the program is well formed or not. -/
theorem programCode_decides (haltLoop : Bool) (program : Program) :
    Decides [] 0 (program.isWellFormed = true) (programCode haltLoop program) := by
  have parts : (definitionsIn program).all (fun definition => (nameClash? definition.1).isNone) = true ∧
      allFine ((definitionsIn program).map Prod.fst) program = true ↔ program.isWellFormed = true := by
    simp only [Program.isWellFormed, allFine, Bool.and_eq_true, and_assoc]
  apply decides_of_iff parts
  apply decides_sequence (registerRoutines_keeps [] (definitionsIn program) [] 0)
    (registerRoutines_decides [] (definitionsIn program) [] 0)
  intro state routines middle registered
  -- calls are looked up among the registered names, which are those of the definitions in another order
  have members := (registerRoutines_eq_ok registered).2.1
  simp only [List.not_mem_nil, false_or] at members
  have sameFits := Expr.fits_congr members
  rw [allFine, ← sameFits]
  apply decides_record_then rfl
  apply decides_first (blockCode_keeps routines [] 0 program) (blockCode_decides routines [] 0 program)
  intro _
  split
  · apply decides_record_then rfl
    apply decides_emit_then (by simp)
    exact decides_emit _
  · exact decides_pure _

/-- A well-formed program is compiled unless memory runs out, and a program that is not is refused. The
error is a lack of memory or a fault of the tree, and never one of scopes, of reading or of settings. -/
theorem compileProgram_accepts_wellFormed {settings : Settings} (valid : settings.validate = .ok ())
    (program : Program) :
    (program.isWellFormed = true →
      (∃ listing, (compileProgram settings program).result = .ok listing) ∨
        ∃ position, (compileProgram settings program).result = .error (.slots .memoryExhausted position)) ∧
      (program.isWellFormed = false → ∃ error, (compileProgram settings program).result = .error error) ∧
      ∀ error, (compileProgram settings program).result = .error error →
        error.kind ∉ [.scope, .lexical, .unexpectedCharacter, .parse, .expectedToken, .settings, .file] := by
  have judged := programCode_decides settings.haltLoop program _ (.start (.new settings))
    (Ledger.mirrors_start (Slots.consistent_new ..)) (by simp)
  rw [result_compileProgram valid, Context.result_compile]
  cases ran : programCode settings.haltLoop program (.start (.new settings)) with
  | ok _ final =>
    rw [ran] at judged
    have isFine : program.isWellFormed = true := judged
    exact ⟨fun _ => .inl ⟨_, rfl⟩, by simp [isFine], by simp⟩
  | error error final =>
    rw [ran] at judged
    refine ⟨fun isFine => .inr ?_, fun _ => ⟨error, rfl⟩, ?_⟩
    · obtain exhausted | ⟨_, isWrong⟩ := judged
      · obtain ⟨position, rfl⟩ := CompileError.eq_memoryExhausted exhausted
        exact ⟨position, rfl⟩
      · exact absurd isFine isWrong
    · rintro _ ⟨⟩
      obtain exhausted | ⟨isFault, _⟩ := judged
      · simp [exhausted]
      · revert isFault
        cases error.kind <;> decide

/-- A routine that assigns to a subscript of the given base, with a call of itself as the index. -/
def subscripting (base : Expr) : Program :=
  [.routine ⟨1, 1⟩ "f" [.assign ⟨2, 17⟩
    [.index ⟨2, 3⟩ base (.unary ⟨2, 10⟩ .not (.call ⟨2, 11⟩ "f"))] (.number ⟨2, 19⟩ 2)]]

/-- The screen is a base and a number is none, which is found out only behind the code of the index. -/
theorem compileProgram_accepts_wellFormed_subscripting :
    ((subscripting (.name ⟨2, 3⟩ "screen")).isWellFormed = true ∧
      ∃ listing, (compileProgram ⟨0x10, 0x11, 0x8000, true⟩ (subscripting (.name ⟨2, 3⟩ "screen"))).result =
        .ok listing) ∧
      (subscripting (.number ⟨2, 3⟩ 7)).isWellFormed = false ∧
      ∃ error, (compileProgram ⟨0x10, 0x11, 0x8000, true⟩ (subscripting (.number ⟨2, 3⟩ 7))).result =
        .error error ∧ error.kind ≠ .scope := by
  have isFine : (subscripting (.name ⟨2, 3⟩ "screen")).isWellFormed = true := by decide +kernel
  have isWrong : (subscripting (.number ⟨2, 3⟩ 7)).isWellFormed = false := by decide +kernel
  have hasRoom : (compileProgram ⟨0x10, 0x11, 0x8000, true⟩
      (subscripting (.name ⟨2, 3⟩ "screen"))).result.isOk = true := by decide +kernel
  obtain ⟨accepted, _⟩ := @compileProgram_accepts_wellFormed ⟨0x10, 0x11, 0x8000, true⟩ rfl
    (subscripting (.name ⟨2, 3⟩ "screen"))
  obtain ⟨_, refused, kinds⟩ := @compileProgram_accepts_wellFormed ⟨0x10, 0x11, 0x8000, true⟩ rfl
    (subscripting (.number ⟨2, 3⟩ 7))
  refine ⟨⟨isFine, (accepted isFine).resolve_right ?_⟩, isWrong, ?_⟩
  · rintro ⟨position, exhausted⟩
    rw [exhausted] at hasRoom
    cases hasRoom
  · obtain ⟨error, failed⟩ := refused isWrong
    exact ⟨error, failed, fun isScope => kinds error failed (by simp [isScope])⟩

end Dcpu
