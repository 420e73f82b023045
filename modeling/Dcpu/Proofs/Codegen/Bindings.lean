import Dcpu.Proofs.Codegen.Contexts
import Dcpu.Proofs.Source.Structured

/-! # Which variables a compilation leaves

The code of a block binds the names that stand in the block outside the blocks within it, and every
variable that is bound inside is gone when the block within is left. So a compilation leaves variables
of the program's own scope only, and whether or not it fails, every slot for an intermediate result is
given back.
-/

namespace Dcpu

open Source Effects Gen

/-- The names in a statement outside the blocks within it. The first part and the test of a loop stand
outside, its step stands inside. -/
def Source.Stmt.outerNames : Stmt → List String
  | .routine .. => []
  | .ret _ value => (value.map Expr.names).getD []
  | .branch _ test _ _ => test.names
  | .whileLoop _ test _ => test.names
  | .forLoop _ init test _ _ => init.outerNames ++ test.names
  | .assign _ targets value => namesOfAll targets ++ value.names
  | .evaluate _ value => value.names

def outerNamesIn (statements : List Stmt) : List String :=
  statements.flatMap Stmt.outerNames

/-- Wherever steps run in a scope with the given slots held, they keep the ledger, bind the given names, and
have lines for the given mentions of names only. -/
def Gen.Names {α : Type} (needed : List Word) (scope : ScopeId) (names : List String) (mentions : List Mention)
    (steps : Gen α) : Prop :=
  ∀ (ledger : Ledger) (state : Emission), ledger.Sound → ledger.Mirrors scope state.context.slots →
    (∀ slot ∈ needed, slot ∈ ledger.held) →
    ∃ events, state.Records ledger scope events (steps.after state) ∧
      Emission.Binds ledger scope names mentions (∃ value final, steps state = .ok value final) events

namespace Gen

variable {α β : Type} {needed : List Word} {scope : ScopeId} {names more : List String}
  {mentions others : List Mention}

private theorem binds_none {ledger : Ledger} {succeeded : Prop} {events : List Event}
    (unbound : ∀ name address, .bound name address scope ∉ events) (spells : ledger.Spells mentions events) :
    Emission.Binds ledger scope [] mentions succeeded events :=
  ⟨fun name address member => absurd member (unbound name address), by simp, spells⟩

theorem names_pure (value : α) : Names needed scope [] [] (pure value : Gen α) :=
  fun _ _ _ mirrors _ => ⟨[], .refl mirrors, binds_none (by simp) trivial⟩

theorem names_throw (error : CompileError) : Names needed scope names mentions (throw error : Gen α) := by
  intro ledger state _ mirrors _
  refine ⟨[], .refl mirrors, by simp, ?_, trivial⟩
  rintro ⟨_, _, impossible⟩
  cases impossible

theorem names_get : Names needed scope [] [] (get : Gen Emission) :=
  fun _ _ _ mirrors _ => ⟨[], .refl mirrors, binds_none (by simp) trivial⟩

theorem names_nextTag (stem : String) : Names needed scope [] [] (nextTag stem) :=
  fun _ _ _ mirrors _ => ⟨[], ⟨(List.append_nil _).symm, trivial, mirrors, rfl, rfl, by simp⟩,
    binds_none (by simp) trivial⟩

theorem names_record {event : Event} (aside : event.isAside = true) :
    Names needed scope [] [] (record event) := by
  intro ledger state _ mirrors _
  cases event with
  | opened | closed | acquired | released | bound | emitted => cases aside
  | _ => exact ⟨_, .noted mirrors trivial rfl (by simp), binds_none (by simp) ⟨by simp [Event.line?], trivial⟩⟩

theorem names_emit {line : Line} (placed : ∀ address ∈ line.places, address ∈ needed) :
    Names needed scope [] [] (emit line) := by
  intro ledger state _ mirrors isHeld
  have explains : ledger.Explains [] line :=
    .slots fun address member => isHeld address (placed address member)
  exact ⟨_, .emitted mirrors explains, binds_none (by simp) (spells_line explains)⟩

/-- A line of a name binds the name. -/
theorem names_access (want : Want) (name : String) (position : Position) :
    Names needed scope [name] [⟨want, name⟩] (access want name scope position) :=
  fun _ _ _ mirrors _ => access_binds mirrors

/-- The names of two steps are bound by their sequence: what the first has bound outlasts the second. -/
theorem names_bind {first : Gen α} {next : α → Gen β} (namesFirst : Names needed scope names mentions first)
    (namesNext : ∀ value, Names needed scope more others (next value)) :
    Names needed scope (names ++ more) (mentions ++ others) (first >>= next) := by
  intro ledger state sound mirrors isHeld
  obtain ⟨events, records, only, each, spells⟩ := namesFirst ledger state sound mirrors isHeld
  have spells := spells.mono (List.subset_append_left mentions others)
  cases ran : first state with
  | error error middle =>
    have stops : (first >>= next).after state = first.after state := by
      rw [after, after, bind_apply, ran]
    refine ⟨events, stops ▸ records, fun name address member => ?_, ?_, spells⟩
    · exact (only name address member).imp_left (List.mem_append_left _)
    · rintro ⟨_, _, succeeds⟩
      rw [bind_apply, ran] at succeeds
      cases succeeds
  | ok value middle =>
    rw [after_of_ok ran] at records
    obtain ⟨later, further, onlyNext, eachNext, spellsNext⟩ := namesNext value _ middle
      (sound.replay records.lawful) records.mirrors (records.held.symm ▸ isHeld)
    have ends : (first >>= next).after state = (next value).after middle := after_bind ran
    have whole := records.trans further
    rw [← ends] at whole
    refine ⟨events ++ later, whole, fun name address member => ?_, ?_,
      Ledger.spells_append.mpr ⟨spells, spellsNext.mono (List.subset_append_right mentions others)⟩⟩
    · obtain inFirst | inNext := List.mem_append.mp member
      · exact (only name address inFirst).imp_left (List.mem_append_left _)
      · exact (onlyNext name address inNext).imp_left (List.mem_append_right _)
    · rintro ⟨result, final, succeeds⟩ name member plain
      rw [bind_apply, ran] at succeeds
      obtain inFirst | inNext := List.mem_append.mp member
      · obtain ⟨binding, isLive, named, isOpen⟩ := each ⟨value, middle, ran⟩ name inFirst plain
        exact ⟨binding, whole.live_later isOpen (List.prefix_append ..) (List.prefix_refl _) isLive,
          named, isOpen⟩
      · obtain ⟨binding, isLive, named, isOpen⟩ := eachNext ⟨result, final, succeeds⟩ name inNext plain
        rw [Ledger.replay_append]
        exact ⟨binding, isLive, named, records.path ▸ isOpen⟩

/-- A sequence whose second part has no names. -/
theorem names_andThen {first : Gen α} {next : α → Gen β} (namesFirst : Names needed scope names mentions first)
    (namesNext : ∀ value, Names needed scope [] [] (next value)) :
    Names needed scope names mentions (first >>= next) := by
  have both := names_bind namesFirst namesNext
  rwa [List.append_nil, List.append_nil] at both

theorem names_emitAll {lines : List Line} (placed : ∀ line ∈ lines, ∀ address ∈ line.places, address ∈ needed) :
    Names needed scope [] [] (emitAll lines) := by
  induction lines with
  | nil => exact names_pure _
  | cons line lines ih =>
    obtain ⟨first, rest⟩ := List.forall_mem_cons.mp placed
    apply names_bind (names_emit first)
    intro _
    exact ih rest

/-- Steps with a slot for an intermediate result bind what they bind with the slot held. -/
theorem names_withScratch {position : Position} {body : Word → Gen Unit}
    (namesBody : ∀ slot, Names (slot :: needed) scope names mentions (body slot)) :
    Names needed scope names mentions (withScratch position body) := by
  intro ledger state sound mirrors isHeld
  cases free : state.context.slots.free? with
  | none =>
    rw [after, withScratch_of_full free]
    refine ⟨[], .refl mirrors, by simp, ?_, trivial⟩
    rintro ⟨_, _, impossible⟩
    cases impossible
  | some slot =>
    obtain ⟨events, records, only, each, spells⟩ := namesBody slot (ledger.note (.acquired slot))
      (state.holding slot) (sound.note (mirrors.isFree free)) (mirrors.acquired free)
      (held_acquired isHeld)
    rw [after_withScratch free]
    refine ⟨_, withScratch_records mirrors free records, fun name address member => ?_, ?_,
      by simp [Event.line?], Ledger.spells_append.mpr ⟨spells, by simp [Event.line?], trivial⟩⟩
    · apply only name address
      simpa using member
    · rintro ⟨_, final, succeeds⟩ name member plain
      obtain ⟨_, inner, sameSlot, bodyRan, _⟩ := withScratch_eq_ok_iff.mp succeeds
      cases free.symm.trans sameSlot
      obtain ⟨binding, isLive, named, isOpen⟩ := each ⟨(), inner, bodyRan⟩ name member plain
      rw [Ledger.replay_cons, Ledger.replay_append]
      exact ⟨binding, isLive, named, isOpen⟩

/-- Steps in a scope of their own bind nothing for the scope around. -/
theorem names_inScope {position : Position} {body : ScopeId → Gen Unit}
    (namesBody : ∀ inner, Names needed inner names mentions (body inner)) :
    Names needed scope [] mentions (inScope scope position body) := by
  intro ledger state sound mirrors isHeld
  obtain ⟨outer, isOpen, path⟩ := mirrors.path
  have permitted : ledger.Permits (.opened state.context.slots.scopes.size scope) :=
    ⟨mirrors.scopes.symm, outer, path⟩
  obtain ⟨events, records, _, _, spells⟩ := namesBody _ _ (state.entering scope outer) (sound.note permitted)
    (mirrors.opened isOpen) isHeld
  refine ⟨_, inScope_records mirrors isOpen records, binds_none (fun name address member => ?_)
    ⟨by simp [Event.line?], Ledger.spells_append.mpr ⟨spells, by simp [Event.line?], trivial⟩⟩⟩
  -- the scope around gets no variables while the one within is open
  have staysOpen := records.inside _ (List.mem_cons_self ..)
  obtain ⟨_, unbound⟩ := @Ledger.Sound.untouched_around _ _ [] ledger.path _ (sound.note permitted)
    records.lawful rfl staysOpen scope (path.symm ▸ List.mem_cons_self ..)
  simp only [List.mem_cons, reduceCtorEq, List.mem_append, List.not_mem_nil, or_false, false_or] at member
  exact unbound name address member

/-- Only which names there are matters, not their order or how often they stand there. -/
theorem names_congr {steps : Gen α} (namesSteps : Names needed scope names mentions steps)
    (same : ∀ name, name ∈ names ↔ name ∈ more) : Names needed scope more mentions steps := by
  intro ledger state sound mirrors isHeld
  obtain ⟨events, records, only, each, spells⟩ := namesSteps ledger state sound mirrors isHeld
  exact ⟨events, records, fun name address member => (only name address member).imp_left (same name).mp,
    fun succeeded name member => each succeeded name ((same name).mpr member), spells⟩

end Gen

namespace Plan

/-- The names whose lines a plan has outside the scopes that it opens. -/
def ownNames : Plan → List String
  | access _ name _ => [name]
  | both first second => first.ownNames ++ second.ownNames
  | keeping _ body | tagged _ body => body.ownNames
  | _ => []

@[simp] theorem ownNames_append (first second : Plan) :
    (first ++ second).ownNames = first.ownNames ++ second.ownNames := rfl

/-- A plan of a value opens no scope, so that all names it mentions are its own. -/
theorem ownNames_of_isValue {plan : Plan} {depth : Nat} (isValue : plan.isValue depth = true) :
    plan.ownNames = plan.mentions.map Mention.name := by
  induction plan generalizing depth with
  | both first second firstNames secondNames =>
    obtain ⟨firstValue, secondValue⟩ := Bool.and_eq_true_iff.mp isValue
    rw [ownNames, mentions, firstNames firstValue, secondNames secondValue, List.map_append]
  | keeping position body names => exact names isValue
  | tagged stem body names => exact names isValue
  | inside => cases isValue
  | _ => rfl

private theorem callCode_names {needed : List Word} {scope : ScopeId} (routines : List String) (name : String)
    (position : Position) : Names needed scope [] [] (callCode routines name position) := by
  rw [callCode]
  split
  · exact names_emit (by simp)
  · split
    · apply names_bind names_get
      intro state
      dsimp only
      split
      · apply names_bind (names_record rfl)
        intro _
        exact names_emit (by simp)
      · exact names_emit (by simp)
    · exact names_throw _

/-- A plan with slots that are held binds the names outside its scopes, and has lines for its names only. -/
theorem names (routines : List String) {needed slots : List Word} {plan : Plan} (scope : ScopeId)
    (tag : String) (isPlain : plan.isPlain slots.length = true) (areNeeded : slots ⊆ needed) :
    Names needed scope plan.ownNames plan.mentions (plan.code routines scope slots tag) := by
  induction plan generalizing needed slots scope tag with
  | nothing => exact names_pure _
  | noAddress | unsupported => exact names_throw _
  | plain line =>
    apply names_emit
    intro address member
    exact areNeeded (Line.places_of_isPlain isPlain address member)
  | jump | label | ret => exact names_emit (by simp)
  | connective => exact names_record rfl
  | entry name position =>
    apply names_bind (names_record rfl)
    intro _
    exact names_emit (by simp)
  | access want name position => exact names_access want name position
  | call name position => exact callCode_names routines name position
  | both first second firstNames secondNames =>
    obtain ⟨firstPlain, secondPlain⟩ := Bool.and_eq_true_iff.mp isPlain
    apply names_bind (firstNames scope tag firstPlain areNeeded)
    intro _
    exact secondNames scope tag secondPlain areNeeded
  | keeping position body names =>
    apply names_withScratch
    intro slot
    exact names scope tag isPlain (List.cons_subset_cons slot areNeeded)
  | inside position body names =>
    apply names_inScope
    intro inner
    exact names inner tag isPlain areNeeded
  | tagged stem body names =>
    apply names_bind (names_nextTag stem)
    intro drawn
    exact names scope drawn isPlain areNeeded

end Plan

section Trees

open Plan

mutual

theorem Source.Expr.mem_names (want : Want) (expr : Expr) (name : String) :
    name ∈ (expr.mentions want).map Mention.name ↔ name ∈ expr.names := by
  cases expr with
  | number | call | name => rfl
  -- the index is evaluated before the base
  | index position base index =>
    rw [Expr.mentions, Expr.names, List.map_append, List.mem_append, List.mem_append, or_comm,
      base.mem_names, index.mem_names]
  | binary position op left right =>
    rw [Expr.mentions, Expr.names, List.map_append, List.mem_append, List.mem_append, left.mem_names,
      right.mem_names]
  | unary position op operand => exact operand.mem_names .value name
  | logical position op operands => exact mem_namesOfAll .value operands name
  | compare position first stages =>
    rw [Expr.mentions, Expr.names, List.map_append, List.mem_append, List.mem_append, first.mem_names,
      mem_namesOfStages]

theorem Source.mem_namesOfAll (want : Want) (operands : List Expr) (name : String) :
    name ∈ (mentionsOfAll want operands).map Mention.name ↔ name ∈ namesOfAll operands := by
  cases operands with
  | nil => rfl
  | cons operand operands =>
    rw [mentionsOfAll, namesOfAll, List.map_append, List.mem_append, List.mem_append, operand.mem_names,
      mem_namesOfAll]

theorem Source.mem_namesOfStages (stages : List (Relation × Expr)) (name : String) :
    name ∈ (mentionsOfStages stages).map Mention.name ↔ name ∈ namesOfStages stages := by
  match stages with
  | [] => rfl
  | (relation, operand) :: stages =>
    rw [mentionsOfStages, namesOfStages, List.map_append, List.mem_append, List.mem_append, operand.mem_names,
      mem_namesOfStages]

end

variable (name : String)

theorem Source.Expr.mem_ownNames_plan (want : Want) (expr : Expr) :
    name ∈ (expr.plan want).ownNames ↔ name ∈ expr.names := by
  rw [ownNames_of_isValue (expr.isValue_plan 0 want), expr.mentions_plan, expr.mem_names]

theorem Source.mem_ownNames_targetsPlan (targets : List Expr) :
    name ∈ (targetsPlan targets).ownNames ↔ name ∈ namesOfAll targets := by
  rw [ownNames_of_isValue (isValue_targetsPlan 0 targets), mentions_targetsPlan, mem_namesOfAll]

/-- The plan of a statement has the names outside the blocks within it outside the scopes that it opens. -/
theorem Source.Stmt.mem_ownNames_plan (statement : Stmt) :
    name ∈ statement.plan.ownNames ↔ name ∈ statement.outerNames := by
  cases statement with
  | routine position routine body =>
    rw [Stmt.plan]
    split <;> simp [Plan.ownNames, Stmt.outerNames]
  | ret position value =>
    cases value <;> simp [Stmt.plan, Plan.ownNames, Stmt.outerNames, Expr.mem_ownNames_plan]
  | branch position test body alternative =>
    simp [Stmt.plan, Plan.ownNames, Plan.unlessHolds, Stmt.outerNames, Expr.mem_ownNames_plan]
  | whileLoop position test body =>
    simp [Stmt.plan, loop, Plan.ownNames, Plan.unlessHolds, Stmt.outerNames, Expr.mem_ownNames_plan]
  | forLoop position init test step body =>
    simp [Stmt.plan, loop, Plan.ownNames, Plan.unlessHolds, Stmt.outerNames, Expr.mem_ownNames_plan,
      init.mem_ownNames_plan]
  | assign position targets value =>
    simp [Stmt.plan, Plan.ownNames, Stmt.outerNames, Expr.mem_ownNames_plan, mem_ownNames_targetsPlan, or_comm]
  | evaluate position value => simp [Stmt.plan, Stmt.outerNames, Expr.mem_ownNames_plan]

/-- The plan of a block looks up in its own scope the names outside the blocks within it. -/
theorem Source.mem_ownNames_blockPlan (statements : List Stmt) :
    name ∈ (blockPlan statements).ownNames ↔ name ∈ outerNamesIn statements := by
  induction statements with
  | nil => rfl
  | cons statement statements ih =>
    rw [blockPlan, ownNames_append, List.mem_append, statement.mem_ownNames_plan, ih, outerNamesIn, outerNamesIn,
      List.flatMap_cons, List.mem_append]

end Trees

section Code

variable (routines : List String) (needed : List Word) (scope : ScopeId)

/-- The code of an expression binds the names in it. -/
theorem exprCode_names (want : Want) (expr : Expr) :
    Names needed scope expr.names (expr.mentions want) (exprCode routines scope want expr) := by
  rw [← expr.code_plan routines scope [] "", ← expr.mentions_plan]
  exact names_congr (Plan.names routines scope "" (expr.isPlain_plan 0 want) (List.nil_subset _))
    fun name => expr.mem_ownNames_plan name want

/-- The code of a block binds the names outside the blocks within it. -/
theorem blockCode_names (statements : List Stmt) :
    Names needed scope (outerNamesIn statements) (mentionsIn statements) (blockCode routines scope statements) := by
  rw [← code_blockPlan routines scope [] "", ← mentions_blockPlan]
  exact names_congr (Plan.names routines scope "" (isPlain_blockPlan 0 statements) (List.nil_subset _))
    fun name => mem_ownNames_blockPlan name statements

end Code

private theorem registerRoutines_names (known : List String) (definitions : List (String × Position)) :
    Names [] 0 [] [] (registerRoutines known definitions) := by
  induction definitions generalizing known with
  | nil => exact names_pure _
  | cons definition definitions ih =>
    obtain ⟨name, position⟩ := definition
    simp only [registerRoutines]
    have rest : Names [] 0 [] [] (if known.contains name then do
        record (.redefined name position)
        registerRoutines known definitions
      else registerRoutines (known ++ [name]) definitions) := by
      split
      · apply names_bind (names_record rfl)
        intro _
        exact ih known
      · exact ih (known ++ [name])
    split
    · apply names_andThen (names_throw _)
      intro _
      exact rest
    · exact rest

/-- The code of a program binds the names outside the blocks of its statements. -/
theorem programCode_names (haltLoop : Bool) (program : Program) :
    Names [] 0 (outerNamesIn program) (mentionsIn program) (programCode haltLoop program) := by
  apply names_bind (registerRoutines_names [] (definitionsIn program))
  intro routines
  apply names_bind (names_record rfl)
  intro _
  apply names_andThen (blockCode_names routines [] 0 program)
  intro _
  split
  · apply names_bind (names_record rfl)
    intro _
    apply names_bind (names_emit (by simp))
    intro _
    exact names_emit (by simp)
  · exact names_pure _

namespace Context

/-- The variables that a compilation has added to those of its context. -/
def added (context : Context) (compilation : Compilation) : List Binding :=
  compilation.context.slots.current.filter (· ∉ context.slots.current)

/-- A name for which a program needs a variable that the context does not have. -/
structure Wants (context : Context) (program : Program) (name : String) : Prop where
  stands : name ∈ outerNamesIn program
  ordinary : Slots.isScreen name = false
  unbound : ∀ binding ∈ context.slots.current, binding.name ≠ name

/-- A compilation gives back what it took, and leaves its context with more variables at most. -/
structure Restored (context : Context) (program : Program) (compilation : Compilation) : Prop where
  /-- Each slot that was acquired has been released. -/
  released : (context.ledgerAt compilation.trail.toList).held = []
  /-- What is in use is in use for variables. -/
  occupied : ∀ address, compilation.context.slots.isOccupied address = true ↔
    ∃ binding ∈ compilation.context.slots.current, binding.address = address
  counted : compilation.context.slots.occupiedCount = compilation.context.slots.current.length
  /-- All variables belong to the program's own scope. -/
  outermost : ∀ binding ∈ compilation.context.slots.current, binding.origin = 0
  kept : ∀ binding ∈ context.slots.current, binding ∈ compilation.context.slots.current
  once : ((context.added compilation).map Binding.name).Nodup
  wanted : ∀ binding ∈ context.added compilation, context.Wants program binding.name
  /-- A successful compilation has a variable for each name that it wants. -/
  complete : ∀ listing, compilation.result = .ok listing → ∀ name, context.Wants program name →
    ∃ binding ∈ context.added compilation, binding.name = name

variable {settings : Settings} {context : Context}

/-- A compilation binds the names of its program that stand outside blocks. -/
theorem Reached.compile_binds (reached : context.Reached settings) (haltLoop : Bool) (program : Program) :
    Emission.Binds (.start context.slots) 0 (outerNamesIn program) (mentionsIn program)
      (∃ listing, (context.compile haltLoop program).result = .ok listing)
      (context.compile haltLoop program).trail.toList := by
  obtain ⟨events, records, binds⟩ := programCode_names haltLoop program _ (.start context)
    reached.sound (Ledger.mirrors_start reached.flat.1) (by simp)
  have trail : (context.compile haltLoop program).trail.toList = events := by
    rw [(compile_eq context haltLoop program).2, records.trail]
    rfl
  rw [trail]
  refine ⟨binds.only, ?_, binds.spells⟩
  rintro ⟨listing, succeeded⟩
  apply binds.each
  rw [Context.compile] at succeeded
  split at succeeded
  · exact ⟨_, _, ‹_›⟩
  · cases succeeded

/-- Whatever programs have been compiled in a context, and whether or not the next one compiles, it
gives back all it took but for the variables of its own scope, and these are new for the names that
want one: for each of them if it compiles, for some of them if it fails. -/
theorem Reached.compilation_restores_context (reached : context.Reached settings) (haltLoop : Bool)
    (program : Program) : context.Restored program (context.compile haltLoop program) := by
  obtain ⟨consistent, flat⟩ := (reached.compile haltLoop program).flat
  have records := compile_records reached.flat.1 haltLoop program
  have binds := reached.compile_binds haltLoop program
  have current (binding : Binding) : binding ∈ (context.compile haltLoop program).context.slots.current ↔
      binding ∈ (context.ledgerAt (context.compile haltLoop program).trail.toList).live := by
    rw [consistent.mem_current, ledgerAt, records.mirrors.live, (compile_eq context haltLoop program).1]
  have outermost (binding : Binding)
      (member : binding ∈ (context.compile haltLoop program).context.slots.current) :
      binding.origin = 0 :=
    flat binding ((consistent.mem_current binding).mp member)
  have kept (binding : Binding) (member : binding ∈ context.slots.current) :
      binding ∈ (context.compile haltLoop program).context.slots.current := by
    have origin := reached.flat.2 binding ((reached.flat.1.mem_current binding).mp member)
    rw [current]
    apply Ledger.mem_live_replay member
    rw [origin]
    exact records.inside 0 (List.mem_singleton_self 0)
  have unique (one other : Binding)
      (oneMember : one ∈ (context.compile haltLoop program).context.slots.current)
      (otherMember : other ∈ (context.compile haltLoop program).context.slots.current)
      (same : one.name = other.name) : one = other :=
    consistent.unique one other ((consistent.mem_current one).mp oneMember)
      ((consistent.mem_current other).mp otherMember) same
      ((outermost one oneMember).trans (outermost other otherMember).symm)
  refine ⟨records.held, fun address => ?_, ?_, outermost, kept, ?_, fun binding member => ?_, ?_⟩
  · rw [Slots.isOccupied_iff, ← consistent.mem_inUse, List.append_nil, List.mem_map]
  · rw [consistent.occupiedCount_eq, List.append_nil, List.length_map]
  · apply List.Nodup.map_on _ (consistent.nodup_current.filter _)
    intro one oneMember other otherMember
    exact unique one other (List.mem_of_mem_filter oneMember) (List.mem_of_mem_filter otherMember)
  · obtain ⟨isCurrent, isNew⟩ := List.mem_filter.mp member
    have isNew : binding ∉ context.slots.current := by simpa using isNew
    obtain older | ⟨_, made⟩ := Ledger.mem_live_of_replay ((current binding).mp isCurrent)
    · exact absurd older isNew
    · rw [outermost binding isCurrent] at made
      obtain ⟨stands, ordinary⟩ := binds.only _ _ made
      refine ⟨stands, ordinary, fun older olderMember same => isNew ?_⟩
      exact unique older binding (kept older olderMember) isCurrent same ▸ olderMember
  · intro listing succeeded name wants
    obtain ⟨binding, isLive, rfl, _⟩ := binds.each ⟨listing, succeeded⟩ name wants.stands wants.ordinary
    refine ⟨binding, List.mem_filter.mpr ⟨(current binding).mpr isLive, ?_⟩, rfl⟩
    simpa using fun older => wants.unbound binding older rfl

/-- A first program fails in a routine after a variable `x` was bound. The second adds `y` and `z`,
which stand outside the blocks, and neither the loop's own variable nor one for the screen. -/
theorem Reached.context_is_restored_after_failure :
    ∃ failing program : Program,
      ((Context.new {}).compile true failing).result.isOk = false ∧
      (Context.new {}).Restored failing ((Context.new {}).compile true failing) ∧
      (((Context.new {}).compile true failing).context.compile true program).result.isOk = true ∧
      ((Context.new {}).compile true failing).context.Restored program
        (((Context.new {}).compile true failing).context.compile true program) ∧
      (((Context.new {}).compile true failing).context.compile true program).context.slots.current.map
        Binding.name = ["x", "y", "z"] := by
  let here : Position := ⟨1, 1⟩
  have fresh : (Context.new {}).Reached {} := .new
  exact ⟨[.assign here [.name here "x"] (.number here 1),
      .routine here "f" [.assign here [.name here "t"] (.unary here .negate (.name here "u"))]],
    [.assign here [.name here "y"] (.binary here .add (.name here "x") (.name here "Screen")),
      .whileLoop here (.name here "z") [.assign here [.name here "w"] (.number here 1)]],
    by decide +kernel, fresh.compilation_restores_context true _, by decide +kernel,
    (fresh.compile true _).compilation_restores_context true _, by decide +kernel⟩

end Context

end Dcpu
