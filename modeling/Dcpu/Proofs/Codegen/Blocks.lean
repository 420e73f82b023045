import Dcpu.Proofs.Codegen.Contexts

/-! # Where the code of blocks begins

The statements of a program stand in blocks, one inside the other. Wherever the compilation of a program
comes to the beginning of a block, or of what is left of one, the trail so far is accounted for, and the
trail that the block leaves is a beginning of the trail of the whole compilation.
-/

namespace Dcpu

open Source Effects Gen

/-- The blocks inside a statement, each with the steps that lead from the beginning of the statement to
the block and give its scope. The first part of a loop has no scope of its own, and the step of a loop
stands behind its body. -/
def Source.Stmt.blocks (routines : List String) (scope : ScopeId) :
    Stmt → List (Gen ScopeId × List Stmt)
  | .routine position name body =>
    let toBody : Gen ScopeId := do
      record (.routine name position)
      emit (.label name)
      openScope scope position
    [(toBody, body)]
  | .branch position test body alternative =>
    let toBody : Gen ScopeId := do
      let _ ← branchHead routines scope test
      openScope scope position
    let toAlternative : Gen ScopeId := do
      let tag ← branchHead routines scope test
      inScope scope position fun inner => blockCode routines inner body
      emit (.jump (Tag.ending tag))
      emit (.label (Tag.alternative tag))
      openScope scope position
    [(toBody, body), (toAlternative, alternative)]
  | .whileLoop position test body =>
    let toBody : Gen ScopeId := do
      let _ ← loopHead routines scope test
      openScope scope position
    [(toBody, body)]
  | .forLoop position init test step body =>
    let toBody : Gen ScopeId := do
      stmtCode routines scope init
      let _ ← loopHead routines scope test
      openScope scope position
    [(pure scope, [init]), (toBody, body ++ [step])]
  | .ret .. | .assign .. | .evaluate .. => []

/-- The code of statements in a scope begins in a state, somewhere in the compilation of a program. -/
inductive Begins (context : Context) (program : Program) (routines : List String) :
    ScopeId → List Stmt → Emission → Prop where
  | program {state : Emission} :
      registerRoutines [] (definitionsIn program) (.start context) = .ok routines state →
      Begins context program routines 0 program (state.noted (.registered routines))
  | next {scope : ScopeId} {statement : Stmt} {statements : List Stmt} {state after : Emission} :
      Begins context program routines scope (statement :: statements) state →
      stmtCode routines scope statement state = .ok () after →
      Begins context program routines scope statements after
  | inside {scope inner : ScopeId} {statement : Stmt} {statements block : List Stmt}
      {steps : Gen ScopeId} {state after : Emission} :
      Begins context program routines scope (statement :: statements) state →
      (steps, block) ∈ statement.blocks routines scope → steps state = .ok inner after →
      Begins context program routines inner block after

/-- The trail up to a state is lawful, and its ledger mirrors the allocator of the state. -/
structure Emission.Accounted (context : Context) (scope : ScopeId) (state : Emission) : Prop where
  lawful : (Ledger.start context.slots).Lawful state.trail.toList
  mirrors : (context.ledgerAt state.trail.toList).Mirrors scope state.context.slots

variable {context : Context} {program : Program} {routines : List String} {scope : ScopeId} {α β : Type}

namespace Emission.Accounted

variable {state after : Emission} {events : List Event}

/-- The ledger of a state that is accounted for is sound. -/
theorem sound (accounted : state.Accounted context scope) (start : (Ledger.start context.slots).Sound) :
    (context.ledgerAt state.trail.toList).Sound :=
  start.replay accounted.lawful

theorem of_records (accounted : state.Accounted context scope)
    (records : state.Records (context.ledgerAt state.trail.toList) scope events after) :
    after.Accounted context scope := by
  refine ⟨?_, ?_⟩
  · rw [records.trail]
    exact Ledger.lawful_append.mpr ⟨accounted.lawful, records.lawful⟩
  · rw [records.trail, Context.ledgerAt_append]
    exact records.mirrors

/-- Steps that keep the ledger leave a state that is accounted for. -/
theorem ran {steps : Gen α} {value : α} (accounted : state.Accounted context scope)
    (keeps : Keeps [] scope steps) (succeeds : steps state = .ok value after) :
    after.Accounted context scope := by
  obtain ⟨events, records⟩ := keeps _ state accounted.mirrors (by simp)
  rw [after_of_ok succeeds] at records
  exact accounted.of_records records

/-- A scope that opens is accounted for from its beginning. -/
theorem entering {outer : List ScopeId} (accounted : state.Accounted context scope)
    (isOpen : state.context.slots.around? scope = some outer) :
    (state.entering scope outer).Accounted context state.context.slots.scopes.size := by
  obtain ⟨_, found, path⟩ := accounted.mirrors.path
  cases isOpen.symm.trans found
  refine ⟨?_, ?_⟩
  · rw [Emission.trail_entering]
    refine Ledger.lawful_append.mpr ⟨accounted.lawful, ⟨?_, outer, path⟩, trivial⟩
    exact accounted.mirrors.scopes.symm
  · rw [Emission.trail_entering, Context.ledgerAt_append]
    exact accounted.mirrors.opened isOpen

/-- Steps that keep the ledger add to the trail. -/
theorem trail_grows {steps : Gen α} (accounted : state.Accounted context scope)
    (keeps : Keeps [] scope steps) : state.trail.toList <+: (steps.after state).trail.toList := by
  obtain ⟨events, records⟩ := keeps _ state accounted.mirrors (by simp)
  exact ⟨events, records.trail.symm⟩

/-- A sequence adds to the trail of its first part. -/
theorem trail_bind {first : Gen α} {next : α → Gen β} (accounted : state.Accounted context scope)
    (keepsFirst : Keeps [] scope first) (keepsNext : ∀ value, Keeps [] scope (next value)) :
    (first.after state).trail.toList <+: ((first >>= next).after state).trail.toList := by
  cases ran : first state with
  | ok value middle =>
    rw [after_of_ok ran, after_bind ran]
    exact (accounted.ran keepsFirst ran).trail_grows (keepsNext value)
  | error error middle =>
    have stops : (first >>= next).after state = first.after state := by
      rw [after, after, bind_apply, ran]
    exact stops ▸ List.prefix_refl _

end Emission.Accounted

/-- Steps that give a scope lead to a block in it, on the way through the whole of some steps: the trail
up to the block is accounted for, and the trail that the block leaves is a beginning of the trail that the
whole leaves. -/
def Gen.Passes (context : Context) (scope : ScopeId) (steps : Gen ScopeId) (block : ScopeId → Gen Unit)
    (whole : Gen α) : Prop :=
  ∀ state inner after, state.Accounted context scope → steps state = .ok inner after →
    after.Accounted context inner ∧
      ((block inner).after after).trail.toList <+: (whole.after state).trail.toList

namespace Gen

/-- The closing of a scope adds to the trail, if anything. -/
private theorem trail_closeScope (scope : ScopeId) (position : Position) (state : Emission) :
    state.trail.toList <+: ((closeScope scope position).after state).trail.toList := by
  rw [after, closeScope, bind_apply, onSlots]
  cases Slots.close scope state.context.slots <;> simp

variable {steps : Gen ScopeId} {block : ScopeId → Gen Unit}

theorem passes_pure (block : ScopeId → Gen Unit) : Passes context scope (pure scope) block (block scope) := by
  intro state inner after accounted ran
  cases ran
  exact ⟨accounted, List.prefix_refl _⟩

/-- A scope is closed behind what is done in it. -/
theorem passes_inScope (position : Position) (block : ScopeId → Gen Unit) :
    Passes context scope (openScope scope position) block (inScope scope position block) := by
  intro state inner after accounted ran
  obtain ⟨outer, isOpen, _⟩ := accounted.mirrors.path
  have opens := openScope_eq position isOpen
  cases opens.symm.trans ran
  refine ⟨accounted.entering isOpen, ?_⟩
  rw [inScope, after_bind opens, after_always]
  exact trail_closeScope ..

/-- Steps in front of a block are passed before it begins. -/
theorem passes_bind {first : Gen α} {next : α → Gen ScopeId} {whole : α → Gen β}
    (keeps : Keeps [] scope first) (passes : ∀ value, Passes context scope (next value) block (whole value)) :
    Passes context scope (first >>= next) block (first >>= whole) := by
  intro state inner after accounted ran
  obtain ⟨value, middle, ranFirst, ranNext⟩ := bind_eq_ok_iff.mp ran
  rw [after_bind ranFirst]
  exact passes value middle inner after (accounted.ran keeps ranFirst) ranNext

/-- Steps behind a block do not change how it begins. -/
theorem passes_andThen {whole : Gen α} {next : α → Gen β} (passes : Passes context scope steps block whole)
    (keepsWhole : Keeps [] scope whole) (keepsNext : ∀ value, Keeps [] scope (next value)) :
    Passes context scope steps block (whole >>= next) := by
  intro state inner after accounted ran
  obtain ⟨accountedInner, inWhole⟩ := passes state inner after accounted ran
  exact ⟨accountedInner, inWhole.trans (accounted.trail_bind keepsWhole keepsNext)⟩

end Gen

/-- The code of a block is that of its first statements and then that of the others. -/
theorem blockCode_append (routines : List String) (scope : ScopeId) (statements more : List Stmt) :
    blockCode routines scope (statements ++ more) = (do
      blockCode routines scope statements
      blockCode routines scope more) := by
  induction statements with
  | nil => simp [blockCode]
  | cons statement statements ih => simp [blockCode, ih]

theorem blockCode_singleton (routines : List String) (scope : ScopeId) (statement : Stmt) :
    blockCode routines scope [statement] = stmtCode routines scope statement := by
  simp [blockCode]

/-- The code of a loop passes through the code of its body. -/
private theorem passes_loopCode (position : Position) (test : Expr) {body : ScopeId → Gen Unit}
    (keepsBody : ∀ inner, Keeps [] inner (body inner)) :
    Passes context scope (do let _ ← loopHead routines scope test; openScope scope position) body
      (loopCode routines scope position test body) := by
  apply passes_bind (loopHead_keeps routines test)
  intro tag
  apply passes_andThen (passes_inScope position body) (keeps_inScope keepsBody)
  intro _
  apply keeps_bind (keeps_emit (by simp))
  intro _
  exact keeps_emit (by simp)

private theorem passes_branch {position : Position} {test : Expr} {body alternative : List Stmt}
    {steps : Gen ScopeId} {block : List Stmt}
    (member : (steps, block) ∈ (Stmt.branch position test body alternative).blocks routines scope) :
    Passes context scope steps (fun inner => blockCode routines inner block)
      (stmtCode routines scope (.branch position test body alternative)) := by
  simp only [Stmt.blocks, List.mem_cons, List.not_mem_nil, or_false, Prod.mk.injEq] at member
  simp only [stmtCode]
  have keepsJump (label : String) : Keeps [] scope (emit (.jump label)) := keeps_emit (by simp)
  have keepsLabel (label : String) : Keeps [] scope (emit (.label label)) := keeps_emit (by simp)
  have keepsBlock (statements : List Stmt) :
      Keeps [] scope (inScope scope position fun inner => blockCode routines inner statements) :=
    keeps_inScope fun inner => blockCode_keeps routines [] inner statements
  obtain ⟨rfl, rfl⟩ | ⟨rfl, rfl⟩ := member
  · apply passes_bind (branchHead_keeps routines test)
    intro tag
    apply passes_andThen (passes_inScope position _) (keepsBlock block)
    intro _
    apply keeps_bind (keepsJump _)
    intro _
    apply keeps_bind (keepsLabel _)
    intro _
    apply keeps_bind (keepsBlock alternative)
    intro _
    exact keepsLabel _
  · apply passes_bind (branchHead_keeps routines test)
    intro tag
    apply passes_bind (keepsBlock body)
    intro _
    apply passes_bind (keepsJump _)
    intro _
    apply passes_bind (keepsLabel _)
    intro _
    apply passes_andThen (passes_inScope position _) (keepsBlock block)
    intro _
    exact keepsLabel _

private theorem passes_forLoop {position : Position} {init step : Stmt} {test : Expr} {body : List Stmt}
    {steps : Gen ScopeId} {block : List Stmt}
    (member : (steps, block) ∈ (Stmt.forLoop position init test step body).blocks routines scope) :
    Passes context scope steps (fun inner => blockCode routines inner block)
      (stmtCode routines scope (.forLoop position init test step body)) := by
  simp only [Stmt.blocks, List.mem_cons, List.not_mem_nil, or_false, Prod.mk.injEq] at member
  simp only [stmtCode]
  have keepsBody (inner : ScopeId) : Keeps [] inner (do
      blockCode routines inner body
      stmtCode routines inner step) := by
    rw [← blockCode_singleton, ← blockCode_append]
    exact blockCode_keeps routines [] inner (body ++ [step])
  obtain ⟨rfl, rfl⟩ | ⟨rfl, rfl⟩ := member
  · simp only [blockCode_singleton]
    apply passes_andThen (passes_pure fun inner => stmtCode routines inner init)
      (stmtCode_keeps routines [] scope init)
    intro _
    exact loopCode_keeps routines position test keepsBody
  · apply passes_bind (stmtCode_keeps routines [] scope init)
    intro _
    simp only [blockCode_append, blockCode_singleton]
    exact passes_loopCode position test keepsBody

/-- The code of a statement passes through the code of its blocks. -/
theorem Source.Stmt.passes_blocks {statement : Stmt} {steps : Gen ScopeId} {block : List Stmt}
    (member : (steps, block) ∈ statement.blocks routines scope) :
    Passes context scope steps (fun inner => blockCode routines inner block)
      (stmtCode routines scope statement) := by
  cases statement with
  | routine position name body =>
    simp only [blocks, List.mem_singleton, Prod.mk.injEq] at member
    obtain ⟨rfl, rfl⟩ := member
    simp only [stmtCode]
    apply passes_bind (keeps_record rfl)
    intro _
    apply passes_bind (keeps_emit (by simp))
    intro _
    apply passes_andThen (passes_inScope position _)
      (keeps_inScope fun inner => blockCode_keeps routines [] inner block)
    intro _
    split
    · exact keeps_emit (by simp)
    · exact keeps_pure _
  | branch => exact passes_branch member
  | whileLoop position test body =>
    simp only [blocks, List.mem_singleton, Prod.mk.injEq] at member
    obtain ⟨rfl, rfl⟩ := member
    simp only [stmtCode]
    exact passes_loopCode position test fun inner => blockCode_keeps routines [] inner block
  | forLoop => exact passes_forLoop member
  | ret | assign | evaluate => cases member

/-- Wherever the code of statements begins, the trail is accounted for. -/
theorem Begins.accounted {statements : List Stmt} {state : Emission}
    (consistent : context.slots.Consistent [])
    (begins : Begins context program routines scope statements state) : state.Accounted context scope := by
  induction begins with
  | @program state registers =>
    have start : (Emission.start context).Accounted context 0 :=
      ⟨trivial, Ledger.mirrors_start consistent⟩
    have registered := start.ran (registerRoutines_keeps [] (definitionsIn program) [] 0) registers
    exact registered.ran (keeps_record rfl) (record_apply (.registered routines) state)
  | next _ ran ih => exact ih.ran (stmtCode_keeps routines [] _ _) ran
  | inside _ member ran ih => exact (Stmt.passes_blocks member _ _ _ ih ran).1

/-- The trail that a statement leaves is a beginning of the trail of its block. -/
theorem Emission.Accounted.trail_statement {statement : Stmt} {statements : List Stmt} {state : Emission}
    (accounted : state.Accounted context scope) :
    ((stmtCode routines scope statement).after state).trail.toList <+:
      ((blockCode routines scope (statement :: statements)).after state).trail.toList := by
  rw [blockCode]
  apply accounted.trail_bind (stmtCode_keeps routines [] scope statement)
  intro _
  exact blockCode_keeps routines [] scope statements

/-- The trail that statements leave is a beginning of the trail of the compilation they stand in. -/
theorem Begins.within {statements : List Stmt} {state : Emission}
    (consistent : context.slots.Consistent [])
    (begins : Begins context program routines scope statements state) (haltLoop : Bool) :
    ((blockCode routines scope statements).after state).trail.toList <+:
      (context.compile haltLoop program).trail.toList := by
  induction begins with
  | @program state registers =>
    have accounted := (Begins.program registers).accounted consistent
    rw [(Context.compile_eq context haltLoop program).2, programCode, after_bind registers,
      after_bind (record_apply (.registered routines) state)]
    apply accounted.trail_bind (blockCode_keeps routines [] 0 program)
    intro _
    exact haltCode_keeps _
  | next _ ran ih =>
    rw [blockCode, after_bind ran] at ih
    exact ih
  | inside begins member ran ih =>
    have accounted := begins.accounted consistent
    have inStatement := (Stmt.passes_blocks member _ _ _ accounted ran).2
    exact inStatement.trans (accounted.trail_statement.trans ih)

/-- What has happened when a block begins is a beginning of what happens in the whole compilation. -/
theorem Begins.trail_within {statements : List Stmt} {state : Emission}
    (consistent : context.slots.Consistent [])
    (begins : Begins context program routines scope statements state) (haltLoop : Bool) :
    state.trail.toList <+: (context.compile haltLoop program).trail.toList := by
  have accounted := begins.accounted consistent
  exact (accounted.trail_grows (blockCode_keeps routines [] scope statements)).trans
    (begins.within consistent haltLoop)

/-- Whether steps succeed in a state. -/
def Gen.succeeds {α : Type} (steps : Gen α) (state : Emission) : Bool :=
  match steps state with
  | .ok .. => true
  | .error .. => false

theorem Gen.ran_of_succeeds {steps : Gen Unit} {state : Emission} (succeeds : steps.succeeds state = true) :
    steps state = .ok () (steps.after state) := by
  rw [Gen.succeeds] at succeeds
  split at succeeds
  · rename_i ran
    rw [ran, after_of_ok ran]
  · cases succeeds

end Dcpu
