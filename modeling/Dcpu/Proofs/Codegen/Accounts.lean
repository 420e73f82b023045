import Dcpu.Proofs.Codegen.Bookkeeping
import Dcpu.Proofs.Codegen.Plans

/-! # Programs keep their ledgers

Every plan keeps the ledger while its slots are held. So does the code of every expression, statement and program,
whether or not it fails.
-/

namespace Dcpu

open Source Effects Gen

/-- The places of a plain operand are among the slots that are held. -/
theorem Operand.place?_of_isPlain {operand : Operand} {slots : List Word}
    (isPlain : operand.isPlain slots.length = true) :
    ∀ address ∈ (operand.readdressed (Plan.slotAt slots)).place?, address ∈ slots := by
  cases operand with
  | memory number =>
    have below : number.toNat < slots.length := by simpa [Operand.isPlain] using isPlain
    rintro _ ⟨⟩
    simp [Plan.slotAt, below]
  | address => cases isPlain
  | _ =>
    intro address placed
    cases placed

/-- The slots that a plain line names are among those it is for. -/
theorem Line.places_of_isPlain {line : Line} {slots : List Word} (isPlain : line.isPlain slots.length = true) :
    ∀ address ∈ (line.readdressed (Plan.slotAt slots)).places, address ∈ slots := by
  obtain ⟨op, b, a, rfl, plainB, plainA, _⟩ := Line.of_isPlain isPlain
  intro address member
  obtain ⟨operand, isOperand, placed⟩ := List.mem_filterMap.mp member
  have either : operand = b.readdressed (Plan.slotAt slots) ∨ operand = a.readdressed (Plan.slotAt slots) := by
    simpa [Instruction.readdressed, Instruction.operands] using isOperand
  obtain rfl | rfl := either
  · exact b.place?_of_isPlain plainB address placed
  · exact a.place?_of_isPlain plainA address placed

private theorem callCode_keeps {needed : List Word} {scope : ScopeId} (routines : List String)
    (name : String) (position : Position) :
    Keeps needed scope (callCode routines name position) := by
  rw [callCode]
  split
  · exact keeps_emit (by simp)
  · split
    · apply keeps_bind keeps_get
      intro state
      dsimp only
      split
      · apply keeps_bind (keeps_record rfl)
        intro _
        exact keeps_emit (by simp)
      · exact keeps_emit (by simp)
    · exact keeps_throw _

/-- Every plan keeps the ledger while its slots are held. -/
theorem Plan.keeps (routines : List String) {needed slots : List Word} {plan : Plan} (scope : ScopeId)
    (tag : String) (isPlain : plan.isPlain slots.length = true) (areNeeded : slots ⊆ needed) :
    Keeps needed scope (plan.code routines scope slots tag) := by
  induction plan generalizing needed slots scope tag with
  | nothing => exact keeps_pure _
  | noAddress | unsupported => exact keeps_throw _
  | plain line =>
    apply keeps_emit
    intro address member
    exact areNeeded (Line.places_of_isPlain isPlain address member)
  | jump | label | ret => exact keeps_emit (by simp)
  | connective => exact keeps_record rfl
  | entry name position =>
    apply keeps_bind (keeps_record rfl)
    intro _
    exact keeps_emit (by simp)
  | access want name position => exact keeps_access want name position
  | call name position => exact callCode_keeps routines name position
  | both first second firstKeeps secondKeeps =>
    obtain ⟨firstPlain, secondPlain⟩ := Bool.and_eq_true_iff.mp isPlain
    apply keeps_bind (firstKeeps scope tag firstPlain areNeeded)
    intro _
    exact secondKeeps scope tag secondPlain areNeeded
  | keeping position body keeps =>
    apply keeps_withScratch
    intro slot
    exact keeps scope tag isPlain (List.cons_subset_cons slot areNeeded)
  | inside position body keeps =>
    apply keeps_inScope
    intro inner
    exact keeps inner tag isPlain areNeeded
  | tagged stem body keeps =>
    apply keeps_bind (keeps_nextTag stem)
    intro drawn
    exact keeps scope drawn isPlain areNeeded

section Trees

variable (routines : List String) (needed : List Word) (scope : ScopeId)

theorem exprCode_keeps (want : Want) (expr : Expr) : Keeps needed scope (exprCode routines scope want expr) := by
  rw [← expr.code_plan routines scope [] ""]
  exact Plan.keeps routines scope "" (expr.isPlain_plan 0 want) (List.nil_subset _)

theorem stmtCode_keeps (statement : Stmt) : Keeps needed scope (stmtCode routines scope statement) := by
  rw [← statement.code_plan routines scope [] ""]
  exact Plan.keeps routines scope "" (statement.isPlain_plan 0) (List.nil_subset _)

/-- The code of statements keeps the ledger. -/
theorem blockCode_keeps (statements : List Stmt) :
    Keeps needed scope (blockCode routines scope statements) := by
  rw [← code_blockPlan routines scope [] ""]
  exact Plan.keeps routines scope "" (isPlain_blockPlan 0 statements) (List.nil_subset _)

end Trees

section Parts

variable {needed : List Word} {scope : ScopeId}

theorem unlessHolds_keeps (label : String) : Keeps needed scope (emitAll (unlessHolds label)) :=
  keeps_emitAll (by simp [unlessHolds])

theorem branchHead_keeps (routines : List String) (test : Expr) :
    Keeps needed scope (branchHead routines scope test) := by
  apply keeps_bind (keeps_nextTag _)
  intro tag
  apply keeps_bind (exprCode_keeps routines needed scope .value test)
  intro _
  apply keeps_bind (unlessHolds_keeps _)
  intro _
  exact keeps_pure _

theorem loopHead_keeps (routines : List String) (test : Expr) :
    Keeps needed scope (loopHead routines scope test) := by
  apply keeps_bind (keeps_nextTag _)
  intro tag
  apply keeps_bind (keeps_emit (by simp))
  intro _
  apply keeps_bind (exprCode_keeps routines needed scope .value test)
  intro _
  apply keeps_bind (unlessHolds_keeps _)
  intro _
  exact keeps_pure _

/-- The code of a loop keeps the ledger if that of its body does. -/
theorem loopCode_keeps (routines : List String) (position : Position) (test : Expr)
    {body : ScopeId → Gen Unit} (keepsBody : ∀ inner, Keeps needed inner (body inner)) :
    Keeps needed scope (loopCode routines scope position test body) := by
  apply keeps_bind (loopHead_keeps routines test)
  intro tag
  apply keeps_bind (keeps_inScope keepsBody)
  intro _
  apply keeps_bind (keeps_emit (by simp))
  intro _
  exact keeps_emit (by simp)

end Parts

/-- The registration of routines keeps the ledger. -/
theorem registerRoutines_keeps (known : List String) (definitions : List (String × Position))
    (needed : List Word) (scope : ScopeId) : Keeps needed scope (registerRoutines known definitions) := by
  induction definitions generalizing known with
  | nil => exact keeps_pure _
  | cons definition definitions ih =>
    obtain ⟨name, position⟩ := definition
    simp only [registerRoutines]
    have rest : Keeps needed scope (if known.contains name then do
        record (.redefined name position)
        registerRoutines known definitions
      else registerRoutines (known ++ [name]) definitions) := by
      split
      · apply keeps_bind (keeps_record rfl)
        intro _
        exact ih known
      · exact ih (known ++ [name])
    split
    · apply keeps_bind (keeps_throw _)
      intro _
      exact rest
    · exact rest

theorem haltCode_keeps {needed : List Word} {scope : ScopeId} (wanted : Prop) [Decidable wanted] :
    Keeps needed scope (if wanted then do
        record .haltAppended
        emit (.label endLabel)
        emit (.jump endLabel)
      else pure ()) := by
  split
  · apply keeps_bind (keeps_record rfl)
    intro _
    apply keeps_bind (keeps_emit (by simp))
    intro _
    exact keeps_emit (by simp)
  · exact keeps_pure _

/-- The code of a program keeps the ledger. -/
theorem programCode_keeps (haltLoop : Bool) (program : Program) :
    Keeps [] 0 (programCode haltLoop program) := by
  apply keeps_bind (registerRoutines_keeps [] (definitionsIn program) [] 0)
  intro routines
  apply keeps_bind (keeps_record rfl)
  intro _
  apply keeps_bind (blockCode_keeps routines [] 0 program)
  intro _
  exact haltCode_keeps _

end Dcpu
