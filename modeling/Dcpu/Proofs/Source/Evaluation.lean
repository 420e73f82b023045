import Dcpu.Proofs.Source.Meaning
import Dcpu.Proofs.Source.Structured

/-! # The value of an expression in memory

Code knows a variable by its address only, and a subscript counts on from any address, be it that of the screen
or of a variable. Here expressions are evaluated on a view of the memory, which may hide words; then an
expression has no value if its evaluation looks at a hidden one.
-/

namespace Dcpu.Source

/-- What expressions see of a memory: the addresses of names, and the words that are not hidden. -/
structure View where
  address? : String → Option Word
  word? : Word → Option Word

def LogicalOp.settles : LogicalOp → Word → Bool
  | and, value => value = 0
  | or, value => value = 1

mutual

/-- The address of the place that an expression denotes. -/
def Expr.addressIn (view : View) : Expr → Option Word
  | .name _ name => view.address? name
  | .index _ base index => do
    let offset ← index.valueIn view
    return (← base.addressIn view) + offset
  | _ => none

def Expr.valueIn (view : View) : Expr → Option Word
  | .number _ value => some value
  | .name _ name => do
    view.word? (← view.address? name)
  | .index _ base index => do
    let offset ← index.valueIn view
    view.word? ((← base.addressIn view) + offset)
  | .call .. => none
  | .binary _ op left right => do
    op.result (← left.valueIn view) (← right.valueIn view)
  | .unary _ .not operand => do
    return (← operand.valueIn view) ^^^ 1
  | .unary _ .negate _ => none
  | .logical _ op operands => logicalIn view op operands
  | .compare _ first stages => do
    stagesIn view (← first.valueIn view) stages

/-- The value of a connective: that of its first operand that settles it, or of the last one. -/
def logicalIn (view : View) (op : LogicalOp) : List Expr → Option Word
  | [] => none
  | [operand] => operand.valueIn view
  | operand :: operands => do
    let value ← operand.valueIn view
    if op.settles value then return value else logicalIn view op operands

/-- The value of the stages of a comparison behind a left side: zero at the first that fails, or one. -/
def stagesIn (view : View) (left : Word) : List (Relation × Expr) → Option Word
  | [] => some 1
  | (relation, operand) :: stages => do
    let right ← operand.valueIn view
    if relation.relates left right then stagesIn view right stages else return 0

end

/-- A view hides at most what another one hides. -/
structure View.Clearer (view other : View) : Prop where
  address? : view.address? = other.address?
  word? : ∀ address word, other.word? address = some word → view.word? address = some word

section Clearer

variable {view other : View}

mutual

/-- An address that is told in one view is told in a clearer one. -/
theorem View.Clearer.addressIn (clearer : view.Clearer other) (expr : Expr) {word : Word}
    (means : expr.addressIn other = some word) : expr.addressIn view = some word := by
  cases expr with
  | name position name =>
    rw [Expr.addressIn, clearer.address?]
    exact means
  | index position base index =>
    simp only [Expr.addressIn, Option.bind_eq_bind, Option.bind_eq_some_iff] at means ⊢
    obtain ⟨offset, indexMeans, address, baseMeans, sum⟩ := means
    exact ⟨offset, clearer.valueIn index indexMeans, address, clearer.addressIn base baseMeans, sum⟩
  | number | call | binary | unary | logical | compare => cases means

/-- Where less is hidden, an expression that had a value has the same. -/
theorem View.Clearer.valueIn (clearer : view.Clearer other) (expr : Expr) {word : Word}
    (means : expr.valueIn other = some word) : expr.valueIn view = some word := by
  cases expr with
  | number position value => exact means
  | name position name =>
    simp only [Expr.valueIn, clearer.address?, Option.bind_eq_bind, Option.bind_eq_some_iff] at means ⊢
    obtain ⟨address, found, read⟩ := means
    exact ⟨address, found, clearer.word? _ _ read⟩
  | index position base index =>
    simp only [Expr.valueIn, Option.bind_eq_bind, Option.bind_eq_some_iff] at means ⊢
    obtain ⟨offset, indexMeans, address, baseMeans, read⟩ := means
    exact ⟨offset, clearer.valueIn index indexMeans, address, clearer.addressIn base baseMeans,
      clearer.word? _ _ read⟩
  | call => cases means
  | binary position op left right =>
    simp only [Expr.valueIn, Option.bind_eq_bind, Option.bind_eq_some_iff] at means ⊢
    obtain ⟨leftValue, leftMeans, rightValue, rightMeans, result⟩ := means
    exact ⟨leftValue, clearer.valueIn left leftMeans, rightValue, clearer.valueIn right rightMeans, result⟩
  | unary position op operand =>
    cases op with
    | negate => cases means
    | not =>
      simp only [Expr.valueIn, Option.bind_eq_bind, Option.bind_eq_some_iff] at means ⊢
      obtain ⟨value, operandMeans, result⟩ := means
      exact ⟨value, clearer.valueIn operand operandMeans, result⟩
  | logical position op operands => exact clearer.logicalIn op operands means
  | compare position first stages =>
    simp only [Expr.valueIn, Option.bind_eq_bind, Option.bind_eq_some_iff] at means ⊢
    obtain ⟨left, firstMeans, stagesMean⟩ := means
    exact ⟨left, clearer.valueIn first firstMeans, clearer.stagesIn left stages stagesMean⟩

theorem View.Clearer.logicalIn (clearer : view.Clearer other) (op : LogicalOp) (operands : List Expr)
    {word : Word} (means : Source.logicalIn other op operands = some word) :
    Source.logicalIn view op operands = some word := by
  match operands with
  | [] => cases means
  | [operand] => exact clearer.valueIn operand means
  | operand :: next :: operands =>
    simp only [Source.logicalIn, Option.bind_eq_bind, Option.bind_eq_some_iff] at means ⊢
    obtain ⟨value, operandMeans, result⟩ := means
    refine ⟨value, clearer.valueIn operand operandMeans, ?_⟩
    by_cases settles : op.settles value = true
    · simpa only [settles, ↓reduceIte] using result
    · simp only [settles, Bool.false_eq_true, ↓reduceIte] at result ⊢
      exact clearer.logicalIn op (next :: operands) result

theorem View.Clearer.stagesIn (clearer : view.Clearer other) (left : Word) (stages : List (Relation × Expr))
    {word : Word} (means : Source.stagesIn other left stages = some word) :
    Source.stagesIn view left stages = some word := by
  match stages with
  | [] => exact means
  | (relation, operand) :: stages =>
    simp only [Source.stagesIn, Option.bind_eq_bind, Option.bind_eq_some_iff] at means ⊢
    obtain ⟨right, operandMeans, result⟩ := means
    refine ⟨right, clearer.valueIn operand operandMeans, ?_⟩
    by_cases relates : relation.relates left right = true
    · simp only [relates, ↓reduceIte] at result ⊢
      exact clearer.stagesIn right stages result
    · simpa only [relates, Bool.false_eq_true, ↓reduceIte] using result

end

end Clearer

mutual

/-- Whether an expression calls nothing, and no connective or comparison in it lacks operands. -/
def Expr.isPure : Expr → Bool
  | .number .. => true
  | .name .. => true
  | .index _ base index => base.isPure && index.isPure
  | .call .. => false
  | .binary _ _ left right => left.isPure && right.isPure
  | .unary _ _ operand => operand.isPure
  | .logical _ _ operands => !operands.isEmpty && allPure operands
  | .compare _ first stages => !stages.isEmpty && first.isPure && stagesPure stages

def allPure : List Expr → Bool
  | [] => true
  | operand :: operands => operand.isPure && allPure operands

def stagesPure : List (Relation × Expr) → Bool
  | [] => true
  | (_, operand) :: stages => operand.isPure && stagesPure stages

end

mutual

/-- Structured expressions are pure. -/
theorem Expr.isPure_of_isStructured (expr : Expr) (structured : expr.isStructured = true) :
    expr.isPure = true := by
  cases expr with
  | number | name => rfl
  | call => cases structured
  | index position base index =>
    simp only [Expr.isStructured, Expr.isPure, Bool.and_eq_true] at structured ⊢
    exact ⟨base.isPure_of_isStructured structured.1.2, index.isPure_of_isStructured structured.2⟩
  | binary position op left right =>
    simp only [Expr.isStructured, Expr.isPure, Bool.and_eq_true] at structured ⊢
    exact ⟨left.isPure_of_isStructured structured.1.2, right.isPure_of_isStructured structured.2⟩
  | unary position op operand =>
    simp only [Expr.isStructured, Expr.isPure, Bool.and_eq_true] at structured ⊢
    exact operand.isPure_of_isStructured structured.2
  | logical position op operands =>
    simp only [Expr.isStructured, Expr.isPure, Bool.and_eq_true] at structured ⊢
    exact ⟨structured.1, allPure_of_allStructured operands structured.2⟩
  | compare position first stages =>
    simp only [Expr.isStructured, Expr.isPure, Bool.and_eq_true] at structured ⊢
    exact ⟨⟨structured.1.1, first.isPure_of_isStructured structured.1.2⟩,
      stagesPure_of_stagesStructured stages structured.2⟩

theorem allPure_of_allStructured (operands : List Expr) (structured : allStructured operands = true) :
    allPure operands = true := by
  cases operands with
  | nil => rfl
  | cons operand operands =>
    simp only [allStructured, allPure, Bool.and_eq_true] at structured ⊢
    exact ⟨operand.isPure_of_isStructured structured.1, allPure_of_allStructured operands structured.2⟩

theorem stagesPure_of_stagesStructured (stages : List (Relation × Expr))
    (structured : stagesStructured stages = true) : stagesPure stages = true := by
  cases stages with
  | nil => rfl
  | cons stage stages =>
    obtain ⟨relation, operand⟩ := stage
    simp only [stagesStructured, stagesPure, Bool.and_eq_true] at structured ⊢
    exact ⟨operand.isPure_of_isStructured structured.1, stagesPure_of_stagesStructured stages structured.2⟩

end

end Dcpu.Source
