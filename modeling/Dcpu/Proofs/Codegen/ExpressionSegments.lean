import Dcpu.Proofs.Codegen.Bookkeeping
import Dcpu.Proofs.Codegen.ExpressionMeaning
import Dcpu.Proofs.Machine.Loading
import Dcpu.Proofs.Slots.Lexical

/-! # Expression code in a loaded program

Wherever the code of an expression sits in a loaded program, a machine at its first instruction comes to the end
of it. Nothing has changed but register `a` and the words that the code uses for intermediate results, which are
at free addresses of the range of variables. Register `a` has the value of the expression unless that depends on
one of these words.
-/

namespace Dcpu

open Source

/-- The address that a line writes to, whatever the machine is like. -/
def Line.written? : Line → Option Word
  | .instruction (.basic op (.memory address) _) => if op.isConditional then none else some address
  | _ => none

def Listing.written (code : Listing) : List Word :=
  code.filterMap Line.written?

namespace Listing

@[simp] theorem written_append (first second : Listing) :
    written (first ++ second) = written first ++ written second :=
  List.filterMap_append

@[simp] theorem written_store (address : Word) (operand : Operand) (code : Listing) :
    written (.set (.memory address) operand :: code) = address :: written code := rfl

theorem written_cons_of_none {line : Line} (silent : line.written? = none) (code : Listing) :
    written (line :: code) = written code :=
  List.filterMap_cons_none silent

end Listing

section Widening

variable {layout : Layout}

theorem Layout.Spare.widen {used wider : Word → Prop} {slot : Word} (spare : layout.Spare used slot)
    (narrows : wider slot → used slot) : layout.Spare wider slot :=
  ⟨spare.1, fun isUsed => spare.2 (narrows isUsed)⟩

/-- The right sides of a comparison are stored where its stages have their slot for them. -/
theorem StagesCode.mem_written {used : Word → Prop} {done : String} {left right : Word}
    {stages : List (Relation × Expr)} {tags tags' : Nat} {code : Listing}
    (isCode : StagesCode layout used done left right stages tags tags' code) : right ∈ code.written := by
  cases isCode <;> simp

mutual

/-- Which addresses are in use matters to code only as far as it writes to them. -/
theorem ExprCode.widen {used wider : Word → Prop} {want : Want} {expr : Expr} {tags tags' : Nat} {code : Listing}
    (isCode : ExprCode layout used want expr tags tags' code)
    (spares : ∀ address ∈ code.written, wider address → used address) :
    ExprCode layout wider want expr tags tags' code := by
  cases isCode with
  | name found => exact .name found
  | number => exact .number
  | index isIndex spare isBase =>
    simp only [Listing.written_append, Listing.written_store, List.mem_append, List.mem_cons] at spares
    refine .index (isIndex.widen fun address member => spares address (.inl member))
      (spare.widen (spares _ (.inr (.inl rfl)))) (isBase.widen ?_)
    exact fun address member => Or.imp_right (spares address (.inr (.inr (.inl member))))
  | binary found isLeft spare isRight =>
    simp only [Listing.written_append, Listing.written_store, List.mem_append, List.mem_cons] at spares
    refine .binary found (isLeft.widen fun address member => spares address (.inl member))
      (spare.widen (spares _ (.inr (.inl rfl)))) (isRight.widen ?_)
    exact fun address member => Or.imp_right (spares address (.inr (.inr (.inl member))))
  | not isOperand =>
    refine .not (isOperand.widen fun address member => spares address ?_)
    simp [member]
  | logical isOperands =>
    refine .logical (isOperands.widen fun address member => spares address ?_)
    simp [member]
  | comparison single isFirst spareLeft spareRight isStages =>
    simp only [Listing.written_append, Listing.written_store, List.mem_append, List.mem_cons] at spares
    refine .comparison single (isFirst.widen fun address member => spares address (.inl member))
      (spareLeft.widen (spares _ (.inr (.inl rfl))))
      (spareRight.widen (Or.imp_right (spares _ (.inr (.inr isStages.mem_written))))) (isStages.widen ?_)
    exact fun address member => Or.imp_right (Or.imp_right (spares address (.inr (.inr member))))
  | chain several isFirst spareLeft spareRight isStages =>
    simp only [Listing.written_append, Listing.written_store, List.mem_append, List.mem_cons] at spares
    refine .chain several (isFirst.widen fun address member => spares address (.inl member))
      (spareLeft.widen (spares _ (.inr (.inl rfl))))
      (spareRight.widen (Or.imp_right (spares _ (.inr (.inr (.inl isStages.mem_written)))))) (isStages.widen ?_)
    exact fun address member => Or.imp_right (Or.imp_right (spares address (.inr (.inr (.inl member)))))

/-- Code of operands is code beside more addresses in use, if it writes none of those. -/
theorem OperandsCode.widen {used wider : Word → Prop} {op : LogicalOp} {skip : String} {operands : List Expr}
    {tags tags' : Nat} {code : Listing} (isCode : OperandsCode layout used op skip operands tags tags' code)
    (spares : ∀ address ∈ code.written, wider address → used address) :
    OperandsCode layout wider op skip operands tags tags' code := by
  cases isCode with
  | last isOperand => exact .last (isOperand.widen spares)
  | more some isOperand isRest =>
    refine .more some (isOperand.widen fun address member => spares address ?_)
      (isRest.widen fun address member => spares address ?_)
    · simp [member]
    · rw [Listing.written_append, Listing.written_cons_of_none rfl, Listing.written_cons_of_none rfl]
      exact List.mem_append_right _ member

theorem StagesCode.widen {used wider : Word → Prop} {done : String} {left right : Word}
    {stages : List (Relation × Expr)} {tags tags' : Nat} {code : Listing}
    (isCode : StagesCode layout used done left right stages tags tags' code)
    (spares : ∀ address ∈ code.written, wider address → used address) :
    StagesCode layout wider done left right stages tags tags' code := by
  cases isCode with
  | last isOperand =>
    refine .last (isOperand.widen fun address member => spares address ?_)
    simp [member]
  | more some isOperand isRest =>
    refine .more some (isOperand.widen fun address member => spares address ?_)
      (isRest.widen fun address member => spares address ?_)
    · simp [member]
    · rw [Listing.written_append, Listing.written_store, Listing.written_append,
        Listing.written_cons_of_none rfl, Listing.written_cons_of_none rfl, Listing.written_store]
      simp [member]

end

end Widening

section Values

variable {layout : Layout} {view : View} {memory : Memory}

mutual

/-- An expression with code has a value, or a place, where no word is hidden. -/
theorem ExprCode.exists_sought {used : Word → Prop} {want : Want} {expr : Expr} {tags tags' : Nat} {code : Listing}
    (isCode : ExprCode layout used want expr tags tags' code)
    (exposes : layout.Exposes (fun _ => True) view memory) : ∃ word, want.sought view expr = some word := by
  cases isCode with
  | @name _ _ _ name address _ found =>
    cases want with
    | value =>
      have read := exposes.words address (.inl trivial)
      exact ⟨memory.read address, by simp [Want.sought, Expr.valueIn, exposes.address?, found, read]⟩
    | address => exact ⟨address, by simp [Want.sought, Expr.addressIn, exposes.address?, found]⟩
  | number => exact ⟨_, rfl⟩
  | not isOperand =>
    obtain ⟨value, operandMeans⟩ := isOperand.exists_sought exposes
    simp only [Want.sought] at operandMeans
    exact ⟨value ^^^ 1, by simp [Want.sought, Expr.valueIn, operandMeans]⟩
  | @binary _ _ op opcode left right _ _ _ _ _ _ found isLeft _ isRight =>
    obtain ⟨leftValue, leftMeans⟩ := isLeft.exists_sought exposes
    obtain ⟨rightValue, rightMeans⟩ := isRight.exists_sought exposes
    simp only [Want.sought] at leftMeans rightMeans
    have result := (opcode_computes found).2.2 leftValue rightValue
    refine ⟨opcode.compute leftValue rightValue, ?_⟩
    simp [Want.sought, Expr.valueIn, leftMeans, rightMeans, result]
  | index isIndex _ isBase =>
    obtain ⟨offset, indexMeans⟩ := isIndex.exists_sought exposes
    obtain ⟨cell, baseMeans⟩ := isBase.exists_sought exposes
    simp only [Want.sought] at indexMeans baseMeans
    have read := exposes.words (cell + offset) (.inl trivial)
    cases want with
    | value =>
      exact ⟨memory.read (cell + offset), by simp [Want.sought, Expr.valueIn, indexMeans, baseMeans, read]⟩
    | address => exact ⟨cell + offset, by simp [Want.sought, Expr.addressIn, indexMeans, baseMeans]⟩
  | logical isOperands => exact isOperands.exists_logicalIn exposes
  | comparison _ isFirst _ _ isStages | chain _ isFirst _ _ isStages =>
    obtain ⟨left, firstMeans⟩ := isFirst.exists_sought exposes
    obtain ⟨word, stagesMean⟩ := isStages.exists_stagesIn exposes left
    simp only [Want.sought] at firstMeans
    exact ⟨word, by simp [Want.sought, Expr.valueIn, firstMeans, stagesMean]⟩

theorem OperandsCode.exists_logicalIn {used : Word → Prop} {op : LogicalOp} {skip : String} {operands : List Expr}
    {tags tags' : Nat} {code : Listing} (isCode : OperandsCode layout used op skip operands tags tags' code)
    (exposes : layout.Exposes (fun _ => True) view memory) : ∃ word, logicalIn view op operands = some word := by
  cases isCode with
  | last isOperand => exact isOperand.exists_sought exposes
  | @more _ _ _ operand operands _ _ _ _ _ some isOperand isRest =>
    obtain ⟨value, operandMeans⟩ := isOperand.exists_sought exposes
    obtain ⟨word, restMeans⟩ := isRest.exists_logicalIn exposes
    simp only [Want.sought] at operandMeans
    cases operands with
    | nil => exact absurd rfl some
    | cons next operands =>
      by_cases settles : op.settles value = true
      · exact ⟨value, by simp [logicalIn, operandMeans, settles]⟩
      · exact ⟨word, by simp [logicalIn, operandMeans, settles, restMeans]⟩

theorem StagesCode.exists_stagesIn {used : Word → Prop} {done : String} {left right : Word}
    {stages : List (Relation × Expr)} {tags tags' : Nat} {code : Listing}
    (isCode : StagesCode layout used done left right stages tags tags' code)
    (exposes : layout.Exposes (fun _ => True) view memory) (value : Word) :
    ∃ word, stagesIn view value stages = some word := by
  cases isCode with
  | @last _ _ _ _ relation _ _ _ _ isOperand =>
    obtain ⟨operandValue, operandMeans⟩ := isOperand.exists_sought exposes
    simp only [Want.sought] at operandMeans
    by_cases relates : relation.relates value operandValue = true
    · exact ⟨1, by simp [stagesIn, operandMeans, relates]⟩
    · exact ⟨0, by simp [stagesIn, operandMeans, relates]⟩
  | @more _ _ _ _ relation _ _ _ _ _ _ _ _ isOperand isRest =>
    obtain ⟨operandValue, operandMeans⟩ := isOperand.exists_sought exposes
    obtain ⟨word, restMeans⟩ := isRest.exists_stagesIn exposes operandValue
    simp only [Want.sought] at operandMeans
    by_cases relates : relation.relates value operandValue = true
    · exact ⟨word, by simp [stagesIn, operandMeans, relates, restMeans]⟩
    · exact ⟨0, by simp [stagesIn, operandMeans, relates]⟩

end

end Values

/-- Lines in the middle of a listing that is loaded sit in the program behind the instructions before them. -/
theorem Image.holds_of_load {before code behind : Listing} {image : Image}
    (loaded : load (before ++ code ++ behind) = .ok image) : image.Holds before.span code := by
  have holds := (load_eq_ok loaded).2.1.holds
  change image.Holds 0 (before ++ code ++ behind) at holds
  rw [holds_append, holds_append, Nat.zero_add] at holds
  exact holds.1.2

namespace Slots

/-- What is seen from a scope of a memory in which the words at some addresses are hidden. -/
def view (slots : Slots) (scope : ScopeId) (memory : Memory) (hidden : List Word) : View where
  address? := (slots.layout scope).address?
  word? address := if address ∈ hidden then none else some (memory.read address)

variable {slots : Slots} {scope : ScopeId} {memory : Memory} {hidden : List Word}

/-- A view with no address hidden is clearer than one with some hidden. -/
theorem clearer_view : (slots.view scope memory []).Clearer (slots.view scope memory hidden) := by
  refine ⟨rfl, fun address word read => ?_⟩
  simp only [view] at read ⊢
  split at read
  · cases read
  · simpa using read

theorem exposes_view : (slots.layout scope).Exposes (fun _ => True) (slots.view scope memory []) memory :=
  ⟨rfl, fun address _ => by simp [view]⟩

theorem presents_view {used : Word → Prop} (kept : ∀ address, address ∉ hidden → used address) :
    (slots.layout scope).Presents used (slots.view scope memory hidden) memory := by
  refine ⟨rfl, fun address word read => ?_⟩
  simp only [view] at read
  split at read
  case isTrue => cases read
  case isFalse shown => exact ⟨.inl (kept address shown), Option.some.inj read⟩

end Slots

def Slots.isSpare (slots : Slots) (address : Word) : Bool :=
  slots.first ≤ address && address ≤ slots.last && !slots.isOccupied address

theorem Slots.safe_of_isSpare {slots : Slots} {address : Word} (steady : slots.isSpare address = false)
    (scope : ScopeId) : (slots.layout scope).Safe (· ∈ slots.occupied) address := by
  by_cases isUsed : address ∈ slots.occupied
  · exact .inl isUsed
  · refine .inr fun inside => ?_
    have inside : slots.first ≤ address ∧ address ≤ slots.last := inside
    simp [isSpare, isOccupied, isUsed, inside] at steady

/-- What is found out in one view is found out in a clearer one. -/
theorem Want.sought_of_clearer {view other : View} (clearer : view.Clearer other) {want : Want} {expr : Expr}
    {word : Word} (means : want.sought other expr = some word) : want.sought view expr = some word := by
  cases want with
  | value => exact clearer.valueIn expr means
  | address => exact clearer.addressIn expr means

/-- Code that is emitted for a pure expression whose names have their addresses, wherever it sits in a loaded
program of at most 65535 instructions: a machine at its first instruction comes to the end of it. Nothing has
changed but register `a` and words that the code writes to, all of them at free addresses of the range of
variables. The expression has a value, or the address of a place if that is wanted, and it is in register `a`,
provided that the expression has one also where the words that the code writes to are hidden. -/
theorem expression_code_computes {first last screen : Word} {history : List SlotReply} {state after : Emission}
    (reached : Slots.Reached first last screen history state.context.slots) {routines : List String}
    {scope : ScopeId} {want : Want} {expr : Expr} (isPure : expr.isPure = true)
    (known : state.context.slots.Knows scope expr.names)
    (ran : exprCode routines scope want expr state = .ok () after) :
    ∃ code : Listing, after.listing = state.listing ++ code ∧
      ∀ before behind image machine, Image.load (before ++ code ++ behind) = .ok image →
        image.instructions.size ≤ 65535 → machine.halted = false → machine.pc = before.span →
        ∃ count final, image.Runs count machine final ∧
          final = machine.moved ⟨before.span + code.span, final.memory, final.register .a⟩ count ∧
          (∀ address, address ∉ code.written ∨ state.context.slots.isSpare address = false →
            final.memory.read address = machine.memory.read address) ∧
          ∃ word, want.sought (state.context.slots.view scope machine.memory []) expr = some word ∧
            ((want.sought (state.context.slots.view scope machine.memory code.written) expr).isSome →
              final.register .a = word) := by
  obtain ⟨code, isCode, wrote⟩ := exprCode_emits routines scope want expr ran isPure reached.consistent.1 known
  refine ⟨code, wrote.listing, fun before behind image machine loaded small running stands => ?_⟩
  -- what the code does not write to is as good as in use
  let kept (address : Word) : Prop := address ∈ state.context.slots.occupied ∨ address ∉ code.written
  have isCodeToo := isCode.widen fun address member (isKept : kept address) =>
    isKept.resolve_right fun outside => outside member
  have fits : before.span + code.span ≤ 65535 := by
    have size := Image.size_of_load loaded
    simp only [Listing.span_append] at size
    omega
  have presents : (state.context.slots.layout scope).Presents kept
      (state.context.slots.view scope machine.memory code.written) machine.point.memory :=
    Slots.presents_view fun _ => .inr
  obtain ⟨count, target, -, reaches, settles⟩ :=
    isCodeToo.settles (Image.holds_of_load loaded) fits stands presents
  have result : (machine.moved target count).register .a = target.a :=
    congrArg Point.a (machine.point_moved target count)
  refine ⟨count, machine.moved target count, reaches machine running rfl, ?_, fun address unwritten => ?_, ?_⟩
  · rw [result, ← settles.pc]
    rfl
  · refine settles.memory address ?_
    obtain unwritten | steady := unwritten
    · exact .inl (.inr unwritten)
    · exact (Slots.safe_of_isSpare steady scope).imp_left .inl
  · obtain ⟨word, means⟩ := isCode.exists_sought state.context.slots.exposes_view
    refine ⟨word, means, fun seen => ?_⟩
    obtain ⟨value, seen⟩ := Option.isSome_iff_exists.mp seen
    have same := (Want.sought_of_clearer Slots.clearer_view seen).symm.trans means
    rw [result, settles.a value seen]
    exact Option.some.inj same

/-- The comparison `1 < x[1] <= y`. -/
private def betweenOneAndY : Expr :=
  .compare ⟨1, 1⟩ (.number ⟨1, 1⟩ 1)
    [(.less, .index ⟨1, 6⟩ (.name ⟨1, 5⟩ "x") (.number ⟨1, 7⟩ 1)), (.lessEqual, .name ⟨1, 13⟩ "y")]

private def xAndYBound : Slots :=
  (Slots.new 0x2000 0x7000 0x8000).performAll [.resolve "x" 0, .resolve "y" 0]

private def betweenOneAndYCode : Listing :=
  [.set .a (.literal 1), .set (.memory 0x2002) .a,
    -- x[1], compared with the one in 0x2002
    .set .a (.literal 1), .set (.memory 0x2004) .a, .set .a (.address 0x2000), .basic .add .a (.memory 0x2004),
    .set .a .atA, .set (.memory 0x2003) .a] ++ relationCode .less 0x2002 0x2003 ++
    [.basic .ife .a (.literal 0), .jump "compare1done", .set (.memory 0x2002) (.memory 0x2003),
      .set .a (.memory 0x2001), .set (.memory 0x2003) .a] ++ relationCode .lessEqual 0x2002 0x2003 ++
    [.label "compare1done"]

/-- The word behind `x` is that of `y`, which no code overwrites. -/
theorem comparison_with_subscript_computes : ∃ history after image,
    Slots.Reached 0x2000 0x7000 0x8000 history xAndYBound ∧ betweenOneAndY.isPure = true ∧
    xAndYBound.Knows 0 betweenOneAndY.names ∧
    exprCode [] 0 .value betweenOneAndY (.start ⟨xAndYBound, 0⟩) = .ok () after ∧
    after.listing = betweenOneAndYCode ∧
    Image.load ([.set (.memory 0x2001) (.literal 5)] ++ betweenOneAndYCode ++ [.label "end", .jump "end"]) =
      .ok image ∧
    ∃ count final, image.Runs count { Machine.start.write 0x2001 5 with pc := 1 } final ∧
      final.pc = 1 + betweenOneAndYCode.span ∧ final.register .a = 1 := by
  have bound := @Slots.Reached.granted 0x2000 0x7000 0x8000 _ _ _ (.resolve "x" 0) _ .new trivial rfl
  have reached : Slots.Reached 0x2000 0x7000 0x8000 _ xAndYBound :=
    @Slots.Reached.granted _ _ _ _ _ _ (.resolve "y" 0) _ bound trivial rfl
  have known : xAndYBound.Knows 0 betweenOneAndY.names := by
    rw [Slots.Knows]
    decide +kernel
  obtain ⟨after, ran, listing⟩ : ∃ after : Emission,
      exprCode [] 0 .value betweenOneAndY (.start ⟨xAndYBound, 0⟩) = .ok () after ∧
        after.listing = betweenOneAndYCode := by
    have succeeds : (exprCode [] 0 .value betweenOneAndY).run' (.start ⟨xAndYBound, 0⟩) = some () := by
      decide +kernel
    have listed : ((exprCode [] 0 .value betweenOneAndY).after (.start ⟨xAndYBound, 0⟩)).listing =
        betweenOneAndYCode := by decide +kernel
    obtain ⟨after, ran⟩ := Effects.run'_eq_some_iff.mp succeeds
    rw [Gen.after_of_ok ran] at listed
    exact ⟨after, ran, listed⟩
  obtain ⟨code, emitted, computes⟩ := expression_code_computes reached rfl known ran
  have same : code = betweenOneAndYCode := emitted.symm.trans listing
  subst same
  have accepted : (Image.load ([.set (.memory 0x2001) (.literal 5)] ++ betweenOneAndYCode ++
      [.label "end", .jump "end"])).toOption.isSome = true := by decide +kernel
  cases loaded : Image.load ([.set (.memory 0x2001) (.literal 5)] ++ betweenOneAndYCode ++
      [.label "end", .jump "end"]) with
  | error error =>
    rw [loaded] at accepted
    cases accepted
  | ok image =>
    have small : image.instructions.size ≤ 65535 := by
      rw [Image.size_of_load loaded]
      decide +kernel
    obtain ⟨count, final, runs, final_eq, -, word, means, result⟩ :=
      computes _ _ image { Machine.start.write 0x2001 5 with pc := 1 } loaded small rfl rfl
    refine ⟨_, after, image, reached, rfl, known, ran, listing, rfl, count, final, runs, ?_, ?_⟩
    · exact congrArg Machine.pc final_eq
    · have value : Want.value.sought (xAndYBound.view 0 (Machine.start.write 0x2001 5).memory []) betweenOneAndY =
        some 1 := by decide +kernel
      rw [result (by decide +kernel)]
      exact Option.some.inj (means.symm.trans value)

/-- The word before a variable, `x[65535]`. -/
private def wordBefore : Expr :=
  .index ⟨1, 2⟩ (.name ⟨1, 1⟩ "x") (.number ⟨1, 3⟩ 65535)

private def wordBeforeCode : Listing :=
  [.set .a (.literal 65535), .set (.memory 0x2000) .a, .set .a (.address 0x2001), .basic .add .a (.memory 0x2000),
    .set .a .atA]

private def wordBeforeImage : Image where
  instructions := #[.basic .set .a (.literal 65535), .basic .set (.memory 0x2000) .a,
    .basic .set .a (.address 0x2001), .basic .add .a (.memory 0x2000), .basic .set .a .atA]
  labels := []

theorem subscript_reads_own_scratch : ∃ history state after,
    Slots.Reached 0x2000 0x7000 0x8000 history state.context.slots ∧ wordBefore.isPure = true ∧
    state.context.slots.Knows 0 wordBefore.names ∧
    exprCode [] 0 .value wordBefore state = .ok () after ∧
    after.listing = state.listing ++ wordBeforeCode ∧ Image.load wordBeforeCode = .ok wordBeforeImage ∧
    wordBefore.valueIn (state.context.slots.view 0 (Machine.start.write 0x2000 7).memory []) = some 7 ∧
    ∃ final, wordBeforeImage.Runs 5 (Machine.start.write 0x2000 7) final ∧ final.pc = wordBeforeCode.span ∧
      final.register .a = 65535 := by
  have held := @Slots.Reached.granted 0x2000 0x7000 0x8000 _ _ _ .acquire _ .new trivial rfl
  have bound := @Slots.Reached.granted _ _ _ _ _ _ (.resolve "x" 0) _ held trivial rfl
  have reached := @Slots.Reached.granted _ _ _ _ _ _ (.release 0x2000) _ bound (List.mem_singleton.mpr rfl) rfl
  refine ⟨_, .start ⟨_, 0⟩, _, reached, rfl, ?_, rfl, rfl, by decide, ?_, ?_⟩
  · intro name member _
    cases List.mem_singleton.mp member
    rfl
  · decide +kernel
  · refine ⟨_, .next rfl rfl (.next rfl rfl (.next rfl rfl (.next rfl rfl (.next rfl rfl (.done _))))), ?_, ?_⟩
    · rfl
    · decide +kernel

end Dcpu
