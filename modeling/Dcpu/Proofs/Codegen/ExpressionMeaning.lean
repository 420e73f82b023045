import Dcpu.Proofs.Codegen.ExpressionCode
import Dcpu.Proofs.Machine.Instructions
import Dcpu.Proofs.Machine.Segments
import Dcpu.Proofs.Source.Meaning

/-! # Expression code computes expressions

Run from its first instruction, the code of an expression ends behind its last one with the value of
the expression in register `a`, or with the address of its place. On the way it writes only to free
addresses of the range, so that everything in use stays as it was.
-/

namespace Dcpu

open Source

namespace Image

@[simp] theorem holds_nil (image : Image) (start : Nat) : image.Holds start [] := trivial

@[simp] theorem holds_label (image : Image) (start : Nat) (name : String) (code : Listing) :
    image.Holds start (.label name :: code) ↔
      image.labelIndex? name = some start ∧ image.Holds start code := Iff.rfl

@[simp] theorem holds_basic (image : Image) (start : Nat) (op : Opcode) (b a : Operand) (code : Listing) :
    image.Holds start (.basic op b a :: code) ↔
      image.instructions[start]? = some (.basic op b a) ∧ image.Holds (start + 1) code := Iff.rfl

@[simp] theorem holds_set (image : Image) (start : Nat) (b a : Operand) (code : Listing) :
    image.Holds start (.set b a :: code) ↔
      image.instructions[start]? = some (.basic .set b a) ∧ image.Holds (start + 1) code := Iff.rfl

@[simp] theorem holds_jump (image : Image) (start : Nat) (name : String) (code : Listing) :
    image.Holds start (.jump name :: code) ↔
      image.instructions[start]? = some (.basic .set (.register .pc) (.label name)) ∧
        image.Holds (start + 1) code := Iff.rfl

namespace Leads

variable {image : Image} {least : Nat} {point : Point} {holds : Point → Prop} {word : Word}

/-- Register `a` is loaded. -/
theorem load {operand : Operand}
    (fetched : image.instructions[point.pc]? = some (.basic .set .a operand))
    (reads : point.read? operand = some word)
    (rest : image.Leads least ⟨point.pc + 1, point.memory, word⟩ holds) :
    image.Leads least point holds :=
  .step (reaches_set fetched reads rfl) rest

/-- A word is put at an address. -/
theorem store {operand : Operand} {address : Word}
    (fetched : image.instructions[point.pc]? = some (.basic .set (.memory address) operand))
    (reads : point.read? operand = some word)
    (rest : image.Leads least ⟨point.pc + 1, point.memory.write address word, point.a⟩ holds) :
    image.Leads least point holds :=
  .step (reaches_set fetched reads rfl) rest

/-- A word is put where register `a` points. -/
theorem storeAt {operand : Operand}
    (fetched : image.instructions[point.pc]? = some (.basic .set .atA operand))
    (reads : point.read? operand = some word)
    (rest : image.Leads least ⟨point.pc + 1, point.memory.write point.a word, point.a⟩ holds) :
    image.Leads least point holds :=
  .step (reaches_set fetched reads rfl) rest

/-- Register `a` is computed with. -/
theorem compute {op : Opcode} {operand : Operand}
    (fetched : image.instructions[point.pc]? = some (.basic op .a operand))
    (computes : op.isConditional = false) (notCopy : op ≠ .set)
    (reads : point.read? operand = some word)
    (rest : image.Leads least ⟨point.pc + 1, point.memory, op.compute point.a word⟩ holds) :
    image.Leads least point holds :=
  .step (reaches_compute fetched computes notCopy reads rfl rfl) rest

/-- A word at an address is computed with. -/
theorem computeAt {op : Opcode} {operand : Operand} {address : Word}
    (fetched : image.instructions[point.pc]? = some (.basic op (.memory address) operand))
    (computes : op.isConditional = false) (notCopy : op ≠ .set)
    (reads : point.read? operand = some word)
    (rest : image.Leads least ⟨point.pc + 1,
      point.memory.write address (op.compute (point.memory.read address) word), point.a⟩ holds) :
    image.Leads least point holds :=
  .step (reaches_compute fetched computes notCopy reads rfl rfl) rest

/-- A jump. -/
theorem jump {name : String} {index : Nat}
    (fetched : image.instructions[point.pc]? = some (.basic .set (.register .pc) (.label name)))
    (defined : image.labelIndex? name = some index) (small : index ≤ 65535) (elsewhere : index ≠ point.pc)
    (rest : image.Leads least (point.goto index) holds) : image.Leads least point holds :=
  .step (reaches_jump fetched defined (by omega) elsewhere) rest

/-- A test, which skips the instruction behind it when it fails. -/
theorem test {op : Opcode} {b a : Operand} {other : Word} {next : Instruction}
    (fetched : image.instructions[point.pc]? = some (.basic op b a))
    (tests : op.isConditional = true) (readsSource : point.read? a = some word)
    (readsDestination : point.read? b = some other)
    (follows : image.instructions[point.pc + 1]? = some next) (single : next.isConditional = false)
    (passes : op.passes other word = true → image.Leads least (point.goto (point.pc + 1)) holds)
    (fails : op.passes other word = false → image.Leads least (point.goto (point.pc + 2)) holds) :
    image.Leads least point holds := by
  cases outcome : op.passes other word with
  | true =>
    have reaches := reaches_of_passes fetched tests readsSource readsDestination outcome
    exact .step reaches (passes outcome)
  | false =>
    have reaches := reaches_of_fails fetched tests readsSource readsDestination outcome follows single
    exact .step reaches (fails outcome)

end Leads

end Image

namespace Layout

/-- An address that code leaves alone: one in use, or one outside the range of variables. -/
def Safe (layout : Layout) (used : Word → Prop) (address : Word) : Prop :=
  used address ∨ ¬ layout.InRange address

def locate? (layout : Layout) : Place → Option Word
  | .named name => if Slots.isScreen name then none else layout.home? name
  | .cell address => some address

/-- A memory holds what an expression sees, at addresses that code leaves alone. -/
structure Shows (layout : Layout) (used : Word → Prop) (sight : Sight) (memory : Memory) : Prop where
  screen : sight.screen = layout.screen
  named : ∀ name address, Slots.isScreen name = false → layout.home? name = some address →
    used address ∧ memory.read address = sight.store name
  words : ∀ address word, sight.word? address = some word →
    layout.Safe used address ∧ memory.read address = word

namespace Shows

variable {layout : Layout} {used : Word → Prop} {sight : Sight} {memory : Memory}

theorem taking (shows : layout.Shows used sight memory) (slot : Word) :
    layout.Shows (Taking slot used) sight memory := by
  refine ⟨shows.screen, ?_, ?_⟩
  · intro name address plain located
    obtain ⟨isUsed, word⟩ := shows.named name address plain located
    exact ⟨.inr isUsed, word⟩
  · intro address word visible
    obtain ⟨safe, found⟩ := shows.words address word visible
    exact ⟨safe.imp_left .inr, found⟩

/-- A name of which a sight shows the place stands at its address. -/
theorem locate_placeOf (shows : layout.Shows used sight memory) (name : String) :
    layout.locate? (sight.placeOf name) = layout.address? name := by
  by_cases screen : Slots.isScreen name = true
  · simp [Sight.placeOf, screen, locate?, address?, shows.screen]
  · simp [Sight.placeOf, screen, locate?, address?]

/-- The word at a place is in memory at its address, which code leaves alone. -/
theorem read_of_fetch (shows : layout.Shows used sight memory) {place : Place} {address word : Word}
    (located : layout.locate? place = some address) (fetched : sight.fetch place = some word) :
    layout.Safe used address ∧ memory.read address = word := by
  cases place with
  | named name =>
    simp only [locate?] at located
    split at located
    · cases located
    · rename_i plain
      obtain ⟨isUsed, stored⟩ := shows.named name address (Bool.eq_false_iff.mpr plain) located
      exact ⟨.inl isUsed, stored.trans (Option.some.inj fetched)⟩
  | cell cell =>
    cases located
    exact shows.words _ word fetched

end Shows

/-- A spare slot is not left alone. -/
theorem Spare.ne_safe {layout : Layout} {used : Word → Prop} {slot address : Word}
    (spare : layout.Spare used slot) (safe : layout.Safe used address) : slot ≠ address := by
  rintro rfl
  rcases safe with isUsed | outside
  · exact spare.2 isUsed
  · exact outside spare.1

end Layout

/-- What an expression is asked for: its value, or the address of its place. -/
def Want.asked (layout : Layout) (sight : Sight) : Want → Expr → Option Word
  | value, expr => expr.value sight
  | address, expr => (expr.place sight).bind layout.locate?

/-- A point is at an instruction with a word in register `a`, and everything that code leaves alone
is as it was. -/
structure Layout.Leaves (layout : Layout) (used : Word → Prop) (before : Point) (pc : Nat) (word : Word)
    (after : Point) : Prop where
  pc : after.pc = pc
  a : after.a = word
  memory : ∀ address, layout.Safe used address →
    after.memory.read address = before.memory.read address

/-- A memory holds what a view shows, at addresses that code leaves alone. -/
structure Layout.Presents (layout : Layout) (used : Word → Prop) (view : View) (memory : Memory) : Prop where
  address? : view.address? = layout.address?
  words : ∀ address word, view.word? address = some word →
    layout.Safe used address ∧ memory.read address = word

namespace Layout.Presents

variable {layout : Layout} {used : Word → Prop} {view : View} {memory other : Memory}

theorem frame (presents : layout.Presents used view memory)
    (same : ∀ address, layout.Safe used address → other.read address = memory.read address) :
    layout.Presents used view other := by
  refine ⟨presents.address?, fun address word visible => ?_⟩
  obtain ⟨safe, found⟩ := presents.words address word visible
  exact ⟨safe, (same address safe).trans found⟩

theorem taking (presents : layout.Presents used view memory) (slot : Word) :
    layout.Presents (Taking slot used) view memory := by
  refine ⟨presents.address?, fun address word visible => ?_⟩
  obtain ⟨safe, found⟩ := presents.words address word visible
  exact ⟨safe.imp_left .inr, found⟩

end Layout.Presents

/-- What is sought of an expression on a view: its value, or the address of its place. -/
def Want.sought (view : View) : Want → Expr → Option Word
  | value, expr => expr.valueIn view
  | address, expr => expr.addressIn view

/-- A point is at an instruction and everything that code leaves alone is as it was. The word that was sought is in
register `a`, if there is one. -/
structure Layout.Settles (layout : Layout) (used : Word → Prop) (before : Point) (pc : Nat)
    (sought : Option Word) (after : Point) : Prop where
  pc : after.pc = pc
  a : ∀ word, sought = some word → after.a = word
  memory : ∀ address, layout.Safe used address →
    after.memory.read address = before.memory.read address

variable {layout : Layout} {used : Word → Prop} {image : Image} {view : View} {point : Point}

theorem Layout.Leaves.settles {pc : Nat} {word : Word} {after : Point}
    (leaves : layout.Leaves used point pc word after) : layout.Settles used point pc (some word) after :=
  ⟨leaves.pc, fun _ same => leaves.a.trans (Option.some.inj same), leaves.memory⟩

/-- What code leaves alone is left alone by the code behind it too. -/
theorem Layout.Settles.behind {middle after : Point} {pc : Nat} {sought wanted : Option Word}
    (settles : layout.Settles used middle pc sought after)
    (frame : ∀ address, layout.Safe used address → middle.memory.read address = point.memory.read address)
    (same : ∀ word, wanted = some word → sought = some word) : layout.Settles used point pc wanted after :=
  ⟨settles.pc, fun word means => settles.a word (same word means),
    fun address safe => (settles.memory address safe).trans (frame address safe)⟩

/-- Wherever it stands, code comes to its end with the word that is sought in register `a`, if the view shows all
words that it takes. -/
def Layout.Answers (layout : Layout) (used : Word → Prop) (view : View) (image : Image) (code : Listing)
    (sought : Option Word) : Prop :=
  ∀ ⦃start : Nat⦄ ⦃point : Point⦄, image.Holds start code → start + code.span ≤ 65535 → point.pc = start →
    layout.Presents used view point.memory →
      image.Leads 0 point (layout.Settles used point (start + code.span) sought)

/-- Register `a` is kept in a spare slot before other code runs. -/
theorem Image.Leads.keep {least more pc : Nat} {sought : Option Word} {slot : Word} {holds : Point → Prop}
    (computed : image.Leads least point (layout.Settles used point pc sought))
    (spare : layout.Spare used slot)
    (fetched : image.instructions[pc]? = some (.basic .set (.memory slot) .a))
    (rest : ∀ kept : Point, kept.pc = pc + 1 →
      (∀ word, sought = some word → kept.memory.read slot = word) →
      (∀ address, layout.Safe used address →
        kept.memory.read address = point.memory.read address) → image.Leads more kept holds) :
    image.Leads more point holds := by
  refine computed.andThen fun after settles => ?_
  have here : image.instructions[after.pc]? = some (.basic .set (.memory slot) .a) := settles.pc ▸ fetched
  refine .store here rfl (rest _ (congrArg (· + 1) settles.pc) ?_ ?_)
  · intro word means
    simp [settles.a word means]
  · intro address safe
    simp [spare.ne_safe safe, settles.memory address safe]

/-- Tests that set register `a` to one when they pass. -/
private theorem tests_lead {left right : Word} {tests : List Opcode}
    (conditional : ∀ test ∈ tests, test.isConditional = true) {start : Nat}
    (holds : image.Holds start (tests.flatMap fun test =>
      [.basic test (.memory left) (.memory right), .set .a (.literal 1)]))
    (stands : point.pc = start) : image.Leads 0 point (· = ⟨start + 2 * tests.length, point.memory,
      if tests.any (·.passes (point.memory.read left) (point.memory.read right)) then 1 else point.a⟩) := by
  induction tests generalizing start point with
  | nil =>
    refine .here image ?_
    subst stands
    simp
  | cons test tests ih =>
    subst stands
    simp only [List.flatMap_cons, List.cons_append, List.nil_append, Image.holds_basic,
      Image.holds_set] at holds
    obtain ⟨tested, set, rest⟩ := holds
    have conditionalRest : ∀ other ∈ tests, other.isConditional = true := fun other member =>
      conditional other (List.mem_cons_of_mem _ member)
    have length : point.pc + 1 + 1 + 2 * tests.length = point.pc + 2 * (test :: tests).length := by
      simp only [List.length_cons]
      omega
    refine .test tested (conditional test (List.mem_cons_self ..)) rfl rfl set rfl ?_ ?_
    · intro passes
      refine .load set rfl ((ih conditionalRest rest rfl).weaken (Nat.le_refl _) ?_)
      rintro after rfl
      simp [passes, length]
    · intro fails
      refine (ih conditionalRest rest rfl).weaken (Nat.le_refl _) ?_
      rintro after rfl
      simp [fails, length]

/-- A relation holds exactly when one of its tests passes. -/
private theorem relates_eq_any (relation : Relation) (left right : Word) :
    relation.relates left right = relation.tests.any (·.passes left right) := by
  cases relation with
  | lessEqual =>
    simp only [Relation.relates, Relation.tests, List.any_cons, List.any_nil, Opcode.passes]
    simp [UInt16.le_iff_lt_or_eq, beq_eq_decide]
  | greaterEqual =>
    simp only [Relation.relates, Relation.tests, List.any_cons, List.any_nil, Opcode.passes]
    simp [UInt16.le_iff_lt_or_eq, beq_eq_decide, eq_comm]
  | _ => simp [Relation.relates, Relation.tests, Opcode.passes, bne, beq_eq_decide]

/-- The code of a relation sets register `a` to one if the relation holds, and else to zero. -/
private theorem relationCode_leads {relation : Relation} {left right : Word} {start : Nat}
    (holds : image.Holds start (relationCode relation left right)) (stands : point.pc = start) :
    image.Leads 0 point (· = ⟨start + Listing.span (relationCode relation left right), point.memory,
      if relation.relates (point.memory.read left) (point.memory.read right) then 1 else 0⟩) := by
  subst stands
  rw [relationCode, Image.holds_set] at holds
  obtain ⟨cleared, tests⟩ := holds
  have conditional : ∀ test ∈ relation.tests, test.isConditional = true := by
    cases relation <;> decide
  have span : point.pc + 1 + 2 * relation.tests.length =
      point.pc + Listing.span (relationCode relation left right) := by
    cases relation <;> rfl
  refine .load cleared rfl ((tests_lead conditional tests rfl).weaken (Nat.le_refl _) ?_)
  rintro after rfl
  simp [span, relates_eq_any]

/-- The instruction of an operator computes its result. -/
theorem opcode_computes {op : BinaryOp} {opcode : Opcode} (found : opcode? op = some opcode) :
    opcode.isConditional = false ∧ opcode ≠ .set ∧
      ∀ left right, op.result left right = some (opcode.compute left right) := by
  cases op with
  | power => cases found
  | div =>
    cases found
    refine ⟨rfl, by decide, fun left right => ?_⟩
    simp only [BinaryOp.result, Opcode.compute, Option.some.injEq]
    split
    · rename_i zero
      rw [zero, UInt16.div_zero]
    · rfl
  | _ =>
    cases found
    exact ⟨rfl, by decide, fun _ _ => rfl⟩

/-- What is sought of a comparison is sought of its stages behind the value of its first side. -/
private theorem stagesIn_of_compare {position : Position} {first : Expr} {stages : List (Relation × Expr)}
    {word left : Word} (means : Want.value.sought view (.compare position first stages) = some word)
    (computed : ∀ value, first.valueIn view = some value → left = value) :
    stagesIn view left stages = some word := by
  simp only [Want.sought, Expr.valueIn, Option.bind_eq_bind, Option.bind_eq_some_iff] at means
  obtain ⟨value, firstMeans, stagesMean⟩ := means
  rw [computed value firstMeans]
  exact stagesMean

/-- What is sought of a connective with more than one operand, once the first has a value. -/
private theorem logicalIn_more {op : LogicalOp} {operand : Expr} {operands : List Expr} {word : Word}
    (some : operands ≠ []) (means : logicalIn view op (operand :: operands) = Option.some word) :
    ∃ value, operand.valueIn view = Option.some value ∧
      (if value = op.settling then value = word else logicalIn view op operands = Option.some word) := by
  have settles (value : Word) : op.settles value = true ↔ value = op.settling := by
    cases op <;> simp [LogicalOp.settles, LogicalOp.settling]
  cases operands with
  | nil => exact absurd rfl some
  | cons next operands =>
    simp only [logicalIn, Option.bind_eq_bind, Option.bind_eq_some_iff, settles] at means
    obtain ⟨value, operandMeans, rest⟩ := means
    refine ⟨value, operandMeans, ?_⟩
    split at rest
    case isTrue settled => simpa only [settled, ↓reduceIte] using Option.some.inj rest
    case isFalse unsettled => simpa only [unsettled, ↓reduceIte] using rest

/-- What is sought of the stages of a comparison, once the first of them has a right side. -/
private theorem stagesIn_more {relation : Relation} {operand : Expr} {stages : List (Relation × Expr)}
    {left right word : Word} (computed : ∀ value, operand.valueIn view = some value → right = value)
    (means : stagesIn view left ((relation, operand) :: stages) = some word) :
    (if relation.relates left right then stagesIn view right stages else some 0) = some word := by
  simp only [stagesIn, Option.bind_eq_bind, Option.bind_eq_some_iff] at means
  obtain ⟨value, operandMeans, result⟩ := means
  rw [computed value operandMeans]
  exact result

/-- One stage of a comparison, from the code of its right side on. -/
private theorem stage_leads {used : Word → Prop} {left right value : Word} {start : Nat} {sought : Option Word}
    {relation : Relation} {point : Point} (spareRight : layout.Spare (Taking left used) right)
    (leftRead : point.memory.read left = value)
    (computed : image.Leads 0 point (layout.Settles (Taking right (Taking left used)) point start sought))
    (kept : image.instructions[start]? = some (.basic .set (.memory right) .a))
    (holds : image.Holds (start + 1) (relationCode relation left right)) :
    image.Leads 0 point fun after => ∃ operandValue,
      (∀ word, sought = some word → operandValue = word) ∧
      layout.Leaves used point (start + 1 + Listing.span (relationCode relation left right))
        (if relation.relates value operandValue then 1 else 0) after ∧
      after.memory.read left = value ∧ after.memory.read right = operandValue := by
  refine computed.andThen fun after settles => ?_
  have apart : right ≠ left := fun same => spareRight.2 (.inl same)
  have here : image.instructions[after.pc]? = some (.basic .set (.memory right) .a) := settles.pc ▸ kept
  have leftKept : after.memory.read left = value := by
    rw [settles.memory left (.inl (.inr (.inl rfl))), leftRead]
  refine .store here rfl
    ((relationCode_leads holds (congrArg (· + 1) settles.pc)).weaken (Nat.le_refl _) ?_)
  rintro final rfl
  refine ⟨after.a, settles.a, ⟨rfl, ?_, ?_⟩, ?_, ?_⟩
  · simp [apart, leftKept]
  · intro address safe
    have safeInside : layout.Safe (Taking right (Taking left used)) address :=
      safe.imp_left fun isUsed => .inr (.inr isUsed)
    simp [spareRight.ne_safe (safe.imp_left .inr), settles.memory address safeInside]
  · simp [apart, leftKept]
  · simp

/-- Behind a stage that does not hold, a comparison is over. Behind one that holds, its right side becomes the left
one of the stages that follow. -/
private theorem nextStage_leads {used : Word → Prop} {left right value operandValue : Word} {start finish : Nat}
    {relation : Relation} {done : String} {sought rest : Option Word} {point after : Point}
    (spareLeft : layout.Spare used left)
    (leaves : layout.Leaves used point start (if relation.relates value operandValue then 1 else 0) after)
    (rightKept : after.memory.read right = operandValue)
    (tested : image.instructions[start]? = some (.basic .ife .a (.literal 0)))
    (jumped : image.instructions[start + 1]? = some (.basic .set (.register .pc) (.label done)))
    (copied : image.instructions[start + 1 + 1]? = some (.basic .set (.memory left) (.memory right)))
    (ends : image.labelIndex? done = some finish) (near : finish ≤ 65535) (ahead : start + 1 < finish)
    (means : ∀ word, sought = some word →
      (if relation.relates value operandValue then rest else some 0) = some word)
    (restLeads : ∀ moved : Point, moved.pc = start + 1 + 1 + 1 → moved.memory.read left = operandValue →
      (∀ address, layout.Safe used address → moved.memory.read address = point.memory.read address) →
      image.Leads 0 moved (layout.Settles used moved finish rest)) :
    image.Leads 0 after (layout.Settles used point finish sought) := by
  rw [← leaves.pc] at tested jumped copied
  refine .test tested rfl rfl (congrArg some leaves.a) jumped rfl ?_ ?_
  · intro passes
    have fails : relation.relates value operandValue = false := by
      cases relates : relation.relates value operandValue <;> simp_all [Opcode.passes]
    refine .jump jumped ends (by omega) ?_ (.here image ⟨rfl, fun word isSought => ?_, leaves.memory⟩)
    · simp only [leaves.pc, Point.pc_goto]
      omega
    · simpa [leaves.a, fails] using means word isSought
  · intro fails
    have relates : relation.relates value operandValue = true := by
      cases relates : relation.relates value operandValue <;> simp_all [Opcode.passes]
    refine .store copied (congrArg some rightKept) ?_
    have frame : ∀ address, layout.Safe used address →
        (after.memory.write left operandValue).read address = point.memory.read address := by
      intro address safe
      simp [spareLeft.ne_safe safe, leaves.memory address safe]
    refine (restLeads _ (by simp [leaves.pc]) (by simp) frame).weaken (Nat.le_refl _) fun final restSettles =>
      restSettles.behind frame fun word isSought => ?_
    simpa only [relates, ↓reduceIte] using means word isSought

namespace Layout

/-- The line for a variable answers with its value or with its address. -/
theorem answers_name {want : Want} {position : Position} {name : String} {address : Word}
    (found : layout.address? name = some address) :
    layout.Answers used view image [.set .a (want.operand address)] (want.sought view (.name position name)) := by
  intro start point holds _ stands presents
  subst stands
  rw [Image.holds_set] at holds
  rw [← presents.address?] at found
  cases want with
  | value =>
    refine .load holds.1 rfl (.here image ⟨rfl, fun word means => ?_, fun _ _ => rfl⟩)
    have read : view.word? address = some word := by simpa [Want.sought, Expr.valueIn, found] using means
    exact (presents.words address word read).2
  | address =>
    refine .load holds.1 rfl (.here image ⟨rfl, fun word means => ?_, fun _ _ => rfl⟩)
    exact Option.some.inj (found.symm.trans means)

theorem answers_number (value : Word) :
    layout.Answers used view image [.set .a (.literal value)] (some value) := by
  intro start point holds _ stands _
  subst stands
  rw [Image.holds_set] at holds
  exact .load holds.1 rfl (.here image ⟨rfl, fun _ means => Option.some.inj means, fun _ _ => rfl⟩)

namespace Answers

variable {slot : Word}

/-- A negation flips the lowest bit of what its operand answers. -/
theorem not {position : Position} {operand : Expr} {code : Listing}
    (answers : layout.Answers used view image code (operand.valueIn view)) :
    layout.Answers used view image (code ++ [.basic .xor .a (.literal 1)])
      (Want.value.sought view (.unary position .not operand)) := by
  intro start point holds fits stands presents
  rw [Image.holds_append, Image.holds_basic] at holds
  simp only [Listing.span_append, Listing.span_basic, Listing.span_nil] at fits ⊢
  refine (answers holds.1 (by omega) stands presents).andThen fun after settles => ?_
  have here : image.instructions[after.pc]? = some (.basic .xor .a (.literal 1)) := by
    rw [settles.pc]
    exact holds.2.1
  refine .compute here rfl (by decide) rfl (.here image ⟨?_, fun word means => ?_, settles.memory⟩)
  · simp [settles.pc, Nat.add_assoc]
  · obtain ⟨value, computes, xored⟩ : ∃ value, operand.valueIn view = some value ∧ value ^^^ 1 = word := by
      simpa [Want.sought, Expr.valueIn, Option.bind_eq_some_iff] using means
    simp [settles.a value computes, ← xored, Opcode.compute]

/-- The left side of an operator is kept in a slot while the right side is computed. -/
theorem binary {position : Position} {op : BinaryOp} {opcode : Opcode} {left right : Expr}
    {leftCode rightCode : Listing} (found : opcode? op = some opcode)
    (leftAnswers : layout.Answers used view image leftCode (left.valueIn view)) (spare : layout.Spare used slot)
    (rightAnswers : layout.Answers (Taking slot used) view image rightCode (right.valueIn view)) :
    layout.Answers used view image (leftCode ++ .set (.memory slot) .a ::
      (rightCode ++ [.basic opcode (.memory slot) .a, .set .a (.memory slot)]))
        (Want.value.sought view (.binary position op left right)) := by
  intro start point holds fits stands presents
  rw [Image.holds_append, Image.holds_set, Image.holds_append, Image.holds_basic, Image.holds_set] at holds
  obtain ⟨leftHolds, kept, rightHolds, operated, loaded, _⟩ := holds
  simp only [Listing.span_append, Listing.span_set, Listing.span_basic, Listing.span_nil] at fits ⊢
  obtain ⟨computes, notCopy, same⟩ := opcode_computes found
  have leftLeads := leftAnswers leftHolds (by omega) stands presents
  refine leftLeads.keep spare kept fun kept keptPc keptSlot keptMemory => ?_
  have rightLeads := rightAnswers rightHolds (by omega) keptPc ((presents.frame keptMemory).taking slot)
  refine rightLeads.andThen fun after settles => ?_
  have slotKept : after.memory.read slot = kept.memory.read slot := settles.memory slot (.inl (.inl rfl))
  rw [← settles.pc] at operated loaded
  refine .computeAt operated computes notCopy rfl
    (.load loaded rfl (.here image ⟨?_, fun word means => ?_, ?_⟩))
  · simp only [settles.pc]
    omega
  · obtain ⟨leftValue, leftMeans, rightValue, rightMeans, result⟩ :
        ∃ leftValue, left.valueIn view = some leftValue ∧
          ∃ rightValue, right.valueIn view = some rightValue ∧ op.result leftValue rightValue = some word := by
      simpa [Want.sought, Expr.valueIn, Option.bind_eq_some_iff] using means
    rw [same] at result
    simpa [settles.a _ rightMeans, slotKept, keptSlot _ leftMeans] using result
  · intro address safe
    simp [spare.ne_safe safe, settles.memory address (safe.imp_left .inr), keptMemory address safe]

/-- A subscript is kept in a slot and added to the address of its base; then register `a` has the address that is
denoted. -/
private theorem place {position : Position} {base index : Expr} {indexCode baseCode : Listing}
    (indexAnswers : layout.Answers used view image indexCode (index.valueIn view))
    (spare : layout.Spare used slot)
    (baseAnswers : layout.Answers (Taking slot used) view image baseCode (base.addressIn view)) :
    layout.Answers used view image
      (indexCode ++ .set (.memory slot) .a :: (baseCode ++ [.basic .add .a (.memory slot)]))
        ((Expr.index position base index).addressIn view) := by
  intro start point holds fits stands presents
  rw [Image.holds_append, Image.holds_set, Image.holds_append, Image.holds_basic] at holds
  obtain ⟨indexHolds, kept, baseHolds, added, _⟩ := holds
  simp only [Listing.span_append, Listing.span_set, Listing.span_basic, Listing.span_nil] at fits ⊢
  have indexLeads := indexAnswers indexHolds (by omega) stands presents
  refine indexLeads.keep spare kept fun kept keptPc keptSlot keptMemory => ?_
  have baseLeads := baseAnswers baseHolds (by omega) keptPc ((presents.frame keptMemory).taking slot)
  refine baseLeads.andThen fun after settles => ?_
  have slotKept : after.memory.read slot = kept.memory.read slot := settles.memory slot (.inl (.inl rfl))
  rw [← settles.pc] at added
  refine .compute added rfl (by decide) rfl (.here image ⟨?_, fun word means => ?_, ?_⟩)
  · simp only [settles.pc]
    omega
  · obtain ⟨offset, indexMeans, cell, baseMeans, rfl⟩ : ∃ offset, index.valueIn view = some offset ∧
        ∃ cell, base.addressIn view = some cell ∧ cell + offset = word := by
      simpa [Expr.addressIn, Option.bind_eq_some_iff] using means
    simp [settles.a cell baseMeans, slotKept, keptSlot offset indexMeans, Opcode.compute]
  · intro address safe
    rw [settles.memory address (safe.imp_left .inr), keptMemory address safe]

/-- The word at an address is loaded from the address in register `a`. -/
private theorem readBack {code : Listing} {address : Option Word}
    (answers : layout.Answers used view image code address) :
    layout.Answers used view image (code ++ [.set .a .atA]) (address.bind view.word?) := by
  intro start point holds fits stands presents
  rw [Image.holds_append, Image.holds_set] at holds
  simp only [Listing.span_append, Listing.span_set, Listing.span_nil] at fits ⊢
  refine (answers holds.1 (by omega) stands presents).andThen fun after settles => ?_
  have here : image.instructions[after.pc]? = some (.basic .set .a .atA) := settles.pc ▸ holds.2.1
  refine .load here rfl (.here image ⟨?_, fun word means => ?_, settles.memory⟩)
  · simp [settles.pc, Nat.add_assoc]
  · obtain ⟨place, located, read⟩ := Option.bind_eq_some_iff.mp means
    obtain ⟨safe, stored⟩ := presents.words place word read
    rw [← stored, ← settles.memory place safe, ← settles.a place located]

/-- A subscript is answered through a slot that keeps the index while the base is answered. -/
theorem index {want : Want} {position : Position} {base index : Expr} {indexCode baseCode : Listing}
    (indexAnswers : layout.Answers used view image indexCode (index.valueIn view))
    (spare : layout.Spare used slot)
    (baseAnswers : layout.Answers (Taking slot used) view image baseCode (base.addressIn view)) :
    layout.Answers used view image (indexCode ++ .set (.memory slot) .a ::
      (baseCode ++ .basic .add .a (.memory slot) :: want.readBack))
        (want.sought view (.index position base index)) := by
  have placed := @place _ _ _ _ _ position _ _ _ _ indexAnswers spare baseAnswers
  cases want with
  | address => exact placed
  | value =>
    have value : (Expr.index position base index).valueIn view =
        ((Expr.index position base index).addressIn view).bind view.word? := by
      simp [Expr.valueIn, Expr.addressIn, Option.bind_assoc]
    rw [Want.sought, value]
    simpa [Want.readBack] using placed.readBack

/-- The left side of a comparison is kept in a slot before its stages are decided. -/
theorem compare {position : Position} {first : Expr} {stages : List (Relation × Expr)} {left : Word}
    {firstCode code : Listing} (firstAnswers : layout.Answers used view image firstCode (first.valueIn view))
    (spare : layout.Spare used left) {start : Nat} {point : Point}
    (holds : image.Holds start (firstCode ++ .set (.memory left) .a :: code))
    (fits : start + (firstCode ++ .set (.memory left) .a :: code).span ≤ 65535) (stands : point.pc = start)
    (presents : layout.Presents used view point.memory)
    (stagesLead : ∀ kept : Point, image.Holds (start + firstCode.span + 1) code →
      start + firstCode.span + 1 + code.span ≤ 65535 → kept.pc = start + firstCode.span + 1 →
      layout.Presents used view kept.memory →
      image.Leads 0 kept (layout.Settles used kept (start + firstCode.span + 1 + code.span)
        (stagesIn view (kept.memory.read left) stages))) :
    image.Leads 0 point (layout.Settles used point (start + (firstCode ++ .set (.memory left) .a :: code).span)
      (Want.value.sought view (.compare position first stages))) := by
  rw [Image.holds_append, Image.holds_set] at holds
  obtain ⟨firstHolds, kept, stagesHold⟩ := holds
  simp only [Listing.span_append, Listing.span_set] at fits ⊢
  have firstLeads := firstAnswers firstHolds (by omega) stands presents
  refine firstLeads.keep spare kept fun kept keptPc keptLeft keptMemory => ?_
  have finish : start + firstCode.span + 1 + code.span = start + (firstCode.span + (code.span + 1)) := by
    omega
  rw [← finish]
  have lead := stagesLead kept stagesHold (by omega) keptPc (presents.frame keptMemory)
  refine lead.weaken (Nat.le_refl _) fun after settles => ?_
  exact settles.behind keptMemory fun word means => stagesIn_of_compare means keptLeft

end Answers

end Layout

mutual

/-- The code of an expression comes to its end, and what was sought of the expression is computed if the view shows
all words that it takes. -/
theorem ExprCode.settles {used : Word → Prop} {want : Want} {expr : Expr} {tags tags' : Nat}
    {code : Listing} (isCode : ExprCode layout used want expr tags tags' code) :
    layout.Answers used view image code (want.sought view expr) := by
  cases isCode with
  | name found => exact Layout.answers_name found
  | number => exact Layout.answers_number _
  | not isOperand => exact .not isOperand.settles
  | binary found isLeft spare isRight => exact .binary found isLeft.settles spare isRight.settles
  | index isIndex spare isBase => exact .index isIndex.settles spare isBase.settles
  | logical isOperands =>
    intro start point holds fits stands presents
    rw [Image.holds_append, Image.holds_label] at holds
    simp only [Listing.span_append, Listing.span_label, Listing.span_nil, Nat.add_zero] at fits ⊢
    exact isOperands.settles holds.1 fits holds.2.1 stands presents
  | comparison single isFirst spareLeft spareRight isStages =>
    intro start point holds fits stands presents
    refine isFirst.settles.compare spareLeft holds fits stands presents ?_
    intro kept stagesHold stagesFit keptPc keptPresents
    exact isStages.settles rfl stagesHold stagesFit (fun several => absurd single several) spareLeft spareRight
      keptPc keptPresents rfl
  | @chain _ _ first stages left _ _ _ _ code firstCode several isFirst spareLeft spareRight isStages =>
    intro start point holds fits stands presents
    -- the label stands behind all lines of the comparison and is no instruction
    rw [← List.cons_append, ← List.append_assoc] at holds fits ⊢
    rw [Image.holds_append, Image.holds_label] at holds
    rw [Listing.span_append _ [_], Listing.span_label, Listing.span_nil, Nat.add_zero] at fits ⊢
    refine isFirst.settles.compare spareLeft holds.1 fits stands presents ?_
    intro kept stagesHold stagesFit keptPc keptPresents
    refine isStages.settles rfl stagesHold stagesFit (fun _ => ?_) spareLeft spareRight keptPc keptPresents rfl
    rw [holds.2.1, Listing.span_append, Listing.span_set]
    congr 1
    omega

/-- The code of the operands of a connective computes the connective. -/
theorem OperandsCode.settles {used : Word → Prop} {op : LogicalOp} {skip : String} {operands : List Expr}
    {tags tags' : Nat} {code : Listing}
    (isCode : OperandsCode layout used op skip operands tags tags' code) {start : Nat} {point : Point}
    (holds : image.Holds start code) (fits : start + code.span ≤ 65535)
    (skips : image.labelIndex? skip = some (start + code.span)) (stands : point.pc = start)
    (presents : layout.Presents used view point.memory) :
    image.Leads 0 point (layout.Settles used point (start + code.span) (logicalIn view op operands)) := by
  cases isCode with
  | last isOperand => exact isOperand.settles holds fits stands presents
  | @more _ _ _ operand operands _ _ _ operandCode restCode some isOperand isRest =>
    rw [Image.holds_append, Image.holds_basic, Image.holds_jump] at holds
    obtain ⟨operandHolds, tested, jumped, restHolds⟩ := holds
    simp only [Listing.span_append, Listing.span_basic, Listing.span_jump] at fits skips ⊢
    refine (isOperand.settles operandHolds (by omega) stands presents).andThen fun after settles => ?_
    rw [← settles.pc] at tested jumped
    refine .test tested rfl rfl rfl jumped rfl ?_ ?_
    · intro passes
      have settled : after.a = op.settling := by simpa [Opcode.passes] using passes
      refine .jump jumped skips (by omega) ?_ (.here image ⟨rfl, fun word means => ?_, settles.memory⟩)
      · simp only [settles.pc, Point.pc_goto]
        omega
      · obtain ⟨value, operandMeans, result⟩ := logicalIn_more some means
        have same := settles.a value operandMeans
        rw [← same, if_pos settled] at result
        exact result
    · intro fails
      have unsettled : after.a ≠ op.settling := by simpa [Opcode.passes] using fails
      have restLeads := isRest.settles restHolds (by omega) (by rw [skips]; congr 1; omega)
        (show (after.goto (after.pc + 2)).pc = _ by rw [Point.pc_goto, settles.pc])
        (presents.frame settles.memory)
      have finish : start + operandCode.span + 1 + 1 + restCode.span =
          start + (operandCode.span + (restCode.span + 1 + 1)) := by omega
      rw [finish] at restLeads
      refine restLeads.weaken (Nat.le_refl _) fun final restSettles =>
        restSettles.behind settles.memory fun word means => ?_
      obtain ⟨value, operandMeans, result⟩ := logicalIn_more some means
      have same := settles.a value operandMeans
      rw [← same, if_neg unsettled] at result
      exact result

/-- The code of the stages of a comparison computes them, from the left side kept in its slot. -/
theorem StagesCode.settles {used inner : Word → Prop} {done : String} {left right : Word}
    {stages : List (Relation × Expr)} {tags tags' : Nat} {code : Listing}
    (isCode : StagesCode layout inner done left right stages tags tags' code)
    (takes : inner = Taking right (Taking left used)) {start : Nat} {point : Point} {value : Word}
    (holds : image.Holds start code) (fits : start + code.span ≤ 65535)
    (ends : stages.length ≠ 1 → image.labelIndex? done = some (start + code.span))
    (spareLeft : layout.Spare used left) (spareRight : layout.Spare (Taking left used) right)
    (stands : point.pc = start) (presents : layout.Presents used view point.memory)
    (leftRead : point.memory.read left = value) :
    image.Leads 0 point (layout.Settles used point (start + code.span) (stagesIn view value stages)) := by
  subst takes
  cases isCode with
  | @last _ _ _ _ relation operand _ _ operandCode isOperand =>
    rw [Image.holds_append, Image.holds_set] at holds
    obtain ⟨operandHolds, kept, relationHolds⟩ := holds
    simp only [Listing.span_append, Listing.span_set] at fits ⊢
    have operandLeads := isOperand.settles operandHolds (by omega) stands ((presents.taking left).taking right)
    refine (stage_leads spareRight leftRead operandLeads kept relationHolds).weaken
      (Nat.le_refl _) ?_
    rintro after ⟨operandValue, operandMeans, leaves, _, _⟩
    refine ⟨?_, fun word means => ?_, leaves.memory⟩
    · rw [leaves.pc]
      omega
    · rw [leaves.a]
      refine Option.some.inj (Eq.trans ?_ (stagesIn_more operandMeans means))
      split <;> rfl
  | @more _ _ _ _ relation operand stages _ _ _ operandCode restCode some isOperand isRest =>
    rw [Image.holds_append, Image.holds_set, Image.holds_append, Image.holds_basic, Image.holds_jump,
      Image.holds_set] at holds
    obtain ⟨operandHolds, kept, relationHolds, tested, jumped, copied, restHolds⟩ := holds
    simp only [Listing.span_append, Listing.span_set, Listing.span_basic, Listing.span_jump] at fits ends ⊢
    have ends := ends (by simpa using some)
    have operandLeads := isOperand.settles operandHolds (by omega) stands ((presents.taking left).taking right)
    refine (stage_leads spareRight leftRead operandLeads kept relationHolds).andThen ?_
    rintro after ⟨operandValue, operandMeans, leaves, leftKept, rightKept⟩
    refine nextStage_leads spareLeft leaves rightKept tested jumped copied ends (by omega) (by omega)
      (fun word => stagesIn_more operandMeans) ?_
    intro moved next leftRead frame
    have restLeads := isRest.settles rfl restHolds (by omega) (fun _ => by rw [ends]; congr 1; omega)
      spareLeft spareRight next (presents.frame frame) leftRead
    have finish : start + operandCode.span + 1 + Listing.span (relationCode relation left right) + 1 + 1 + 1 +
        restCode.span = start + (operandCode.span + (Listing.span (relationCode relation left right) +
          (restCode.span + 1 + 1 + 1) + 1)) := by omega
    rwa [finish] at restLeads

end

/-- A view shows all words at addresses that code leaves alone. -/
structure Layout.Exposes (layout : Layout) (used : Word → Prop) (view : View) (memory : Memory) : Prop where
  address? : view.address? = layout.address?
  words : ∀ address, layout.Safe used address → view.word? address = some (memory.read address)

section Sights

variable {sight : Sight} {memory : Memory}

/-- A subscript is asked for the word, or the address, that many words behind a word of memory. -/
private theorem asked_index {want : Want} {position : Position} {base index : Expr} {word : Word}
    (asked : want.asked layout sight (.index position base index) = some word) :
    ∃ offset cell, index.value sight = some offset ∧ base.place sight = some (.cell cell) ∧
      match want with
      | .value => sight.word? (cell + offset) = some word
      | .address => cell + offset = word := by
  have placed : ∀ {place : Place} {offset : Word} {shifted : Place}, place.shift offset = some shifted →
      ∃ cell, place = .cell cell ∧ shifted = .cell (cell + offset) := by
    intro place offset shifted moved
    cases place with
    | named name => cases moved
    | cell cell => exact ⟨cell, rfl, (Option.some.inj moved).symm⟩
  cases want with
  | value =>
    simp only [Want.asked, Expr.value, Option.bind_eq_bind, Option.bind_eq_some_iff] at asked
    obtain ⟨offset, indexMeans, place, baseMeans, shifted, moved, fetched⟩ := asked
    obtain ⟨cell, rfl, rfl⟩ := placed moved
    exact ⟨offset, cell, indexMeans, baseMeans, fetched⟩
  | address =>
    simp only [Want.asked, Expr.place, Option.bind_eq_bind, Option.bind_eq_some_iff] at asked
    obtain ⟨shifted, ⟨offset, indexMeans, place, baseMeans, moved⟩, located⟩ := asked
    obtain ⟨cell, rfl, rfl⟩ := placed moved
    exact ⟨offset, cell, indexMeans, baseMeans, Option.some.inj located⟩

mutual

/-- What an expression with code is asked for is what is sought of it where all is shown that code leaves alone. -/
private theorem ExprCode.sought_of_asked {inner : Word → Prop} {want : Want} {expr : Expr} {tags tags' : Nat}
    {code : Listing} (isCode : ExprCode layout inner want expr tags tags' code)
    (shows : layout.Shows used sight memory) (exposes : layout.Exposes used view memory) {word : Word}
    (asked : want.asked layout sight expr = some word) : want.sought view expr = some word := by
  cases isCode with
  | @name _ _ _ name address _ found =>
    have located : layout.locate? (sight.placeOf name) = some address := by
      rw [shows.locate_placeOf, found]
    cases want with
    | value =>
      obtain ⟨safe, read⟩ := shows.read_of_fetch located asked
      simp [Want.sought, Expr.valueIn, exposes.address?, found, exposes.words address safe, read]
    | address =>
      rw [Want.sought, Expr.addressIn, exposes.address?, found, ← located]
      exact asked
  | number => exact asked
  | @not _ _ operand _ _ operandCode isOperand =>
    obtain ⟨value, computes, xored⟩ : ∃ value, operand.value sight = some value ∧ value ^^^ 1 = word := by
      simpa [Want.asked, Expr.value, Option.bind_eq_some_iff] using asked
    have operandMeans : operand.valueIn view = some value :=
      isOperand.sought_of_asked shows exposes computes
    simp [Want.sought, Expr.valueIn, operandMeans, xored]
  | @binary _ _ op opcode left right slot _ _ _ leftCode rightCode found isLeft spare isRight =>
    obtain ⟨leftValue, leftAsked, rightValue, rightAsked, result⟩ :
        ∃ leftValue, left.value sight = some leftValue ∧ ∃ rightValue, right.value sight = some rightValue ∧
          op.result leftValue rightValue = some word := by
      simpa [Want.asked, Expr.value, Option.bind_eq_some_iff] using asked
    have leftMeans : left.valueIn view = some leftValue := isLeft.sought_of_asked shows exposes leftAsked
    have rightMeans : right.valueIn view = some rightValue := isRight.sought_of_asked shows exposes rightAsked
    simp [Want.sought, Expr.valueIn, leftMeans, rightMeans, result]
  | @index _ _ _ base index slot _ _ _ indexCode baseCode isIndex spare isBase =>
    obtain ⟨offset, cell, indexAsked, baseAsked, found⟩ := asked_index asked
    have indexMeans : index.valueIn view = some offset := isIndex.sought_of_asked shows exposes indexAsked
    have baseMeans : base.addressIn view = some cell :=
      isBase.sought_of_asked shows exposes (by simp [Want.asked, baseAsked, Layout.locate?])
    cases want with
    | address => simpa [Want.sought, Expr.addressIn, indexMeans, baseMeans] using found
    | value =>
      obtain ⟨safe, stored⟩ := shows.words _ _ found
      simp [Want.sought, Expr.valueIn, indexMeans, baseMeans, exposes.words _ safe, stored]
  | logical isOperands => exact isOperands.logicalIn_of_value shows exposes asked
  | @comparison _ _ first stages _ _ _ _ _ _ _ _ _ isFirst _ _ isStages =>
    obtain ⟨value, firstAsked, stagesAsked⟩ :
        ∃ value, first.value sight = some value ∧ stagesValue sight value stages = some word := by
      simpa [Want.asked, Expr.value, Option.bind_eq_some_iff] using asked
    have firstMeans : first.valueIn view = some value := isFirst.sought_of_asked shows exposes firstAsked
    simpa [Want.sought, Expr.valueIn, firstMeans] using isStages.stagesIn_of_value shows exposes stagesAsked
  | @chain _ _ first stages _ _ _ _ _ _ _ _ isFirst _ _ isStages =>
    obtain ⟨value, firstAsked, stagesAsked⟩ :
        ∃ value, first.value sight = some value ∧ stagesValue sight value stages = some word := by
      simpa [Want.asked, Expr.value, Option.bind_eq_some_iff] using asked
    have firstMeans : first.valueIn view = some value := isFirst.sought_of_asked shows exposes firstAsked
    simpa [Want.sought, Expr.valueIn, firstMeans] using isStages.stagesIn_of_value shows exposes stagesAsked

/-- The value that operands have in a sight of the memory is the one they have in a view of it. -/
private theorem OperandsCode.logicalIn_of_value {inner : Word → Prop} {op : LogicalOp} {skip : String}
    {operands : List Expr} {tags tags' : Nat} {code : Listing}
    (isCode : OperandsCode layout inner op skip operands tags tags' code)
    (shows : layout.Shows used sight memory) (exposes : layout.Exposes used view memory) {word : Word}
    (asked : logicalValue sight op operands = some word) : logicalIn view op operands = some word := by
  cases isCode with
  | last isOperand => exact isOperand.sought_of_asked shows exposes asked
  | @more _ _ _ operand operands _ _ _ _ _ some isOperand isRest =>
    cases operands with
    | nil => exact absurd rfl some
    | cons next operands =>
      simp only [logicalValue, logicalIn, Option.bind_eq_bind, Option.bind_eq_some_iff] at asked ⊢
      obtain ⟨value, operandAsked, rest⟩ := asked
      refine ⟨value, isOperand.sought_of_asked shows exposes operandAsked, ?_⟩
      cases op with
      | and =>
        by_cases settles : value = 0
        · simpa [LogicalOp.settles, settles] using rest
        · simp only [settles, ↓reduceIte, LogicalOp.settles, decide_false, Bool.false_eq_true] at rest ⊢
          exact isRest.logicalIn_of_value shows exposes rest
      | or =>
        by_cases settles : value = 1
        · simpa [LogicalOp.settles, settles] using rest
        · simp only [settles, ↓reduceIte, LogicalOp.settles, decide_false, Bool.false_eq_true] at rest ⊢
          exact isRest.logicalIn_of_value shows exposes rest

private theorem StagesCode.stagesIn_of_value {inner : Word → Prop} {done : String} {left right value : Word}
    {stages : List (Relation × Expr)} {tags tags' : Nat} {code : Listing}
    (isCode : StagesCode layout inner done left right stages tags tags' code)
    (shows : layout.Shows used sight memory) (exposes : layout.Exposes used view memory) {word : Word}
    (asked : stagesValue sight value stages = some word) : stagesIn view value stages = some word := by
  cases isCode with
  | last isOperand =>
    simp only [stagesValue, stagesIn, Option.bind_eq_bind, Option.bind_eq_some_iff] at asked ⊢
    obtain ⟨operandValue, operandAsked, rest⟩ := asked
    exact ⟨operandValue, isOperand.sought_of_asked shows exposes operandAsked, rest⟩
  | more some isOperand isRest =>
    simp only [stagesValue, stagesIn, Option.bind_eq_bind, Option.bind_eq_some_iff] at asked ⊢
    obtain ⟨operandValue, operandAsked, rest⟩ := asked
    refine ⟨operandValue, isOperand.sought_of_asked shows exposes operandAsked, ?_⟩
    split at rest
    case isTrue relates =>
      rw [if_pos relates]
      exact isRest.stagesIn_of_value shows exposes rest
    case isFalse fails =>
      rw [if_neg fails]
      exact rest

end

/-- The code of an expression computes what the expression is asked for. -/
theorem ExprCode.leads {want : Want} {expr : Expr} {tags tags' : Nat} {code : Listing}
    (isCode : ExprCode layout used want expr tags tags' code) {start : Nat} {word : Word}
    (holds : image.Holds start code) (fits : start + code.span ≤ 65535) (stands : point.pc = start)
    (shows : layout.Shows used sight point.memory) (asked : want.asked layout sight expr = some word) :
    image.Leads 0 point (layout.Leaves used point (start + code.span) word) := by
  classical
  let view : View :=
    ⟨layout.address?, fun address => if layout.Safe used address then some (point.memory.read address) else none⟩
  have presents : layout.Presents used view point.memory := by
    refine ⟨rfl, fun address word visible => ?_⟩
    by_cases safe : layout.Safe used address
    · exact ⟨safe, by simpa [view, safe] using visible⟩
    · simp [view, safe] at visible
  have sought : want.sought view expr = some word :=
    isCode.sought_of_asked shows ⟨rfl, fun address safe => if_pos safe⟩ asked
  refine (isCode.settles holds fits stands presents).weaken (Nat.le_refl _) fun after settles => ?_
  exact ⟨settles.pc, settles.a word sought, settles.memory⟩

end Sights

end Dcpu
