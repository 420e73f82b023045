import Dcpu.Proofs.Machine.Transfers

/-! # Stores through a register

A store writes to the address in register `a`. Where code stores only right behind the instruction that puts the
address there, and nothing leads to the store but that instruction, the address is known from the code. A run that
leaves the stack alone then changes the word at an address only by the instructions that name it.
-/

namespace Dcpu

open Effects

namespace Instruction

/-- Whether an instruction writes to the address in a register. -/
def isStore : Instruction → Bool
  | basic op (.indirect _) _ => !op.isConditional
  | _ => false

/-- Whether an instruction calls a routine or uses the stack otherwise, as a return does. -/
def usesStack : Instruction → Bool
  | jsr _ => true
  | basic _ b a => [b, a].any fun operand => operand == .pop || operand == .push

end Instruction

/-- What stands directly before a place in code: nothing of note, a test that may skip what comes next, or the
computation of an address in register `a`. -/
inductive Phase where
  | idle
  | skipping
  | aimed
deriving DecidableEq, Repr

namespace Phase

/-- Which instructions may stand in a phase, and the phase behind them. A store needs an address, and neither a
call nor a test nor an address is skipped. -/
inductive Goes : Phase → Instruction → Phase → Prop where
  | call {name : String} : Goes .idle (.jsr (.label name)) .idle
  | jump {phase : Phase} {name : String} : Goes phase (.basic .set (.register .pc) (.label name)) .idle
  | ret : Goes .idle (.basic .set (.register .pc) .pop) .idle
  | test {op : Opcode} {b a : Operand} : op.isConditional = true → Goes .idle (.basic op b a) .skipping
  | keep {phase : Phase} {op : Opcode} {slot : Word} {a : Operand} : op.isConditional = false →
      Goes phase (.basic op (.memory slot) a) .idle
  | load {phase : Phase} {op : Opcode} {a : Operand} : op.isConditional = false →
      Goes phase (.basic op (.register .a) a) .idle
  | point {place : Word} : Goes .idle (.basic .set (.register .a) (.address place)) .aimed
  | offset {slot : Word} : Goes .aimed (.basic .add (.register .a) (.memory slot)) .aimed
  | store {slot : Word} : Goes .aimed (.basic .set (.indirect .a) (.memory slot)) .idle

/-- The phase behind a piece of code. A label stands where nothing of note stands before it. -/
inductive Along : Phase → Listing → Phase → Prop where
  | nil {phase : Phase} : Along phase [] phase
  | label {name : String} {code : Listing} {last : Phase} : Along .idle code last →
      Along .idle (.label name :: code) last
  | next {phase middle last : Phase} {body : Instruction} {code : Listing} : phase.Goes body middle →
      Along middle code last → Along phase (.instruction body :: code) last

/-- A run through phases along two pieces of code is one along the first and then one along the second. -/
theorem along_append {phase last : Phase} {first second : Listing} :
    Along phase (first ++ second) last ↔ ∃ middle, Along phase first middle ∧ Along middle second last := by
  induction first generalizing phase with
  | nil =>
    constructor
    · exact fun along => ⟨phase, .nil, along⟩
    · rintro ⟨_, ⟨⟩, along⟩
      exact along
  | cons line first ih =>
    constructor
    · intro along
      cases along with
      | label along =>
        obtain ⟨middle, front, back⟩ := ih.mp along
        exact ⟨middle, .label front, back⟩
      | next goes along =>
        obtain ⟨middle, front, back⟩ := ih.mp along
        exact ⟨middle, .next goes front, back⟩
    · rintro ⟨middle, front, back⟩
      cases front with
      | label front => exact .label (ih.mpr ⟨middle, front, back⟩)
      | next goes front => exact .next goes (ih.mpr ⟨middle, front, back⟩)

/-- Where no address is in register `a`, the next instruction is no store. -/
theorem Along.isStore_head {phase last : Phase} {code : Listing} (along : phase.Along code last)
    (unaimed : phase ≠ .aimed) {body : Instruction} (first : code.instructions.head? = some body) :
    body.isStore = false := by
  induction along with
  | nil => cases first
  | label _ ih => exact ih (by simp) first
  | next goes _ _ =>
    cases first
    cases goes with
    | @test op b a tests => cases b <;> simp [Instruction.isStore, tests]
    | store => exact absurd rfl unaimed
    | _ => rfl

/-- What a test may skip is one instruction, and nothing of note stands before what comes behind it. -/
theorem Along.of_skipping {code : Listing} {last : Phase} (along : skipping.Along code last) :
    code = [] ∨ ∃ body rest, code = .instruction body :: rest ∧ body.isConditional = false ∧
      idle.Along rest last := by
  cases along with
  | nil => exact .inl rfl
  | @next _ _ _ body rest goes along =>
    right
    refine ⟨body, rest, rfl, ?_⟩
    cases goes with
    | jump => exact ⟨rfl, along⟩
    | keep computes => exact ⟨computes, along⟩
    | load computes => exact ⟨computes, along⟩

end Phase

namespace Image

/-- The address that the instruction before another puts into register `a`. -/
def pointed? (image : Image) (index : Nat) : Option Word :=
  match image.instructions[index - 1]? with
  | some (.basic .set (.register .a) (.address place)) => some place
  | _ => none

/-- Whether the next instruction of a machine leaves the stack alone and stores nothing at a place. The address of
a store is the one that the instruction before it names, or else the one in register `a`. -/
def spares (image : Image) (place : Word) (machine : Machine) : Bool :=
  image.instructions[machine.pc]?.any fun body =>
    !body.usesStack && (!body.isStore || (image.pointed? machine.pc).getD (machine.register .a) != place)

/-- Register `a` has the address that the instruction before a store names, if it names one. -/
def Aims (image : Image) (machine : Machine) : Prop :=
  ∀ body, image.instructions[machine.pc]? = some body → body.isStore = true →
    ∀ place, image.pointed? machine.pc = some place → machine.register .a = place

/-- A run of instructions with numbers in a range, each of which spares a place. -/
inductive Sparing (image : Image) (first stop : Nat) (place : Word) : Machine → Machine → Prop where
  | done (machine : Machine) : Sparing image first stop place machine machine
  | next {before middle after : Machine} : first ≤ before.pc → before.pc < stop →
      image.spares place before = true → before.halted = false → image.step before = .ok () middle →
      Sparing image first stop place middle after → Sparing image first stop place before after

/-- The machine behind a number of steps, if they make such a run. -/
def sparing? (image : Image) (first stop : Nat) (place : Word) : Nat → Machine → Option Machine
  | 0, machine => some machine
  | count + 1, machine =>
    if first ≤ machine.pc ∧ machine.pc < stop ∧ image.spares place machine = true ∧ machine.halted = false then
      match image.step machine with
      | .ok _ next => image.sparing? first stop place count next
      | .error .. => none
    else none

/-- What the executable check finds is a run that spares the place. -/
theorem sparing_of_sparing? {image : Image} {first stop : Nat} {place : Word} {count : Nat}
    {before after : Machine} (runs : image.sparing? first stop place count before = some after) :
    image.Sparing first stop place before after := by
  induction count generalizing before with
  | zero =>
    cases runs
    exact .done _
  | succ count ih =>
    rw [sparing?] at runs
    split at runs
    · rename_i holds
      obtain ⟨behind, ahead, spares, running⟩ := holds
      split at runs
      · rename_i stepped
        exact .next behind ahead spares running stepped (ih runs)
      · cases runs
    · cases runs

section Places

variable {listing : Listing} {image : Image}

/-- The instruction behind the first lines of a listing has their span as its number. -/
theorem getElem?_span (loaded : load listing = .ok image) {front back : Listing}
    (whole : listing = front ++ back) : image.instructions[front.span]? = back.instructions.head? := by
  have instructions : image.instructions.toList = front.instructions ++ back.instructions := by
    rw [(load_eq_ok loaded).2.1.instructions_eq, whole]
    exact List.filterMap_append
  rw [← Array.getElem?_toList, instructions, Listing.span, List.getElem?_append_right (Nat.le_refl _),
    Nat.sub_self, ← List.head?_eq_getElem?]

/-- An instruction has the span of the lines before it as its number. -/
theorem exists_span_eq (loaded : load listing = .ok image) {index : Nat} {body : Instruction}
    (fetched : image.instructions[index]? = some body) :
    ∃ front back : Listing, listing = front ++ .instruction body :: back ∧ front.span = index := by
  have found : listing.instructions[index]? = some body := by
    rw [← (load_eq_ok loaded).2.1.instructions_eq, Array.getElem?_toList, fetched]
  clear loaded fetched
  induction listing generalizing index with
  | nil => cases found
  | cons line listing ih =>
    cases line with
    | label name =>
      obtain ⟨front, back, whole, span⟩ := ih found
      exact ⟨.label name :: front, back, congrArg _ whole, span⟩
    | instruction other =>
      cases index with
      | zero =>
        cases found
        exact ⟨[], listing, rfl, rfl⟩
      | succ index =>
        obtain ⟨front, back, whole, span⟩ := ih found
        exact ⟨.instruction other :: front, back, congrArg _ whole, congrArg (· + 1) span⟩

/-- The instruction behind another and further lines is counted on from that one. -/
theorem getElem?_behind (loaded : load listing = .ok image) {front first rest : Listing} {body : Instruction}
    (whole : listing = front ++ .instruction body :: (first ++ rest)) {index : Nat} (span : front.span = index) :
    image.instructions[index + 1 + first.span]? = rest.instructions.head? := by
  have here := @getElem?_span _ _ loaded (front ++ .instruction body :: first) rest (by simp [whole])
  rwa [Listing.span_append, Listing.span_instruction, span, Nat.add_comm first.span, ← Nat.add_assoc] at here

/-- An instruction with a number in the range of a piece of a listing stands in that piece. -/
theorem mem_of_span (loaded : load listing = .ok image) {front code back : Listing}
    (whole : listing = front ++ code ++ back) {index : Nat} (behind : front.span ≤ index)
    (ahead : index < (front ++ code).span) {body : Instruction} (fetched : image.instructions[index]? = some body) :
    .instruction body ∈ code := by
  have instructions : image.instructions.toList =
      front.instructions ++ (code.instructions ++ back.instructions) := by
    rw [(load_eq_ok loaded).2.1.instructions_eq, whole, ← List.append_assoc]
    simp only [Listing.instructions, List.filterMap_append]
  rw [Listing.span_append] at ahead
  have inside : index - front.instructions.length < code.instructions.length := by
    unfold Listing.span at behind ahead
    omega
  rw [← Array.getElem?_toList, instructions, List.getElem?_append_right behind,
    List.getElem?_append_left inside] at fetched
  obtain ⟨line, member, isBody⟩ := List.mem_filterMap.mp (List.mem_of_getElem? fetched)
  cases line with
  | label name => cases isBody
  | instruction other =>
    cases isBody
    exact member

theorem of_spares {place : Word} {machine : Machine} (spares : image.spares place machine = true) :
    ∃ body, image.instructions[machine.pc]? = some body ∧ body.usesStack = false ∧
      (body.isStore = true → (image.pointed? machine.pc).getD (machine.register .a) ≠ place) := by
  cases fetched : image.instructions[machine.pc]? with
  | none => simp [Image.spares, fetched] at spares
  | some body =>
    simp only [Image.spares, fetched, Option.any_some, Bool.and_eq_true, Bool.not_eq_true', Bool.or_eq_true,
      bne_iff_ne] at spares
    refine ⟨body, rfl, spares.1, fun isStore => spares.2.resolve_left ?_⟩
    simp [isStore]

end Places

section Steps

variable {image : Image} {op : Opcode} {b a : Operand} {before after : Machine}

/-- An operand that leaves the stack alone is read without a change of the machine. -/
private theorem value_unstacked (unstacked : (Instruction.basic op b a).usesStack = false) {operand : Operand}
    (member : operand ∈ [b, a]) {machine middle : Machine} {word : Word}
    (read : Exec.value image operand machine = .ok word middle) :
    image.read? machine operand = some word ∧ middle = machine := by
  refine (value_eq_ok read).resolve_right ?_
  rintro ⟨rfl, _⟩
  exact List.any_eq_false.mp unstacked .pop member rfl

variable (running : before.halted = false) (fetched : image.instructions[before.pc]? = some (.basic op b a))
  (unstacked : (Instruction.basic op b a).usesStack = false) (stepped : image.step before = .ok () after)

include running fetched unstacked stepped

/-- An instruction that computes and leaves the stack alone only gives its destination a word. -/
theorem step_computes (computes : op.isConditional = false) :
    ∃ word, Exec.assign before.pc b word before.advanced = .ok () after ∧
      (op = .set → image.read? before.advanced a = some word) := by
  rw [image.step_fetched before running fetched] at stepped
  obtain ⟨source, middle, read, ⟨rfl, assigned⟩ | ⟨notCopy, _, _, readToo, ⟨tests, _⟩ | ⟨_, assigned⟩⟩⟩ :=
    execute_basic_eq_ok stepped
  · obtain ⟨word, rfl⟩ := value_unstacked unstacked (by simp) read
    exact ⟨source, assigned, fun _ => word⟩
  · rw [computes] at tests
    cases tests
  · obtain ⟨_, rfl⟩ := value_unstacked unstacked (by simp) read
    obtain ⟨_, rfl⟩ := value_unstacked unstacked (by simp) readToo
    exact ⟨_, assigned, fun isCopy => absurd isCopy notCopy⟩

/-- A computation into another place than the program counter goes on to the next instruction. -/
theorem pc_of_computes (computes : op.isConditional = false) (elsewhere : b ≠ .register .pc) :
    after.pc = before.pc + 1 := by
  obtain ⟨word, assigned, _⟩ := step_computes running fetched unstacked stepped computes
  cases b with
  | pop => cases assigned
  | register r =>
    cases r with
    | pc => exact absurd rfl elsewhere
    | _ =>
      cases assigned
      rfl
  | _ =>
    cases assigned
    rfl

/-- A test that leaves the stack alone only goes on or skips. -/
theorem step_tests (tests : op.isConditional = true) :
    ∃ pc, after = { before.advanced with pc } ∧ (pc = before.pc + 1 ∨
      pc = image.skipFrom (image.instructions.size - (before.pc + 1)) (before.pc + 1)) := by
  have notCopy : op ≠ .set := by
    rintro rfl
    cases tests
  rw [image.step_fetched before running fetched, execute_of_ne_set _ notCopy] at stepped
  obtain ⟨source, middle, read, stepped⟩ := bind_eq_ok_iff.mp stepped
  obtain ⟨_, rfl⟩ := value_unstacked unstacked (by simp) read
  obtain ⟨destination, middle, read, stepped⟩ := bind_eq_ok_iff.mp stepped
  obtain ⟨_, rfl⟩ := value_unstacked unstacked (by simp) read
  rw [if_pos tests] at stepped
  split at stepped
  · cases stepped
    exact ⟨_, rfl, .inl rfl⟩
  · cases stepped
    exact ⟨_, rfl, .inr rfl⟩

end Steps

section Runs

variable {listing : Listing} {image : Image} {last : Phase} {before after : Machine}
  (along : Phase.idle.Along listing last) (loaded : load listing = .ok image) (short : listing.span < 65536)
  (running : before.halted = false) (stepped : image.step before = .ok () after)

include along loaded short running stepped

/-- A jump leads to no store, since no label does. -/
private theorem isStore_behind_jump {name : String}
    (fetched : image.instructions[before.pc]? = some (.basic .set (.register .pc) (.label name)))
    {next : Instruction} (lands : image.instructions[after.pc]? = some next) : next.isStore = false := by
  obtain ⟨word, assigned, copied⟩ := step_computes running fetched rfl stepped rfl
  obtain ⟨index, stands, rfl⟩ := Option.map_eq_some_iff.mp (copied rfl)
  obtain ⟨front, back, whole, rfl⟩ := (labelIndex?_eq_some_iff loaded).mp stands
  have inside : front.span < 65536 := by
    rw [whole, Listing.span_append] at short
    omega
  have there : after.pc = front.span := by
    cases assigned
    exact UInt16.toNat_ofNat_of_lt' inside
  rw [there, getElem?_span loaded whole] at lands
  obtain ⟨_, _, rest⟩ := Phase.along_append.mp (whole ▸ along)
  cases rest with
  | label rest => exact rest.isStore_head (by simp) lands

omit along short in
/-- A test leads to no store, whether or not it skips. -/
private theorem isStore_behind_test {front back : Listing} {op : Opcode} {b a : Operand}
    (whole : listing = front ++ .instruction (.basic op b a) :: back) (span : front.span = before.pc)
    (further : Phase.skipping.Along back last) (tests : op.isConditional = true)
    (fetched : image.instructions[before.pc]? = some (.basic op b a))
    (unstacked : (Instruction.basic op b a).usesStack = false) {next : Instruction}
    (lands : image.instructions[after.pc]? = some next) : next.isStore = false := by
  have ahead : image.instructions[before.pc + 1]? = back.instructions.head? :=
    @getElem?_behind _ _ loaded _ [] back _ whole _ span
  obtain ⟨pc, rfl, rfl | rfl⟩ := step_tests running fetched unstacked stepped tests
  · exact further.isStore_head (by simp) (ahead.symm.trans lands)
  · obtain rfl | ⟨skipped, rest, rfl, single, behind⟩ := further.of_skipping
    · have stays := skipFrom_of_none ahead (image.instructions.size - (before.pc + 1))
      rw [stays, ahead] at lands
      cases lands
    · have there := skipFrom_of_single ahead single
      rw [there] at lands
      exact behind.isStore_head (by simp) ((@getElem?_behind _ _ loaded _ [_] rest _ whole _ span).symm.trans lands)

/-- A step that leaves the stack alone comes to a store only from right before it, where the address is
computed. -/
theorem aimed_of_step {body : Instruction} (fetched : image.instructions[before.pc]? = some body)
    (unstacked : body.usesStack = false) {next : Instruction}
    (lands : image.instructions[after.pc]? = some next) (isStore : next.isStore = true) :
    after.pc = before.pc + 1 ∧ ∃ phase : Phase, phase.Goes body .aimed := by
  obtain ⟨front, back, whole, span⟩ := exists_span_eq loaded fetched
  obtain ⟨phase, _, rest⟩ := Phase.along_append.mp (whole ▸ along)
  cases rest with
  | @next _ middle _ _ _ goes further =>
    -- Behind a computation other than that of an address, the next instruction is no store.
    have notNext (unaimed : middle ≠ .aimed) : after.pc ≠ before.pc + 1 := by
      intro there
      have ahead := @getElem?_behind _ _ loaded _ [] back _ whole _ span
      rw [there] at lands
      have other := further.isStore_head unaimed (ahead.symm.trans lands)
      simp [isStore] at other
    cases goes with
    | call | ret => cases unstacked
    | jump =>
      have other := isStore_behind_jump along loaded short running stepped fetched lands
      simp [isStore] at other
    | test tests =>
      have other := isStore_behind_test loaded running stepped whole span further tests fetched unstacked lands
      simp [isStore] at other
    | keep computes | load computes =>
      exact absurd (pc_of_computes running fetched unstacked stepped computes (by simp)) (notNext (by simp))
    | store => exact absurd (pc_of_computes running fetched unstacked stepped rfl (by simp)) (notNext (by simp))
    | point => exact ⟨pc_of_computes running fetched unstacked stepped rfl (by simp), _, .point⟩
    | offset => exact ⟨pc_of_computes running fetched unstacked stepped rfl (by simp), _, .offset⟩

/-- Wherever a step that leaves the stack alone leads, register `a` has the address that a store there is for. -/
theorem aims_of_step {body : Instruction} (fetched : image.instructions[before.pc]? = some body)
    (unstacked : body.usesStack = false) : image.Aims after := by
  intro next lands isStore place points
  obtain ⟨there, phase, goes⟩ := aimed_of_step along loaded short running stepped fetched unstacked lands isStore
  rw [pointed?, there, Nat.add_sub_cancel, fetched] at points
  cases goes with
  | offset => cases points
  | point =>
    cases points
    obtain ⟨word, assigned, copied⟩ := step_computes running fetched unstacked stepped rfl
    cases assigned
    cases copied rfl
    simp [Machine.register_a, Machine.setRegister]

omit along loaded short in
/-- An instruction that spares a place and does not write to it leaves the word there. -/
theorem read_of_step {phase behind : Phase} {body : Instruction} {place : Word} (goes : phase.Goes body behind)
    (fetched : image.instructions[before.pc]? = some body) (spares : image.spares place before = true)
    (unwritten : ∀ op a, body ≠ .basic op (.memory place) a) (aims : image.Aims before) :
    after.memory.read place = before.memory.read place := by
  obtain ⟨_, found, unstacked, storesElsewhere⟩ := of_spares spares
  cases fetched.symm.trans found
  cases goes with
  | call | ret => cases unstacked
  | test tests =>
    obtain ⟨pc, rfl, _⟩ := step_tests running fetched unstacked stepped tests
    rfl
  | @keep _ op slot a computes =>
    obtain ⟨word, assigned, _⟩ := step_computes running fetched unstacked stepped computes
    have apart : slot ≠ place := by
      rintro rfl
      exact unwritten op a rfl
    cases assigned
    exact (Memory.read_write ..).trans (if_neg apart)
  | load computes =>
    obtain ⟨word, assigned, _⟩ := step_computes running fetched unstacked stepped computes
    cases assigned
    rfl
  | jump | point | offset =>
    obtain ⟨word, assigned, _⟩ := step_computes running fetched unstacked stepped rfl
    cases assigned
    rfl
  | store =>
    obtain ⟨word, assigned, _⟩ := step_computes running fetched unstacked stepped rfl
    have elsewhere : before.register .a ≠ place := by
      have apart := storesElsewhere rfl
      cases points : image.pointed? before.pc with
      | none => simpa [points] using apart
      | some other =>
        have aimed : before.register .a = other := aims _ fetched rfl other points
        simpa [points, ← aimed] using apart
    cases assigned
    exact (Memory.read_write ..).trans (if_neg elsewhere)

omit running stepped in
/-- A run that spares a place leaves the word there, if no instruction in the range writes to the place by its
address. -/
theorem Sparing.read_eq {first stop : Nat} {place : Word} {earlier later : Machine}
    (run : image.Sparing first stop place earlier later) (aims : image.Aims earlier)
    (unwritten : ∀ index body, first ≤ index → index < stop → image.instructions[index]? = some body →
      ∀ op a, body ≠ .basic op (.memory place) a) :
    later.memory.read place = earlier.memory.read place := by
  induction run with
  | done => rfl
  | @next before middle _ behind ahead spares running stepped _ ih =>
    obtain ⟨body, fetched, unstacked, _⟩ := of_spares spares
    rw [ih (aims_of_step along loaded short running stepped fetched unstacked)]
    obtain ⟨front, back, whole, _⟩ := exists_span_eq loaded fetched
    obtain ⟨phase, _, rest⟩ := Phase.along_append.mp (whole ▸ along)
    cases rest with
    | next goes _ =>
      exact read_of_step running stepped goes fetched spares (unwritten _ _ behind ahead fetched) aims

end Runs

end Image

end Dcpu
