import Dcpu.Proofs.Machine.Failures

/-! # The stack is a stack

The stack has no place of its own: its words are the topmost of the memory, and their number is counted apart
from the stack pointer. As long as no instruction gives the stack pointer a word and no store goes to a word on
the stack, the words from the stack pointer on are those that were pushed and not yet popped.
-/

namespace Dcpu

open Effects

/-- Whether an instruction gives the stack pointer a word; a test gives none. -/
def Instruction.setsStackPointer : Instruction → Bool
  | .basic op (.register .sp) _ => !op.isConditional
  | _ => false

/-- What instructions do to the stack and to memory. A word is taken from the stack, if there is one; a word is
put on it; or a word is stored at an address, with so many words on the stack. -/
inductive Access where
  | popped (word : Option Word)
  | pushed (word : Word)
  | stored (address : Word) (depth : Nat)
deriving DecidableEq, Repr

namespace Access

/-- The words on a stack behind an access, the most recent first. -/
def apply (stack : List Word) : Access → List Word
  | popped _ => stack.tail
  | pushed word => word :: stack
  | stored .. => stack

/-- A store leaves the words on the stack alone, which are the topmost words of the memory. -/
def sparesStack : Access → Bool
  | stored address depth => address.toNat < 65536 - depth
  | _ => true

/-- Every word that is taken from the stack is the most recent one, and none is taken when there is none. -/
def Faithful : List Word → List Access → Prop
  | _, [] => True
  | stack, access :: accesses =>
    (∀ word, access = .popped word → word = stack.head?) ∧ Faithful (access.apply stack) accesses

theorem faithful_append {stack : List Word} {first second : List Access} :
    Faithful stack (first ++ second) ↔ Faithful stack first ∧ Faithful (first.foldl apply stack) second := by
  induction first generalizing stack with
  | nil => simp [Faithful]
  | cons access first ih => simp [Faithful, ih, and_assoc]

end Access

/-- The words that were pushed and not yet popped, the most recent first. -/
def unpopped (accesses : List Access) : List Word :=
  accesses.foldl Access.apply []

/-- The words from the stack pointer on, as many as are on the stack. -/
def Machine.stack (machine : Machine) : List Word :=
  (List.range machine.depth).map fun offset => machine.memory.read (machine.sp + UInt16.ofNat offset)

namespace Operand

def reading (machine : Machine) : Operand → List Access
  | .pop =>
    match Exec.pop machine with
    | .ok word _ => [.popped (some word)]
    | .error _ _ => [.popped none]
  | _ => []

def writing (machine : Machine) (word : Word) : Operand → List Access
  | .push => [.pushed word]
  | .memory place => [.stored place machine.depth]
  | .indirect r => [.stored (machine.register r) machine.depth]
  | _ => []

end Operand

namespace Image

/-- The accesses of reading an operand and of what comes next, if the operand can be read. -/
def readingThen (image : Image) (machine : Machine) (operand : Operand)
    (next : Word → Machine → List Access) : List Access :=
  operand.reading machine ++
    match Exec.value image operand machine with
    | .ok word after => next word after
    | .error _ _ => []

/-- The accesses of an instruction in their order, as far as it gets. -/
def executionAccesses (image : Image) (machine : Machine) : Instruction → List Access
  | .jsr target => image.readingThen machine target fun _ middle => [.pushed (UInt16.ofNat middle.pc)]
  | .basic op b a =>
    image.readingThen machine a fun source middle =>
      if op = .set then b.writing middle source
      else
        image.readingThen middle b fun destination further =>
          if op.isConditional then [] else b.writing further (op.compute destination source)

def accesses (image : Image) (machine : Machine) : List Access :=
  if machine.halted then []
  else match image.instructions[machine.pc]? with
    | none => []
    | some instruction => image.executionAccesses machine.advanced instruction

/-- A run of successful steps from the beginning, with its accesses, in which the stack has never more than
65535 words and no store goes to one of them. -/
inductive Orderly (image : Image) : List Access → Machine → Prop where
  | start : Orderly image [] .start
  | step {accesses : List Access} {before after : Machine} : Orderly image accesses before →
      image.step before = .ok () after → after.depth ≤ 65535 →
      (∀ access ∈ image.accesses before, access.sparesStack) →
      Orderly image (accesses ++ image.accesses before) after

end Image

/-- The words of a stack are the topmost of the memory, the most recent one at the lowest address. -/
def Memory.Stacks (memory : Memory) : List Word → Prop
  | [] => True
  | word :: below => memory.read (UInt16.ofNat (65535 - below.length)) = word ∧ memory.Stacks below

namespace Memory.Stacks

variable {memory : Memory} {stack : List Word}

/-- Writing below the stack leaves it alone. -/
theorem write (words : memory.Stacks stack) (small : stack.length ≤ 65535) {address : Word}
    (spared : address.toNat < 65536 - stack.length) (word : Word) : (memory.write address word).Stacks stack := by
  induction stack with
  | nil => trivial
  | cons top below ih =>
    rw [List.length_cons] at small spared
    obtain ⟨read, rest⟩ := words
    refine ⟨?_, ih rest (by omega) (by omega)⟩
    have elsewhere : address ≠ UInt16.ofNat (65535 - below.length) := by
      rintro rfl
      rw [UInt16.toNat_ofNat_of_lt' (show 65535 - below.length < 65536 by omega)] at spared
      omega
    rw [read_write, if_neg elsewhere, read]

/-- The words of a stack stand one behind the other up to the end of memory. -/
theorem read_getElem (words : memory.Stacks stack) (small : stack.length ≤ 65535) {index : Nat}
    (inside : index < stack.length) :
    memory.read (UInt16.ofNat (65536 - stack.length + index)) = stack[index] := by
  induction stack generalizing index with
  | nil => cases inside
  | cons top below ih =>
    rw [List.length_cons] at small inside ⊢
    cases index with
    | zero =>
      rw [List.getElem_cons_zero, ← words.1]
      congr 2
      omega
    | succ index =>
      rw [List.getElem_cons_succ, ← ih words.2 (by omega) (by omega)]
      congr 2
      omega

end Memory.Stacks

/-- A machine has the given words on its stack. -/
structure Machine.Stacked (machine : Machine) (stack : List Word) : Prop where
  depth : machine.depth = stack.length
  small : stack.length ≤ 65535
  sp : machine.sp = UInt16.ofNat (65536 - stack.length)
  words : machine.memory.Stacks stack

namespace Machine.Stacked

variable {machine : Machine} {stack : List Word}

theorem start : Machine.start.Stacked [] :=
  ⟨rfl, Nat.zero_le _, rfl, trivial⟩

/-- The stack pointer is the depth below the end of memory. -/
theorem toNat_sp (stacked : machine.Stacked stack) : machine.sp.toNat = (65536 - machine.depth) % 65536 := by
  rw [stacked.sp, stacked.depth, UInt16.toNat_ofNat']

theorem stack_eq (stacked : machine.Stacked stack) : machine.stack = stack := by
  apply List.ext_getElem
  · simp [Machine.stack, stacked.depth]
  · intro index _ inside
    simp only [Machine.stack, List.getElem_map, List.getElem_range, stacked.sp, ← UInt16.ofNat_add]
    exact stacked.words.read_getElem stacked.small inside

theorem congr (stacked : machine.Stacked stack) {other : Machine} (memory : other.memory = machine.memory)
    (sp : other.sp = machine.sp) (depth : other.depth = machine.depth) : other.Stacked stack :=
  ⟨depth.trans stacked.depth, stacked.small, sp.trans stacked.sp, memory ▸ stacked.words⟩

/-- A word is put on the stack. -/
theorem push (stacked : machine.Stacked stack) {word : Word} (small : (machine.push word).depth ≤ 65535) :
    (machine.push word).Stacked (word :: stack) := by
  have room : stack.length + 1 ≤ 65535 := by
    rw [← stacked.depth]
    exact small
  have below : machine.sp - 1 = UInt16.ofNat (65535 - stack.length) := by
    have above : 65536 - stack.length = 65535 - stack.length + 1 := by omega
    rw [stacked.sp, above, UInt16.ofNat_add]
    exact UInt16.add_sub_cancel _ _
  have small' : 65535 - stack.length < 65536 := by omega
  refine ⟨?_, by simpa using room, ?_, ?_, ?_⟩
  · simp [Machine.push, stacked.depth]
  · change machine.sp - 1 = _
    rw [below, List.length_cons]
    congr 1
    omega
  · simp [Machine.push, Machine.write, below]
  · change (machine.memory.write (machine.sp - 1) word).Stacks stack
    refine stacked.words.write (by omega) ?_ word
    rw [below, UInt16.toNat_ofNat_of_lt' small']
    omega

/-- Words elsewhere do not matter. -/
theorem write (stacked : machine.Stacked stack) {address : Word} (spared : address.toNat < 65536 - machine.depth)
    (word : Word) : (machine.write address word).Stacked stack :=
  ⟨stacked.depth, stacked.small, stacked.sp, stacked.words.write stacked.small (stacked.depth ▸ spared) word⟩

end Machine.Stacked

namespace Image

open Access

variable {image : Image} {machine after : Machine} {stack : List Word} {operand : Operand} {word : Word}

/-- Taking a word from the stack takes the most recent one, if there is one. -/
theorem reading_pop (stacked : machine.Stacked stack) :
    Operand.pop.reading machine = [.popped stack.head?] := by
  cases stack with
  | nil => simp [Operand.reading, Exec.pop, bind_apply, stacked.depth]
  | cons top below =>
    have nonempty : machine.depth ≠ 0 := by simp [stacked.depth]
    have popped := value_pop .empty nonempty
    rw [Exec.value] at popped
    have read : machine.memory.read machine.sp = top := by
      rw [stacked.sp, ← stacked.words.1, List.length_cons]
      congr 2
      omega
    rw [Operand.reading, popped, read]
    rfl

theorem reading_of_ne_pop (other : operand ≠ .pop) : operand.reading machine = [] := by
  cases operand with
  | pop => exact absurd rfl other
  | _ => rfl

theorem faithful_reading (stacked : machine.Stacked stack) : Faithful stack (operand.reading machine) := by
  by_cases pops : operand = .pop
  · subst pops
    rw [reading_pop stacked]
    refine ⟨?_, trivial⟩
    rintro _ ⟨⟩
    rfl
  · rw [reading_of_ne_pop pops]
    trivial

/-- Reading an operand takes at most the topmost word from the stack. -/
theorem value_stacked (stacked : machine.Stacked stack)
    (read : Exec.value image operand machine = .ok word after) :
    after.Stacked ((operand.reading machine).foldl apply stack) := by
  obtain ⟨reads, rfl⟩ | ⟨rfl, nonempty, -, rfl⟩ := value_eq_ok read
  · rw [reading_of_ne_pop (by rintro rfl; cases reads)]
    exact stacked
  · rw [reading_pop stacked]
    cases stack with
    | nil => exact absurd stacked.depth nonempty
    | cons top below =>
      have room := stacked.small
      rw [List.length_cons] at room
      have above : 65536 - below.length = 65536 - (below.length + 1) + 1 := by omega
      change Machine.Stacked _ below
      refine ⟨by simp [stacked.depth], by omega, ?_, stacked.words.2⟩
      change machine.sp + 1 = _
      rw [stacked.sp, List.length_cons, above, UInt16.ofNat_add]
      rfl

theorem faithful_writing : Faithful stack (operand.writing machine word) := by
  cases operand <;> simp [Operand.writing, Faithful]

/-- Giving an operand a word puts at most this word on the stack, as long as the stack is spared. -/
theorem assign_stacked {current : Nat} (stacked : machine.Stacked stack) (other : operand ≠ .register .sp)
    (ran : Exec.assign current operand word machine = .ok () after) (small : after.depth ≤ 65535)
    (spared : ∀ access ∈ operand.writing machine word, access.sparesStack) :
    after.Stacked ((operand.writing machine word).foldl apply stack) := by
  cases operand with
  | pop => cases ran
  | push =>
    cases ran
    exact stacked.push small
  | memory | indirect =>
    cases ran
    exact stacked.write (of_decide_eq_true (spared _ (List.mem_singleton_self _))) word
  | address | literal | label =>
    cases ran
    exact stacked
  | register r =>
    cases r with
    | sp => exact absurd rfl other
    | _ =>
      cases ran
      exact stacked.congr rfl rfl rfl

theorem readingThen_of_value {next : Word → Machine → List Access}
    (read : Exec.value image operand machine = .ok word after) :
    image.readingThen machine operand next = operand.reading machine ++ next word after := by
  simp only [readingThen, read]

theorem faithful_readingThen {next : Word → Machine → List Access} (stacked : machine.Stacked stack)
    (faithful : ∀ word after, Exec.value image operand machine = .ok word after →
      Faithful ((operand.reading machine).foldl apply stack) (next word after)) :
    Faithful stack (image.readingThen machine operand next) := by
  refine faithful_append.mpr ⟨faithful_reading stacked, ?_⟩
  split
  case h_1 word after read => exact faithful word after read
  case h_2 => trivial

/-- Every word that an instruction takes from the stack is the most recent one. -/
theorem faithful_execution (stacked : machine.Stacked stack) (instruction : Instruction) :
    Faithful stack (image.executionAccesses machine instruction) := by
  cases instruction with
  | jsr target =>
    apply faithful_readingThen stacked
    simp [Faithful]
  | basic op b a =>
    apply faithful_readingThen stacked
    intro source middle read
    split
    · exact faithful_writing
    · apply faithful_readingThen (value_stacked stacked read)
      intro destination further _
      split
      · trivial
      · exact faithful_writing

/-- An instruction puts words on the stack and takes them from it as its accesses say. -/
theorem execute_stacked {current : Nat} {instruction : Instruction} (stacked : machine.Stacked stack)
    (unset : instruction.setsStackPointer = false)
    (ran : image.execute current instruction machine = .ok () after) (small : after.depth ≤ 65535)
    (spared : ∀ access ∈ image.executionAccesses machine instruction, access.sparesStack) :
    after.Stacked ((image.executionAccesses machine instruction).foldl apply stack) := by
  cases instruction with
  | jsr target =>
    obtain ⟨word, middle, read, jumped⟩ := bind_eq_ok_iff.mp ran
    cases jumped
    rw [executionAccesses, readingThen_of_value read, List.foldl_append]
    exact ((value_stacked stacked read).push small).congr rfl rfl rfl
  | basic op b a =>
    have other (computes : op.isConditional = false) : b ≠ .register .sp := by
      rintro rfl
      simp [Instruction.setsStackPointer, computes] at unset
    obtain ⟨source, middle, read, done⟩ := execute_basic_eq_ok ran
    have middleStacked := value_stacked stacked read
    rw [executionAccesses, readingThen_of_value read] at spared ⊢
    rw [List.foldl_append]
    obtain ⟨rfl, assigned⟩ | ⟨computes, destination, further, readToo, done⟩ := done
    · simp only [↓reduceIte, List.mem_append] at spared ⊢
      exact assign_stacked middleStacked (other rfl) assigned small fun access member =>
        spared access (.inr member)
    · have furtherStacked := value_stacked middleStacked readToo
      rw [if_neg computes, readingThen_of_value readToo] at spared ⊢
      rw [List.foldl_append]
      obtain ⟨conditional, pc, rfl⟩ | ⟨computes, assigned⟩ := done
      · rw [if_pos conditional]
        exact furtherStacked.congr rfl rfl rfl
      · simp only [computes, Bool.false_eq_true, ↓reduceIte, List.mem_append] at spared ⊢
        exact assign_stacked furtherStacked (other computes) assigned small fun access member =>
          spared access (.inr (.inr member))

/-- Reading an operand fails for want of a word on the stack exactly if it asks for one in vain. -/
theorem value_underflows_iff :
    (∃ after, Exec.value image operand machine = .error (.underflow (machine.pc - 1)) after) ↔
      .popped none ∈ operand.reading machine := by
  constructor
  · rintro ⟨after, failed⟩
    obtain ⟨-, fault⟩ := value_eq_error failed
    cases fault
    rw [Exec.value] at failed
    simp [Operand.reading, failed]
  · intro member
    cases operand with
    | pop =>
      simp only [Operand.reading] at member
      cases popped : Exec.pop machine with
      | ok word after => simp [popped] at member
      | error error after =>
        have failed : Exec.value image .pop machine = .error error after := popped
        obtain ⟨-, fault⟩ := value_eq_error failed
        cases fault
        exact ⟨after, failed⟩
    | _ => cases member

theorem readingThen_underflows_iff {step : Word → Exec Unit} {next : Word → Machine → List Access}
    (rest : ∀ word middle, Exec.value image operand machine = .ok word middle →
      ((∃ after, step word middle = .error (.underflow (middle.pc - 1)) after) ↔
        .popped none ∈ next word middle)) :
    (∃ after, (Exec.value image operand >>= step) machine = .error (.underflow (machine.pc - 1)) after) ↔
      .popped none ∈ image.readingThen machine operand next := by
  rw [readingThen, List.mem_append, ← value_underflows_iff]
  simp only [bind_eq_error_iff, exists_or]
  refine or_congr Iff.rfl ?_
  cases read : Exec.value image operand machine with
  | error error middle => simp
  | ok word middle =>
    rw [← rest word middle read, (value_popped read).pc]
    simp

theorem assign_underflows_iff {current pc : Nat} :
    (∃ after, Exec.assign current operand word machine = .error (.underflow pc) after) ↔
      .popped none ∈ operand.writing machine word := by
  constructor
  · rintro ⟨after, failed⟩
    obtain ⟨-, -, impossible⟩ := assign_eq_error failed
    cases impossible
  · intro member
    cases operand <;> simp [Operand.writing] at member

/-- An instruction fails for want of a word on the stack exactly if one of its operands asks for one in vain. -/
theorem execute_underflows_iff {current : Nat} {instruction : Instruction} :
    (∃ after, image.execute current instruction machine = .error (.underflow (machine.pc - 1)) after) ↔
      .popped none ∈ image.executionAccesses machine instruction := by
  cases instruction with
  | jsr target =>
    apply readingThen_underflows_iff
    simp
  | basic op b a =>
    by_cases copies : op = .set
    · subst copies
      apply readingThen_underflows_iff
      intro source middle read
      exact assign_underflows_iff
    · rw [execute_of_ne_set current copies]
      apply readingThen_underflows_iff
      intro source middle read
      rw [if_neg copies]
      apply readingThen_underflows_iff
      intro destination further readToo
      by_cases conditional : op.isConditional = true
      · rw [if_pos conditional, if_pos conditional]
        split <;> simp [skip]
      · rw [if_neg conditional, if_neg conditional]
        exact assign_underflows_iff

section Runs

theorem accesses_fetched {instruction : Instruction} (running : machine.halted = false)
    (fetched : image.instructions[machine.pc]? = some instruction) :
    image.accesses machine = image.executionAccesses machine.advanced instruction := by
  simp [accesses, running, fetched]

/-- A step that carries no instruction out accesses nothing and at most halts. -/
theorem step_idle (idle : machine.halted = true ∨ image.instructions[machine.pc]? = none) :
    image.step machine = .ok () { machine with halted := true } ∧ image.accesses machine = [] := by
  by_cases halted : machine.halted = true
  · have same : { machine with halted := true } = machine := by rw [← halted]
    simp [step, accesses, bind_apply, halted, same]
  · have behind := idle.resolve_left halted
    simp [step, accesses, bind_apply, halted, behind]

/-- A machine carries an instruction out in its next step, or it does not. -/
theorem fetches_or_idles (image : Image) (machine : Machine) :
    (machine.halted = false ∧ ∃ instruction, image.instructions[machine.pc]? = some instruction) ∨
      machine.halted = true ∨ image.instructions[machine.pc]? = none := by
  cases machine.halted <;> cases image.instructions[machine.pc]? <;> simp

/-- A step treats the stack as a stack. -/
theorem faithful_accesses (stacked : machine.Stacked stack) : Faithful stack (image.accesses machine) := by
  obtain ⟨running, instruction, fetched⟩ | idle := image.fetches_or_idles machine
  · rw [accesses_fetched running fetched]
    have advanced : machine.advanced.Stacked stack := stacked.congr rfl rfl rfl
    exact faithful_execution advanced instruction
  · rw [(step_idle idle).2]
    trivial

/-- A step puts words on the stack and takes them from it as its accesses say. -/
theorem step_stacked (stacked : machine.Stacked stack)
    (unset : ∀ instruction ∈ image.instructions, instruction.setsStackPointer = false)
    (stepped : image.step machine = .ok () after) (small : after.depth ≤ 65535)
    (spared : ∀ access ∈ image.accesses machine, access.sparesStack) :
    after.Stacked ((image.accesses machine).foldl apply stack) := by
  obtain ⟨running, instruction, fetched⟩ | idle := image.fetches_or_idles machine
  · rw [image.step_fetched machine running fetched] at stepped
    rw [accesses_fetched running fetched] at spared ⊢
    exact execute_stacked (stacked.congr rfl rfl rfl) (unset _ (Array.mem_of_getElem? fetched)) stepped small
      spared
  · obtain ⟨halts, none⟩ := step_idle idle
    rw [halts] at stepped
    cases stepped
    rw [none]
    exact stacked.congr rfl rfl rfl

/-- A step fails by underflow exactly when it takes a word off the empty stack. -/
theorem step_underflows_iff : (∃ after, image.step machine = .error (.underflow machine.pc) after) ↔
    .popped none ∈ image.accesses machine := by
  obtain ⟨running, instruction, fetched⟩ | idle := image.fetches_or_idles machine
  · rw [image.step_fetched machine running fetched, accesses_fetched running fetched, ← execute_underflows_iff]
    rfl
  · obtain ⟨halts, none⟩ := step_idle idle
    simp [halts, none]

/-- On an orderly run the words on the stack are those that were pushed and not yet popped. -/
theorem Orderly.stacked {accesses : List Access}
    (unset : ∀ instruction ∈ image.instructions, instruction.setsStackPointer = false)
    (run : image.Orderly accesses machine) : machine.Stacked (unpopped accesses) := by
  induction run with
  | start => exact .start
  | step run stepped small spared ih =>
    rw [unpopped, List.foldl_append]
    exact step_stacked ih unset stepped small spared

end Runs

/-- On every run of a loaded program in which no instruction sets the stack pointer and no store goes to a word
on the stack, the stack pointer follows from the number of words on the stack, the words from it on are those
that were pushed and not yet popped, the next step takes the most recent of these each time it takes one, and
it fails for want of a word exactly if it asks for one when there is none. -/
theorem stack_holds_unpopped {listing : Listing} (loaded : load listing = .ok image)
    (unset : ∀ instruction ∈ listing.instructions, instruction.setsStackPointer = false)
    {accesses : List Access} (run : image.Orderly accesses machine) :
    machine.sp.toNat = (65536 - machine.depth) % 65536 ∧ machine.stack = unpopped accesses ∧
      (∀ earlier word later, image.accesses machine = earlier ++ .popped word :: later →
        word = (unpopped (accesses ++ earlier)).head?) ∧
      ((∃ after, image.step machine = .error (.underflow machine.pc) after) ↔
        .popped none ∈ image.accesses machine) := by
  have stacked := run.stacked fun instruction member =>
    unset instruction ((mem_instructions_of_load loaded).mp member)
  refine ⟨stacked.toNat_sp, stacked.stack_eq, ?_, step_underflows_iff⟩
  intro earlier word later split
  have faithful : Faithful _ (image.accesses machine) := faithful_accesses stacked
  rw [split, faithful_append] at faithful
  rw [unpopped, List.foldl_append]
  exact faithful.2.1 word rfl

/-- A word is pushed, a call pushes its return address, and a test takes both. -/
private def pushAndCall : Listing :=
  [.set .push (.literal 7), .instruction (.jsr (.label "f")), .label "f", .instruction (.basic .ifn .pop .pop),
    .set (.register .a) .pop]

private def pushAndCallImage : Image where
  instructions :=
    #[.basic .set .push (.literal 7), .jsr (.label "f"), .basic .ifn .pop .pop, .basic .set (.register .a) .pop]
  labels := [("f", 2)]

/-- Two words are on the stack before the test, which takes the return address as its source and then the other
word. -/
theorem stack_holds_pushed_and_returnAddress : load pushAndCall = .ok pushAndCallImage ∧
    (∀ instruction ∈ pushAndCall.instructions, instruction.setsStackPointer = false) ∧
    ∃ machine, pushAndCallImage.Orderly [.pushed 7, .pushed 2] machine ∧
      machine.sp.toNat = (65536 - machine.depth) % 65536 ∧ machine.stack = [2, 7] ∧
      pushAndCallImage.accesses machine = [.popped (some 2), .popped (some 7)] ∧
      ¬∃ after, pushAndCallImage.step machine = .error (.underflow machine.pc) after := by
  have loaded : load pushAndCall = .ok pushAndCallImage := by decide
  have unset : ∀ instruction ∈ pushAndCall.instructions, instruction.setsStackPointer = false := by decide
  have pushed : pushAndCallImage.Orderly [.pushed 7] _ := .step .start rfl (by decide) (by decide)
  have called : pushAndCallImage.Orderly [.pushed 7, .pushed 2] _ := .step pushed rfl (by decide) (by decide)
  obtain ⟨pointer, words, -, underflows⟩ := stack_holds_unpopped loaded unset called
  refine ⟨loaded, unset, _, called, pointer, words, by decide +kernel, ?_⟩
  rw [underflows]
  decide +kernel

end Image

end Dcpu
