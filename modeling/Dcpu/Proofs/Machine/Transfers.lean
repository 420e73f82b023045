import Dcpu.Proofs.Machine.Halting
import Dcpu.Proofs.Machine.LoadResults

/-! # Where jumps, calls and returns lead

A label stands for the number of instructions before it, and a call puts the number of the next instruction on
the stack. Both numbers go through a word of the machine, and the program counter takes only the word. Jumps,
calls and returns therefore lead to the remainder of the number that is meant, and to the number itself exactly if
it is one of a word. There is no limit to the length of a program, so numbers beyond a word do occur.
-/

namespace Dcpu

/-- The label that an instruction goes to, if it is a jump or a call to a label. -/
def Instruction.goal? : Instruction → Option String
  | .basic .set (.register .pc) (.label name) => some name
  | .jsr (.label name) => some name
  | _ => none

namespace Image

/-- A machine is about to take into the program counter the word that was on top of the stack right after a call,
and that has stayed. -/
structure AboutToReturn (image : Image) (called later : Machine) : Prop where
  running : later.halted = false
  fetched : image.instructions[later.pc]? = some (.basic .set (.register .pc) .pop)
  filled : later.depth ≠ 0
  top : later.sp = called.sp
  kept : later.memory.read called.sp = called.memory.read called.sp

variable {listing : Listing} {image : Image} {before : Machine} {name : String}

/-- A label that an instruction names stands for the number of instructions before it in the listing. -/
theorem exists_label_of_load (loaded : load listing = .ok image) {pc : Nat} {body : Instruction}
    (fetched : image.instructions[pc]? = some body) (named : .label name ∈ body.operands) :
    ∃ first rest : Listing, listing = first ++ .label name :: rest ∧ image.labelIndex? name = some first.span := by
  obtain ⟨index, stands⟩ := Option.isSome_iff_exists.mp (labelIndex?_of_load loaded fetched named)
  obtain ⟨first, rest, whole, rfl⟩ := (labelIndex?_eq_some_iff loaded).mp stands
  exact ⟨first, rest, whole, stands⟩

/-- A jump or a call to a label leads to the remainder of the number that the label stands for. -/
theorem step_goal (running : before.halted = false) {body : Instruction}
    (fetched : image.instructions[before.pc]? = some body) (goes : body.goal? = some name) {index : Nat}
    (stands : image.labelIndex? name = some index) :
    ∃ after, image.step before = .ok () after ∧ after.pc = index % 65536 := by
  have reads : Exec.value image (.label name) before.advanced = .ok (UInt16.ofNat index) before.advanced :=
    value_of_read? (by simp [read?, stands])
  rw [image.step_fetched before running fetched]
  unfold Instruction.goal? at goes
  split at goes
  · cases goes
    rw [execute_jump rfl reads]
    exact ⟨_, rfl, UInt16.toNat_ofNat'⟩
  · cases goes
    rw [execute_jsr reads]
    exact ⟨_, rfl, UInt16.toNat_ofNat'⟩
  · cases goes

/-- A call of a label puts the number of the next instruction on the stack. -/
theorem step_jsr_label (running : before.halted = false)
    (fetched : image.instructions[before.pc]? = some (.jsr (.label name))) {after : Machine}
    (stepped : image.step before = .ok () after) : after.sp = before.sp - 1 ∧ after.depth = before.depth + 1 ∧
      after.memory.read after.sp = UInt16.ofNat (before.pc + 1) := by
  rw [← before.awake_of_running running] at stepped
  obtain ⟨word, middle, read, rfl⟩ := step_call fetched stepped
  obtain ⟨_, rfl⟩ | ⟨isPop, _⟩ := value_eq_ok read
  · refine ⟨rfl, rfl, ?_⟩
    simp [Machine.push, Machine.jump, Machine.write]
  · cases isPop

/-- A return leads to the number that is on top of the stack. -/
theorem AboutToReturn.step {called later : Machine} (returns : image.AboutToReturn called later) :
    ∃ back, image.step later = .ok () back ∧ back.pc = (called.memory.read called.sp).toNat := by
  have onTop : later.advanced.memory.read later.advanced.sp = called.memory.read called.sp := by
    change later.memory.read later.sp = _
    rw [returns.top, returns.kept]
  have filled : later.advanced.depth ≠ 0 := returns.filled
  rw [image.step_fetched later returns.running returns.fetched, execute_jump rfl (value_pop image filled), onTop]
  exact ⟨_, rfl, rfl⟩

/-- A jump or a call to a label leads to the remainder of the number of instructions before the label, and the
return from a call to that of the number of the instruction behind the call. They lead to where they are meant to
exactly if the numbers are below 65536, as they are in every program with fewer instructions than that. -/
theorem transfers_land_modulo_word (loaded : load listing = .ok image) (running : before.halted = false)
    {body : Instruction} (fetched : image.instructions[before.pc]? = some body) (goes : body.goal? = some name) :
    ∃ (first rest : Listing) (after : Machine), listing = first ++ .label name :: rest ∧
      image.labelIndex? name = some first.span ∧ image.step before = .ok () after ∧
      after.pc = first.span % 65536 ∧ (after.pc = first.span ↔ first.span < 65536) ∧
      (body = .jsr (.label name) → after.sp = before.sp - 1 ∧ after.depth = before.depth + 1 ∧
        ∀ later, image.AboutToReturn after later → ∃ back, image.step later = .ok () back ∧
          back.pc = (before.pc + 1) % 65536 ∧ (back.pc = before.pc + 1 ↔ before.pc + 1 < 65536)) ∧
      (listing.span < 65536 → first.span < 65536 ∧ before.pc + 1 < 65536) := by
  have named : .label name ∈ body.operands := by
    unfold Instruction.goal? at goes
    split at goes <;> cases goes <;> simp [Instruction.operands]
  obtain ⟨first, rest, rfl, stands⟩ := exists_label_of_load loaded fetched named
  obtain ⟨after, stepped, pc⟩ := step_goal running fetched goes stands
  have inside := (Array.getElem?_eq_some_iff.mp fetched).1
  rw [size_of_load loaded, Listing.span_append, Listing.span_label] at inside
  have remainder (number : Nat) : number % 65536 = number ↔ number < 65536 := by omega
  refine ⟨first, rest, after, rfl, stands, stepped, pc, pc ▸ remainder _, ?_, ?_⟩
  · rintro rfl
    obtain ⟨sp, depth, pushed⟩ := step_jsr_label running fetched stepped
    refine ⟨sp, depth, fun later returns => ?_⟩
    obtain ⟨back, steppedBack, lands⟩ := returns.step
    rw [pushed, UInt16.toNat_ofNat'] at lands
    exact ⟨back, steppedBack, lands, lands ▸ remainder _⟩
  · intro short
    rw [Listing.span_append, Listing.span_label] at short
    omega

/-- A call, the halt loop behind it, and the routine that is called. -/
def callOnce : Listing :=
  [.jsr "f", .label "end", .jump "end", .label "f", .ret]

theorem transfers_land_modulo_word_callOnce : ∃ image called back, load callOnce = .ok image ∧
    image.step .start = .ok () called ∧ called.pc = 2 ∧ image.step called = .ok () back ∧ back.pc = 1 := by
  obtain ⟨first, rest, called, _, stands, stepped, _, lands, calls, short⟩ :=
    transfers_land_modulo_word (show load callOnce = .ok _ from rfl) (show Machine.start.halted = false from rfl)
      (show _ = some (Instruction.jsr (.label "f")) from rfl) rfl
  obtain ⟨labelInside, callInside⟩ := short (by decide)
  have index : 2 = first.span := Option.some.inj stands
  obtain ⟨_, depth, returns⟩ := calls rfl
  have pc : called.pc = 2 := (lands.mpr labelInside).trans index.symm
  have running : called.halted = false := by
    cases stepped
    rfl
  obtain ⟨back, steppedBack, _, landsBack⟩ :=
    returns called ⟨running, pc ▸ rfl, by simp [depth], rfl, rfl⟩
  exact ⟨_, called, back, rfl, stepped, pc, steppedBack, landsBack.mpr callInside⟩

/-- A jump over the given number of instructions to a label at the end. -/
def jumpOver (count : Nat) : Listing :=
  .jump "far" :: (List.replicate count (.set (.register .a) (.literal 0)) ++ [.label "far"])

theorem exists_load_jumpOver (count : Nat) : ∃ image, load (jumpOver count) = .ok image ∧
    image.instructions[0]? = some (.basic .set (.register .pc) (.label "far")) ∧
      image.labelIndex? "far" = some (1 + count) := by
  let filling : Listing := List.replicate count (.set (.register .a) (.literal 0))
  have bodies : filling.instructions = List.replicate count (.basic .set (.register .a) (.literal 0)) :=
    List.filterMap_replicate_of_some rfl
  have span : filling.span = count := by
    rw [Listing.span, bodies, List.length_replicate]
  have labels : (jumpOver count).labels = ["far"] := by
    have none : filling.filterMap Line.label? = [] := List.filterMap_replicate_of_none rfl
    change List.filterMap Line.label? (.jump "far" :: (filling ++ [.label "far"])) = _
    rw [List.filterMap_cons_none rfl, List.filterMap_append, none]
    rfl
  have instructions : (jumpOver count).instructions =
      .basic .set (.register .pc) (.label "far") :: filling.instructions := by
    have behind : List.filterMap Line.instruction? (filling ++ [.label "far"]) = filling.instructions ++ [] :=
      List.filterMap_append
    exact congrArg (List.cons _) (behind.trans (List.append_nil _))
  have covered : ∀ body ∈ (jumpOver count).instructions, ∀ name, .label name ∈ body.operands → name ∈ ["far"] := by
    rw [instructions, bodies, List.forall_mem_cons]
    refine ⟨by simp [Instruction.operands], fun body member => ?_⟩
    rw [List.eq_of_mem_replicate member]
    simp [Instruction.operands]
  obtain ⟨image, loaded, ⟨fetched, behind⟩, _⟩ := load_of_labels (by simp [labels]) (labels ▸ covered)
  obtain ⟨stands, _⟩ := ((holds_append image 1 filling [.label "far"]).mp behind).2
  exact ⟨image, loaded, fetched, span ▸ stands⟩

/-- A label behind 65536 instructions is out of reach: the jump to it goes to the beginning of the program. -/
theorem jump_to_far_label_goes_astray : ∃ image after, load (jumpOver 65535) = .ok image ∧
    image.labelIndex? "far" = some 65536 ∧ image.step .start = .ok () after ∧ after.pc = 0 := by
  obtain ⟨image, loaded, fetched, stands⟩ := exists_load_jumpOver 65535
  obtain ⟨after, stepped, pc⟩ := step_goal (show Machine.start.halted = false from rfl) fetched rfl stands
  exact ⟨image, after, loaded, stands, stepped, pc⟩

end Image

end Dcpu
