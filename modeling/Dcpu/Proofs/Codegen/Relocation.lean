import Dcpu.Proofs.Codegen.Twins
import Dcpu.Proofs.Slots.Relocation

/-! # Code for another range of variables

The code of a program does not depend on where its variables live, nor on how much room they leave: with
another range that is as large, the program compiles to the same lines, in which each address of the range
has moved along with it.
-/

namespace Dcpu

open Source Effects

namespace Relocation

/-- Compiling for the first range beside compiling for the second. -/
def twin (relocation : Relocation) : Twin where
  wording := .same
  address := relocation.place
  slots := Slots.relocated relocation
  slot := relocation.Has
  blames := rfl
  acquire := by
    apply (Slots.acquire_relocated relocation).imp
    rintro address _ ⟨has, rfl⟩
    exact ⟨has, has.place_eq.symm⟩
  release := by
    rintro slots _ address ⟨housed, rfl⟩ has
    rw [has.place_eq]
    exact ⟨housed.of_frame rfl rfl rfl rfl List.erase_subset, slots.release_moved address⟩
  openChild := Slots.openChild_relocated relocation
  close := Slots.close_relocated relocation
  special := by
    rintro slots _ ⟨housed, rfl⟩ name
    change (if Slots.isScreen name then some slots.screen else none) = _
    rw [Slots.special?]
    split
    · exact congrArg some (if_neg housed.screen).symm
    · rfl
  resolve name scope _ := by
    apply (Slots.resolve_relocated relocation name scope).imp
    rintro binding _ ⟨has, rfl⟩
    exact has.place_eq.symm

end Relocation

/-- Settings are valid when their range is not empty and the screen lies outside. -/
theorem Settings.validate_eq_ok_iff {settings : Settings} : settings.validate = .ok () ↔
    settings.first ≤ settings.last ∧
      ¬ (settings.first ≤ settings.screen ∧ settings.screen ≤ settings.last) := by
  rw [validate]
  split
  case isTrue reversed => simp [UInt16.not_le.mpr reversed]
  case isFalse ordered =>
    split
    case isTrue inside => simp [inside]
    case isFalse outside => simp [UInt16.not_lt.mp ordered, outside]

/-- Where an address of the range of settings is in the range of others. -/
def Settings.relocate (settings other : Settings) (address : Word) : Word :=
  if settings.first ≤ address ∧ address ≤ settings.last then address - settings.first + other.first
  else address

/-- With valid settings a program compiles as in a context that is new. -/
theorem result_compileProgram {settings : Settings} (valid : settings.validate = .ok ()) (program : Program) :
    (compileProgram settings program).result =
      ((Context.new settings).compile settings.haltLoop program).result := by
  rw [compileProgram, valid]
  dsimp only
  split <;> simp [*]

theorem CompileError.blamedOn_id (error : CompileError) : error.blamedOn id = error := by
  cases error <;> rfl

/-- A program that compiles for one range of variables compiles for any other with as much room, to the same
lines with each address of the range moved along. A program that does not fails in the same way, unless it was
the room that was missing. -/
theorem compileProgram_relocates {settings other : Settings} (valid : settings.validate = .ok ())
    (otherValid : other.validate = .ok ()) (screen : other.screen = settings.screen)
    (haltLoop : other.haltLoop = settings.haltLoop)
    (room : settings.last - settings.first ≤ other.last - other.first) (program : Program) :
    (∀ listing, (compileProgram settings program).result = .ok listing →
      (compileProgram other program).result = .ok (listing.readdressed (settings.relocate other))) ∧
    ∀ error, (compileProgram settings program).result = .error error →
      (∃ position, error = .slots .memoryExhausted position) ∨
        (compileProgram other program).result = .error error := by
  obtain ⟨ordered, outside⟩ := Settings.validate_eq_ok_iff.mp valid
  obtain ⟨newOrdered, _⟩ := Settings.validate_eq_ok_iff.mp otherValid
  let relocation : Relocation :=
    ⟨settings.first, settings.last, other.first, other.last, ordered, newOrdered, room⟩
  have alike : (Slots.relocated relocation).alike (Context.new settings).slots (Context.new other).slots := by
    simpa only [Context.new, screen] using Slots.new_relocated relocation outside
  have ended := relocation.twin.compile_result alike rfl settings.haltLoop program
  have unworded : rewordedIn relocation.twin.wording program = program := rewordedIn_same program
  rw [unworded] at ended
  rw [result_compileProgram valid, result_compileProgram otherValid, haltLoop]
  cases compiled : ((Context.new settings).compile settings.haltLoop program).result with
  | ok listing =>
    rw [compiled] at ended
    constructor
    · rintro _ ⟨⟩
      exact ended
    · rintro _ ⟨⟩
  | error error =>
    rw [compiled] at ended
    constructor
    · rintro _ ⟨⟩
    · rintro _ ⟨⟩
      obtain ⟨_, position, rfl, rfl⟩ | failed := ended
      · exact .inl ⟨position, rfl⟩
      · exact .inr (failed.trans (congrArg _ error.blamedOn_id))

/-- A program whose last variable takes the address over that a variable of its loop gave back. -/
def handover : Program :=
  [.whileLoop ⟨1, 1⟩ (.name ⟨1, 8⟩ "x") [.assign ⟨1, 15⟩ [.name ⟨1, 13⟩ "y"] (.name ⟨1, 17⟩ "screen")],
    .assign ⟨2, 3⟩ [.name ⟨2, 1⟩ "z"] (.name ⟨2, 5⟩ "x")]

/-- The code of the program, by the addresses of its first variable, of intermediate results and of the other
variables. -/
def handoverCode (x kept taken : Word) : Listing :=
  [.label "loop1start", .set .a (.memory x), .basic .ifn .a (.literal 1), .jump "loop1end",
    .set .a (.memory 0x8000), .set (.memory kept) .a, .set .a (.address taken), .set .atA (.memory kept),
    .jump "loop1start", .label "loop1end",
    .set .a (.memory x), .set (.memory kept) .a, .set .a (.address taken), .set .atA (.memory kept),
    .label "end", .jump "end"]

/-- The first range has no room to spare, and the second overlaps it. -/
theorem compileProgram_relocates_handover :
    (compileProgram ⟨0x10, 0x12, 0x8000, true⟩ handover).result = .ok (handoverCode 0x10 0x11 0x12) ∧
      (compileProgram ⟨0x12, 0x15, 0x8000, true⟩ handover).result = .ok (handoverCode 0x12 0x13 0x14) := by
  have compiled : (compileProgram ⟨0x10, 0x12, 0x8000, true⟩ handover).result =
      .ok (handoverCode 0x10 0x11 0x12) := by decide +kernel
  have relocates := @compileProgram_relocates ⟨0x10, 0x12, 0x8000, true⟩ ⟨0x12, 0x15, 0x8000, true⟩
    rfl rfl rfl rfl (by decide) handover
  exact ⟨compiled, relocates.1 _ compiled⟩

end Dcpu
