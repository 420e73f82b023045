import Dcpu.Proofs.Codegen.Loadable
import Dcpu.Proofs.Listing.Printing

/-! # Compiled programs survive printing

Routines, generated labels and the end of the program are all written as labels and read as such: the
names of routines because those that are not are refused, generated labels because they begin with a
letter and are longer than the names of registers. The text of a compiled program is therefore read as
the program itself.
-/

namespace Dcpu

open Source Text

namespace Tag

/-- A generated label is read as a label. -/
theorem isLabelText_of_isGenerated {name : String} (generated : isGenerated name = true) :
    Operand.IsLabelText name.toList := by
  obtain ⟨form, isForm, digits, nonempty, allDigits, ending, isEnding, letters⟩ :=
    exists_form_of_isGenerated generated
  have stems : ∀ form ∈ forms, 2 ≤ form.1.toList.length ∧
      form.1.toList.head?.map (isDigit 10) ≠ some true ∧
      form.1.toList.head?.map Char.toUpper ≠ some 'P' := by decide
  have parts : ∀ form ∈ forms, ∀ text ∈ form.1 :: form.2, text.toList.all isNamePart = true := by
    decide +kernel
  obtain ⟨long, noDigit, noStack⟩ := stems form isForm
  have allParts (c : Char) (member : c ∈ name.toList) : isNamePart c = true := by
    rw [letters, List.mem_append, List.mem_append] at member
    obtain member | member | member := member
    · exact List.all_eq_true.mp (parts form isForm form.1 (List.mem_cons_self ..)) c member
    · exact isNamePart_of_isDigit (allDigits c member)
    · exact List.all_eq_true.mp (parts form isForm ending (List.mem_cons_of_mem _ isEnding)) c member
  cases stem : form.1.toList with
  | nil => simp [stem] at long
  | cons c rest =>
    rw [stem] at long noDigit noStack
    rw [letters, stem, List.cons_append] at allParts ⊢
    have numbered := List.length_pos_iff.mpr nonempty
    -- a stem may begin like a register, but with a digit behind it is too long for one
    apply Operand.isLabelText_of_head (by simpa using noDigit) (by simpa using noStack)
    · simp only [List.length_append, List.length_cons] at long ⊢
      omega
    · exact allParts

end Tag

/-- The name of a routine is read as a label. -/
theorem isLabelText_of_nameClash? {name : String} (vetted : nameClash? name = none)
    (parts : ∀ c ∈ name.toList, isNamePart c = true) : Operand.IsLabelText name.toList := by
  have trimmed : trim name.toList = name.toList :=
    trim_of_unblank fun c member => isBlank_of_isNamePart (parts c member)
  -- the name check reads a trimmed name, the listing the name as it is
  rw [nameClash?, Operand.read, trimmed] at vetted
  split at vetted
  case h_1 reads => exact (Operand.readTrimmed_eq_label_iff.mp reads).1
  all_goals cases vetted

theorem isLabelText_endLabel : Operand.IsLabelText endLabel.toList :=
  Operand.isLabelText_of_head (by decide) (by decide) (by decide)
    (List.all_eq_true.mp (by decide +kernel))

namespace Listing

variable {listing : Listing}

/-- A listing is legible if all labels that it defines and names are. -/
theorem isLegible_of_labels (defined : ∀ name ∈ listing.labels, Operand.IsLabelText name.toList)
    (named : ∀ name ∈ listing.targets, Operand.IsLabelText name.toList) : listing.IsLegible := by
  intro line member
  cases line with
  | label name => exact Line.isLegible_label (defined name (List.mem_filterMap.mpr ⟨_, member, rfl⟩))
  | instruction body =>
    have legible (operand : Operand) (isOperand : operand ∈ body.operands) : operand.IsLegible := by
      cases operand with
      | label name =>
        refine named name (List.mem_flatMap.mpr ⟨body, ?_, ?_⟩)
        · exact List.mem_filterMap.mpr ⟨_, member, rfl⟩
        · exact List.mem_filterMap.mpr ⟨_, isOperand, rfl⟩
      | _ => trivial
    cases body with
    | basic op b a => exact ⟨legible b (.head _), legible a (.tail _ (.head _))⟩
    | jsr target => exact legible target (.head _)

/-- A compiled listing is legible. -/
theorem Compiled.isLegible {haltLoop : Bool} {program : Program} {generated : List String}
    (compiled : listing.Compiled haltLoop program generated) : listing.IsLegible := by
  have defined (name : String) (member : name ∈ listing.labels) : Operand.IsLabelText name.toList := by
    obtain ⟨high, linked⟩ := compiled.linked
    obtain isRoutine | isHalt | isGenerated := (compiled.mem_labels name).mp member
    · exact isLabelText_of_nameClash? (compiled.vetted name isRoutine) (compiled.legible name isRoutine)
    · rw [(mem_haltLabels.mp isHalt).1]
      exact isLabelText_endLabel
    · exact Tag.isLabelText_of_isGenerated (linked.drawn name isGenerated).1
  refine isLegible_of_labels defined fun name member => ?_
  obtain isDefined | ⟨rfl, _⟩ := compiled.target_defined member
  · exact defined name isDefined
  · exact isLabelText_endLabel

end Listing

/-- The text of a compiled listing is read as the listing, and to load the one is to load the other. -/
theorem compiled_source_survives_printing {settings : Settings} {source : String} {listing : Listing}
    (compiled : (compile settings source).result = .ok listing) :
    Listing.read listing.text = .ok listing ∧ Image.assemble listing.text = Image.load listing := by
  obtain ⟨program, generated, _, compiled⟩ := compile_compiled compiled
  have reads := Listing.read_text compiled.isLegible
  refine ⟨reads, ?_⟩
  rw [Image.assemble, reads]
  rfl

/-- The code of a routine with a name that is not in ASCII, whose conditional has a comparison of two stages, and of
a call of it. -/
def unicodeRoutine : Listing :=
  [ .label "straße",
    .set .a (.literal 1), .set (.memory 0x2000) .a, .set .a (.memory 0x2002), .set (.memory 0x2001) .a,
    .set .a (.literal 0), .basic .ifl (.memory 0x2000) (.memory 0x2001), .set .a (.literal 1),
    .basic .ife .a (.literal 0), .jump "compare2done",
    .set (.memory 0x2000) (.memory 0x2001), .set .a (.literal 3), .set (.memory 0x2001) .a,
    .set .a (.literal 0), .basic .ifl (.memory 0x2000) (.memory 0x2001), .set .a (.literal 1),
    .label "compare2done", .basic .ifn .a (.literal 1), .jump "if1else", .jump "end", .jump "if1end",
    .label "if1else", .label "if1end", .ret, .jsr "straße", .label "end", .jump "end" ]

/-- A program with generated labels of two kinds and a routine whose name has a letter that is not in
ASCII survives printing. -/
theorem unicode_routine_survives_printing :
    (compile {} "function straße() \x7b if (1 < x < 3) \x7b exit(); \x7d \x7d straße();").result =
        .ok unicodeRoutine ∧
      Listing.read unicodeRoutine.text = .ok unicodeRoutine ∧
      Image.assemble unicodeRoutine.text = Image.load unicodeRoutine := by
  have compiled : (compile {} "function straße() \x7b if (1 < x < 3) \x7b exit(); \x7d \x7d straße();").result =
      .ok unicodeRoutine := by decide +kernel
  exact ⟨compiled, compiled_source_survives_printing compiled⟩

end Dcpu
