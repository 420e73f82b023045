import Dcpu.Codegen.Routine
import Dcpu.Proofs.Listing.RoundTrip

/-! # Names that are free for routines

The name of a routine is printed as a label and as the operand of calls, and is to be read back. It is vetted by
being read as an operand, for which the blanks around it do not count. A name is therefore accepted exactly if it
is read back without these blanks, and one with blanks around it is read back as another one.
-/

namespace Dcpu

open Text

def unpadded (name : String) : String :=
  String.ofList (trim name.toList)

/-- Whether a name is read back from the line that defines it and from the line that calls it. -/
structure ReadsBack (name : String) : Prop where
  defined : Listing.read (Listing.text [.label name]) = .ok [.label name]
  called : Listing.read (Listing.text [.jsr name]) = .ok [.jsr name]

theorem readsBack_iff {name : String} : ReadsBack name ↔ Operand.IsLabelText name.toList := by
  constructor
  · intro reads
    exact Listing.isLegible_of_read reads.called (.jsr name) (List.mem_singleton_self _)
  · intro isLabel
    exact ⟨Listing.read_text (List.forall_mem_singleton.mpr (Line.isLegible_label isLabel)),
      Listing.read_text (List.forall_mem_singleton.mpr isLabel)⟩

/-- A name without the blanks around it reads back exactly when what is left has the form of a label. -/
theorem readsBack_unpadded_iff {name : String} :
    ReadsBack (unpadded name) ↔ Operand.IsLabelText (trim name.toList) := by
  rw [readsBack_iff, unpadded, String.toList_ofList]

/-- A name is accepted exactly if it is read back without the blanks around it and looks like no generated
label. -/
theorem nameClash?_eq_none_iff {name : String} :
    nameClash? name = none ↔ Tag.isGenerated name = false ∧ ReadsBack (unpadded name) := by
  rw [readsBack_unpadded_iff, nameClash?]
  constructor
  · intro free
    split at free
    case h_1 label reads =>
      split at free
      case isTrue => cases free
      case isFalse ordinary =>
        exact ⟨Bool.eq_false_iff.mpr ordinary, (Operand.readTrimmed_eq_label_iff.mp reads).1⟩
    all_goals cases free
  · rintro ⟨ordinary, isLabel⟩
    have reads : Operand.read name.toList = .ok (.label (unpadded name)) :=
      Operand.readTrimmed_eq_label_iff.mpr ⟨isLabel, rfl⟩
    simp [reads, ordinary]

/-- A name that is read back has no blanks around it. -/
theorem readsBack_iff_unpadded {name : String} :
    ReadsBack name ↔ ReadsBack (unpadded name) ∧ unpadded name = name := by
  constructor
  · intro reads
    have isLabel := readsBack_iff.mp reads
    have same : unpadded name = name := by
      rw [unpadded, trim_of_unblank fun c member => isBlank_of_isNamePart (isLabel.parts c member),
        String.ofList_toList]
    exact ⟨same.symm ▸ reads, same⟩
  · rintro ⟨reads, same⟩
    exact same ▸ reads

namespace Listing

/-- A line that ends with a name, behind a mark and a gap, is read as that of the name without the blanks around it.
Only a line feed before the name is in the way, which leaves the mark alone in its line. -/
theorem read_padded_iff {mark gap text : List Char} {line : Line} {error : LineError} {listing : Listing}
    (alone : Line.readTrimmed mark = .error error) (nonempty : mark ≠ []) (trimmed : trim mark = mark)
    (inner : ∀ c ∈ mark, Line.isInner c = true) (gapPadding : IsPadding gap) (legible : line.IsLegible)
    (formatted : ∀ left, IsPadding left → line.Formatted (mark ++ (gap ++ left) ++ trim text)) :
    read (String.ofList (mark ++ gap ++ text)) = .ok listing ↔
      listing = [line] ∧ '\n' ∉ text.takeWhile isBlank := by
  obtain ⟨right, rightBlank, whole⟩ := exists_blanks_trim text
  have leftBlank (c : Char) (member : c ∈ text.takeWhile isBlank) : isBlank c = true :=
    List.mem_takeWhile_imp member
  generalize text.takeWhile isBlank = left at leftBlank whole ⊢
  generalize trim text = core at formatted whole
  subst whole
  by_cases broken : '\n' ∈ left
  · obtain ⟨before, behind, rfl, unbroken⟩ := List.eq_append_cons_of_mem broken
    have padding : IsPadding (gap ++ before) := by
      refine List.forall_mem_append.mpr ⟨gapPadding, fun c member => ⟨leftBlank c (by simp [member]), ?_⟩⟩
      rintro rfl
      exact unbroken member
    have isInner : ∀ c ∈ mark ++ (gap ++ before), Line.isInner c = true :=
      List.forall_mem_append.mpr ⟨inner, Line.isInner_of_isPadding padding⟩
    have isCode : code (mark ++ (gap ++ before)) = mark := by
      have cut : code (mark ++ (gap ++ before) ++ []) = trim ([] ++ mark ++ (gap ++ before)) :=
        code_append isInner (.inl rfl)
      rwa [List.append_nil, trim_padded (by simp) padding.blank trimmed] at cut
    have split : mark ++ gap ++ (before ++ '\n' :: behind ++ core ++ right) =
        (mark ++ (gap ++ before)) ++ '\n' :: (behind ++ core ++ right) := by
      simp
    rw [split, read, String.toList_ofList, splitLines_append (not_mem_of_isInner isInner), readLines, isCode,
      if_neg (by simpa using nonempty), alone]
    simp
  · have padding : IsPadding left := by
      refine fun c member => ⟨leftBlank c member, ?_⟩
      rintro rfl
      exact broken member
    have isRow : Row [line] (mark ++ (gap ++ left) ++ core) := by
      simpa using Row.line isPadding_nil (formatted left padding) isPadding_nil (.inl rfl)
    have split : mark ++ gap ++ (left ++ core ++ right) = mark ++ (gap ++ left) ++ core ++ right := by simp
    rw [split, read_of_formatted (List.forall_mem_singleton.mpr legible)
      (Formatted.append_blank isRow rightBlank)]
    simp [broken, eq_comm]

end Listing

/-- The lines of an accepted name are read, unless a line feed stands before it, as those of the name without the
blanks around it. -/
theorem read_text_of_free {name : String} (free : nameClash? name = none) (listing : Listing) :
    (Listing.read (Listing.text [.label name]) = .ok listing ↔
      listing = [.label (unpadded name)] ∧ '\n' ∉ name.toList.takeWhile isBlank) ∧
    (Listing.read (Listing.text [.jsr name]) = .ok listing ↔
      listing = [.jsr (unpadded name)] ∧ '\n' ∉ name.toList.takeWhile isBlank) := by
  have isLabel : Operand.IsLabelText (unpadded name).toList :=
    readsBack_iff.mp (nameClash?_eq_none_iff.mp free).2
  have core : (unpadded name).toList = trim name.toList := String.toList_ofList
  have space : IsPadding [' '] := List.forall_mem_singleton.mpr (by decide)
  have label : Listing.text [.label name] = String.ofList ([':'] ++ [] ++ name.toList) := by
    rw [← String.toList_inj, String.toList_ofList]
    exact Line.toList_text_label name
  have jsr : Listing.text [.jsr name] = String.ofList ("jsr".toList ++ [' '] ++ name.toList) := by
    rw [← String.toList_inj, String.toList_ofList, List.append_assoc]
    exact Line.toList_text_jsr (.label name)
  have colonAlone : Line.readTrimmed [':'] = .error .emptyLabel := by decide
  have jsrAlone : Line.readTrimmed "jsr".toList = .error (.operand .empty) := by decide
  rw [label, jsr]
  constructor
  · refine Listing.read_padded_iff colonAlone (by decide) (by decide) (List.all_eq_true.mp (by decide)) isPadding_nil
      (Line.isLegible_label isLabel) fun left padding => ?_
    rw [← core]
    exact Line.Formatted.label padding
  · refine Listing.read_padded_iff jsrAlone (by decide) (by decide) (List.all_eq_true.mp (by decide)) space isLabel
      fun left padding => ?_
    rw [← core]
    exact .jsr (isCaseOf_self _) (by simp) (List.forall_mem_append.mpr ⟨space, padding⟩) .label

/-- Vetting ignores the blanks around a name: it accepts what looks like no generated label and is read back without
them. An accepted name is read back itself exactly if there are none. Otherwise its lines are read as those of the
name without them, if at all, so that accepted names with one label differ only in the blanks around them. -/
theorem name_vetting_ignores_blanks (name : String) :
    (nameClash? name = none ↔ Tag.isGenerated name = false ∧ ReadsBack (unpadded name)) ∧
    (Tag.isGenerated name = false ∧ ReadsBack name ↔ nameClash? name = none ∧ unpadded name = name) ∧
    (nameClash? name = none → ∀ listing,
      (Listing.read (Listing.text [.label name]) = .ok listing ↔
        listing = [.label (unpadded name)] ∧ '\n' ∉ name.toList.takeWhile isBlank) ∧
      (Listing.read (Listing.text [.jsr name]) = .ok listing ↔
        listing = [.jsr (unpadded name)] ∧ '\n' ∉ name.toList.takeWhile isBlank)) ∧
    ∀ other listing, nameClash? name = none → nameClash? other = none →
      Listing.read (Listing.text [.label name]) = .ok listing →
      Listing.read (Listing.text [.label other]) = .ok listing → unpadded name = unpadded other := by
  refine ⟨nameClash?_eq_none_iff, ?_, read_text_of_free, ?_⟩
  · rw [nameClash?_eq_none_iff, readsBack_iff_unpadded, and_assoc]
  · intro other listing free otherFree reads otherReads
    have first := ((read_text_of_free free listing).1.mp reads).1
    have second := ((read_text_of_free otherFree listing).1.mp otherReads).1
    simpa using first.symm.trans second

/-- A name with blanks of several kinds around it, behind which there is a line feed. -/
theorem name_vetting_ignores_blanks_padded :
    nameClash? "\t f \n" = none ∧ unpadded "\t f \n" = "f" ∧
      Listing.read (Listing.text [.label "\t f \n"]) = .ok [.label "f"] ∧
      Listing.read (Listing.text [.jsr "\t f \n"]) = .ok [.jsr "f"] := by
  have free : nameClash? "\t f \n" = none := by decide +kernel
  have core : unpadded "\t f \n" = "f" := by decide +kernel
  have reads := (name_vetting_ignores_blanks "\t f \n").2.2.1 free
  rw [core] at reads
  exact ⟨free, core, (reads _).1.mpr ⟨rfl, by decide +kernel⟩, (reads _).2.mpr ⟨rfl, by decide +kernel⟩⟩

/-- A blank before a name is accepted and not read back: the name is taken for the one without the blank, which is
accepted too, or is a generated label. -/
theorem padded_name_is_not_read_back :
    nameClash? " f" = none ∧ Tag.isGenerated " f" = false ∧ ¬ ReadsBack " f" ∧
    nameClash? "f" = none ∧
    Listing.read (Listing.text [.label " f"]) = Listing.read (Listing.text [.label "f"]) ∧
    nameClash? " if1else" = none ∧
    Listing.read (Listing.text [.label " if1else"]) = .ok [.label "if1else"] ∧
    Tag.isGenerated "if1else" = true := by
  refine ⟨by decide +kernel, by decide +kernel, ?_, by decide +kernel, by decide +kernel, by decide +kernel,
    by decide +kernel, by decide +kernel⟩
  intro reads
  exact absurd reads.defined (by decide +kernel)

end Dcpu
