import Dcpu.Machine.Image
import Dcpu.Proofs.Text.Numerals
import Dcpu.Tag
import Mathlib.Data.List.Basic
import Mathlib.Data.List.TakeWhile
import Mathlib.Tactic.Common

/-! # Generated labels tell their numbers

The stems and endings of generated labels hold no digits, so the digits of a label are those of its
number. Labels of different numbers are therefore different. A piece of code whose labels were drawn
between two counts of tags can be put behind one whose labels were drawn before.
-/

namespace Dcpu

namespace Tag

/-- The number that the digits of a label make up, which is zero for a label without digits. -/
def number (label : String) : Nat :=
  Nat.ofDigitChars 10 (label.toList.filter Char.isDigit) 0

/-- The number of a generated label can be read off its text. -/
theorem number_text_append {stem ending : String} (number : Nat)
    (stemPlain : stem.toList.filter Char.isDigit = [])
    (endingPlain : ending.toList.filter Char.isDigit = []) :
    Tag.number (text stem number ++ ending) = number := by
  have digits : (Nat.toDigits 10 number).filter Char.isDigit = Nat.toDigits 10 number :=
    List.filter_eq_self.mpr fun _ member => Nat.isDigit_of_mem_toDigits (by decide) (by decide) member
  simp [Tag.number, text, stemPlain, endingPlain, Nat.toString_eq_repr, digits]

@[simp] theorem number_alternative (number : Nat) :
    Tag.number (alternative (text conditional number)) = number :=
  number_text_append number (by decide) (by decide)

@[simp] theorem number_ending_conditional (number : Nat) :
    Tag.number (ending (text conditional number)) = number :=
  number_text_append number (by decide) (by decide)

@[simp] theorem number_ending_loop (number : Nat) :
    Tag.number (ending (text loop number)) = number :=
  number_text_append number (by decide) (by decide)

@[simp] theorem number_start (number : Nat) : Tag.number (start (text loop number)) = number :=
  number_text_append number (by decide) (by decide)

@[simp] theorem number_skip (number : Nat) : Tag.number (skip (text logical number)) = number :=
  number_text_append number (by decide) (by decide)

@[simp] theorem number_done (number : Nat) : Tag.number (done (text comparison number)) = number :=
  number_text_append number (by decide) (by decide)

theorem alternative_ne_ending (tag : String) : alternative tag ≠ ending tag := by
  intro same
  exact absurd ((String.append_right_inj tag).mp same) (by decide)

theorem start_ne_ending (tag : String) : start tag ≠ ending tag := by
  intro same
  exact absurd ((String.append_right_inj tag).mp same) (by decide)

/-- The labels that a form makes of the tags of a stem look generated and tell their numbers. -/
def Labels (stem : String) (form : String → String) : Prop :=
  ∀ number, isGenerated (form (text stem number)) = true ∧ Tag.number (form (text stem number)) = number

/-- A stem, digits, at least one, and an ending of the stem look generated. -/
theorem isGenerated_of_form {stem ending : String} {digits : List Char}
    (isForm : ∃ form ∈ forms, form.1 = stem ∧ ending ∈ form.2)
    (endingPlain : ending.toList.filter Char.isDigit = []) (nonempty : digits ≠ [])
    (allDigits : ∀ c ∈ digits, Text.isDigit 10 c = true) :
    isGenerated (stem ++ String.ofList digits ++ ending) = true := by
  obtain ⟨⟨_, endings⟩, member, rfl, isEnding⟩ := isForm
  have undigited : ending.toList.dropWhile (Text.isDigit 10) = ending.toList := by
    cases letters : ending.toList with
    | nil => rfl
    | cons c rest =>
      apply List.dropWhile_cons_of_neg
      rw [Text.isDigit_ten]
      exact List.filter_eq_nil_iff.mp endingPlain c (letters ▸ List.mem_cons_self ..)
  have behind : (digits ++ ending.toList).dropWhile (Text.isDigit 10) = ending.toList := by
    rw [List.dropWhile_append_of_pos allDigits, undigited]
  have some : 0 < digits.length := List.length_pos_iff.mpr nonempty
  have numbered : isNumbered endings (digits ++ ending.toList) = true := by
    simp [isNumbered, behind, isEnding, some]
  rw [isGenerated, List.any_eq_true]
  refine ⟨_, member, Option.any_eq_true _ _ |>.mpr ⟨_, ?_, numbered⟩⟩
  simp [List.append_assoc]

/-- A generated label is a stem, digits, at least one, and an ending of the stem. -/
theorem exists_form_of_isGenerated {name : String} (generated : isGenerated name = true) :
    ∃ form ∈ forms, ∃ digits, digits ≠ [] ∧ (∀ c ∈ digits, Text.isDigit 10 c = true) ∧
      ∃ ending ∈ form.2, name.toList = form.1.toList ++ (digits ++ ending.toList) := by
  rw [isGenerated, List.any_eq_true] at generated
  obtain ⟨form, isForm, matched⟩ := generated
  rw [Option.any_eq_true] at matched
  obtain ⟨behind, begins, numbered⟩ := matched
  rw [List.isPrefixOf?_eq_some_iff_append_eq] at begins
  rw [isNumbered, Bool.and_eq_true, decide_eq_true_eq, List.contains_iff_mem] at numbered
  obtain ⟨shorter, isEnding⟩ := numbered
  have whole : behind.takeWhile (Text.isDigit 10) ++ behind.dropWhile (Text.isDigit 10) = behind :=
    List.takeWhile_append_dropWhile
  refine ⟨form, isForm, behind.takeWhile (Text.isDigit 10), ?_, fun c => List.mem_takeWhile_imp, _,
    isEnding, ?_⟩
  · intro none
    rw [none, List.nil_append] at whole
    rw [whole] at shorter
    exact Nat.lt_irrefl _ shorter
  · rw [String.toList_ofList, whole, begins]

theorem labels_append {stem ending : String}
    (isForm : ∃ form ∈ forms, form.1 = stem ∧ ending ∈ form.2)
    (stemPlain : stem.toList.filter Char.isDigit = [])
    (endingPlain : ending.toList.filter Char.isDigit = []) : Labels stem (· ++ ending) := by
  intro number
  refine ⟨?_, number_text_append number stemPlain endingPlain⟩
  have generated := @isGenerated_of_form stem ending (Nat.toDigits 10 number) isForm endingPlain
    Nat.toDigits_ne_nil fun _ => Text.isDigit_of_mem_toDigits
  rwa [← Nat.repr_eq_ofList_toDigits, ← Nat.toString_eq_repr] at generated

theorem labels_alternative : Labels conditional alternative :=
  labels_append (by decide) (by decide) (by decide)

theorem labels_ending_conditional : Labels conditional ending :=
  labels_append (by decide) (by decide) (by decide)

theorem labels_start : Labels loop start :=
  labels_append (by decide) (by decide) (by decide)

theorem labels_ending_loop : Labels loop ending :=
  labels_append (by decide) (by decide) (by decide)

theorem labels_skip : Labels logical skip :=
  labels_append (by decide) (by decide) (by decide)

theorem labels_done : Labels comparison done :=
  labels_append (by decide) (by decide) (by decide)

end Tag

namespace Listing

/-- The labels that the instructions of code name. -/
def targets (code : Listing) : List String :=
  code.instructions.flatMap fun body => body.operands.filterMap Operand.label?

/-- The label lines of code have numbers above one count of tags and up to another, no two are
alike, and instructions name only them and the given labels outside. -/
structure Labelled (outside : List String) (low high : Nat) (code : Listing) : Prop where
  ordered : low ≤ high
  drawn : ∀ name ∈ code.labels, low < Tag.number name ∧ Tag.number name ≤ high
  distinct : code.labels.Nodup
  closed : ∀ name ∈ code.targets, name ∈ code.labels ∨ name ∈ outside

namespace Labelled

variable {outside : List String} {low middle high : Nat} {code first second : Listing}

/-- Labelled pieces of code with tags one behind the other are labelled together. -/
theorem append (before : Labelled outside low middle first)
    (behind : Labelled outside middle high second) : Labelled outside low high (first ++ second) := by
  have lines : labels (first ++ second) = labels first ++ labels second := by simp [labels]
  have named : targets (first ++ second) = targets first ++ targets second := by
    simp [targets, instructions]
  refine ⟨Nat.le_trans before.ordered behind.ordered, ?_, ?_, ?_⟩
  · intro name member
    rw [lines] at member
    have := before.ordered
    have := behind.ordered
    rcases List.mem_append.mp member with member | member
    · have := before.drawn name member
      omega
    · have := behind.drawn name member
      omega
  · rw [lines]
    refine List.nodup_append.mpr ⟨before.distinct, behind.distinct, ?_⟩
    rintro name member other otherMember rfl
    have := before.drawn name member
    have := behind.drawn name otherMember
    omega
  · intro name member
    rw [named] at member
    rw [lines, List.mem_append]
    rcases List.mem_append.mp member with member | member
    · rcases before.closed name member with inside | inside
      · exact .inl (.inl inside)
      · exact .inr inside
    · rcases behind.closed name member with inside | inside
      · exact .inl (.inr inside)
      · exact .inr inside

/-- Code without labels of its own. -/
theorem of_plain (low : Nat) (unlabelled : code.labels = [])
    (named : ∀ name ∈ code.targets, name ∈ outside) : Labelled outside low low code :=
  ⟨Nat.le_refl _, by simp [unlabelled], by simp [unlabelled], fun name member => .inr (named name member)⟩

/-- An instruction that names no label before other code. -/
theorem cons {body : Instruction} (labelled : Labelled outside low high code)
    (unnamed : targets [.instruction body] = []) :
    Labelled outside low high (.instruction body :: code) := by
  have alone : Labelled outside low low [.instruction body] := of_plain low rfl (by simp [unnamed])
  exact alone.append labelled

/-- A jump to a label outside before other code. -/
theorem jump {name : String} (labelled : Labelled outside low high code) (named : name ∈ outside) :
    Labelled outside low high (.jump name :: code) := by
  have goesThere : ∀ other ∈ targets [.jump name], other ∈ outside := by
    intro other member
    rw [List.mem_singleton.mp member]
    exact named
  have alone : Labelled outside low low [.jump name] := of_plain low rfl goesThere
  exact alone.append labelled

theorem nil (outside : List String) (low : Nat) : Labelled outside low low [] :=
  of_plain low rfl (fun _ member => absurd member List.not_mem_nil)

/-- A label with a number up to the lower count is none of the code. -/
theorem fresh (labelled : Labelled outside low high code) {name : String}
    (old : Tag.number name ≤ low) : name ∉ code.labels := fun member =>
  Nat.not_lt.mpr old (labelled.drawn name member).1

/-- Labelled code stays so with earlier tags allowed, and with more labels outside. -/
theorem weaken (labelled : Labelled outside middle high code) (lower : low ≤ middle)
    {further : List String} (more : ∀ name ∈ outside, name ∈ further) : Labelled further low high code :=
  ⟨Nat.le_trans lower labelled.ordered,
    fun name member => ⟨Nat.lt_of_le_of_lt lower (labelled.drawn name member).1,
      (labelled.drawn name member).2⟩,
    labelled.distinct, fun name member => (labelled.closed name member).imp_right (more name)⟩

theorem mem_labels_insert (name other : String) (first second : Listing) :
    other ∈ labels (first ++ .label name :: second) ↔ other = name ∨ other ∈ labels (first ++ second) := by
  simp only [labels, List.filterMap_append, List.filterMap_cons, Line.label?, List.mem_append,
    List.mem_cons]
  tauto

/-- A label that code names from outside is put into it. -/
theorem insert {name : String} (labelled : Labelled (name :: outside) low high (first ++ second))
    (fresh : name ∉ labels (first ++ second)) (above : low < Tag.number name)
    (below : Tag.number name ≤ high) : Labelled outside low high (first ++ .label name :: second) := by
  have lines : labels (first ++ .label name :: second) = labels first ++ name :: labels second := by
    simp [labels, Line.label?]
  have joined : labels (first ++ second) = labels first ++ labels second := by simp [labels]
  have named : targets (first ++ .label name :: second) = targets (first ++ second) := by
    simp [targets, instructions, List.filterMap_cons, Line.instruction?]
  have distinct := labelled.distinct
  rw [joined] at distinct fresh
  refine ⟨labelled.ordered, ?_, ?_, ?_⟩
  · intro other member
    rw [lines, List.mem_append, List.mem_cons] at member
    rcases member with member | rfl | member
    · exact labelled.drawn other (joined ▸ List.mem_append_left _ member)
    · exact ⟨above, below⟩
    · exact labelled.drawn other (joined ▸ List.mem_append_right _ member)
  · rw [lines]
    exact List.perm_middle.nodup_iff.mpr (List.nodup_cons.mpr ⟨fresh, distinct⟩)
  · intro other member
    rw [named] at member
    rw [lines, List.mem_append, List.mem_cons]
    rcases labelled.closed other member with inside | inside
    · rw [joined, List.mem_append] at inside
      rcases inside with inside | inside
      · exact .inl (.inl inside)
      · exact .inl (.inr (.inr inside))
    · rcases List.mem_cons.mp inside with rfl | inside
      · exact .inl (.inr (.inl rfl))
      · exact .inr inside

/-- A label that code names from outside is put behind it. -/
theorem close {name : String} (labelled : Labelled (name :: outside) low high code)
    (fresh : name ∉ code.labels) (above : low < Tag.number name) (below : Tag.number name ≤ high) :
    Labelled outside low high (code ++ [.label name]) := by
  have whole : code ++ [] = code := List.append_nil code
  exact insert (whole.symm ▸ labelled) (whole.symm ▸ fresh) above below

end Labelled

end Listing

end Dcpu
