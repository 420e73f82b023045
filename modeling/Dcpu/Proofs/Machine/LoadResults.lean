import Dcpu.Proofs.Machine.Loading
import Mathlib.Data.List.Induction

/-! # What loading a listing results in

Loading takes the labels first and the uses of labels then. So the first label that is defined again is
reported before any label that is missing, and of these the one that is used first. Without either, the
program is the instructions of the listing, and each label stands for the number of them before it.
-/

namespace Dcpu

namespace Image

variable {listing : Listing} {image : Image} {error : MachineError}

/-- Lines that are loaded define exactly their labels. -/
theorem isSome_labelIndex?_iff (loaded : listing.foldlM addLine empty = .ok image) (name : String) :
    (image.labelIndex? name).isSome ↔ name ∈ listing.labels := by
  obtain ⟨distinct, fresh⟩ := labels_of_loaded loaded
  obtain ⟨_, same, loads⟩ := exists_loads distinct fresh
  cases loaded.symm.trans same
  simpa [empty, labelIndex?] using loads.defined name

/-- A line is refused only for a label that is defined already. -/
theorem addLine_eq_error {line : Line} (refused : image.addLine line = .error error) :
    ∃ name, line = .label name ∧ (image.labelIndex? name).isSome ∧ error = .duplicateLabel name := by
  cases line with
  | instruction body => cases refused
  | label name =>
    rw [addLine] at refused
    split at refused
    case isTrue known =>
      cases refused
      exact ⟨name, rfl, known, rfl⟩
    case isFalse => cases refused

/-- Lines are refused for the first label among them that an earlier one has defined. -/
theorem foldlM_addLine_eq_error (refused : listing.foldlM addLine empty = .error error) :
    ∃ (first : Listing) (name : String) (rest : Listing), listing = first ++ .label name :: rest ∧
      first.labels.Nodup ∧ name ∈ first.labels ∧ error = .duplicateLabel name := by
  induction listing using List.reverseRecOn with
  | nil => cases refused
  | append_singleton lines line ih =>
    rw [List.foldlM_append] at refused
    cases loaded : lines.foldlM addLine empty with
    | error earlier =>
      rw [loaded] at refused
      cases refused
      obtain ⟨first, name, rest, rfl, distinct, again, rfl⟩ := ih loaded
      exact ⟨first, name, rest ++ [line], by simp, distinct, again, rfl⟩
    | ok image =>
      have last : image.addLine line = .error error := by
        simp only [loaded, List.foldlM_cons, List.foldlM_nil, bind_pure] at refused
        exact refused
      obtain ⟨name, rfl, known, rfl⟩ := addLine_eq_error last
      exact ⟨lines, name, [], rfl, (labels_of_loaded loaded).1,
        (isSome_labelIndex?_iff loaded name).mp known, rfl⟩

/-- The label that is missing is the first of those named that is not defined. -/
theorem undefined?_eq_find? (instructions : image.instructions.toList = listing.instructions) :
    image.undefined? = listing.targets.find? fun name => (image.labelIndex? name).isNone := by
  rw [undefined?, instructions, Listing.targets, List.find?_flatMap]

/-- A listing is refused for the first label that is defined again. If there is none, it is refused for the
first label that is named but not defined. -/
theorem load_eq_error (refused : load listing = .error error) :
    (∃ (first : Listing) (name : String) (rest : Listing), listing = first ++ .label name :: rest ∧
      first.labels.Nodup ∧ name ∈ first.labels ∧ error = .duplicateLabel name) ∨
    listing.labels.Nodup ∧ ∃ earlier name later, listing.targets = earlier ++ name :: later ∧
      (∀ other ∈ earlier, other ∈ listing.labels) ∧ name ∉ listing.labels ∧ error = .unknownLabel name := by
  rw [load] at refused
  cases folded : listing.foldlM addLine empty with
  | error earlier =>
    rw [folded] at refused
    cases refused
    exact .inl (foldlM_addLine_eq_error folded)
  | ok image =>
    right
    obtain ⟨distinct, fresh⟩ := labels_of_loaded folded
    obtain ⟨_, same, loads⟩ := exists_loads distinct fresh
    cases folded.symm.trans same
    simp only [folded, bind, Except.bind, undefined?_eq_find? loads.instructions_eq] at refused
    split at refused
    case h_1 name missing =>
      cases refused
      obtain ⟨undefined, earlier, later, splits, defined⟩ := List.find?_eq_some_iff_append.mp missing
      refine ⟨distinct, earlier, name, later, splits, fun other member => ?_, fun member => ?_, rfl⟩
      · rw [← isSome_labelIndex?_iff folded]
        simpa [Option.isSome_iff_ne_none] using defined other member
      · rw [← isSome_labelIndex?_iff folded] at member
        simp [Option.isNone_iff_eq_none.mp undefined] at member
    case h_2 => cases refused

/-- A label of a loaded program stands for the number of instructions before its line. -/
theorem labelIndex?_eq_some_iff (loaded : load listing = .ok image) {name : String} {index : Nat} :
    image.labelIndex? name = some index ↔
      ∃ first rest : Listing, listing = first ++ .label name :: rest ∧ index = first.span := by
  obtain ⟨_, loads, _⟩ := load_eq_ok loaded
  have stands {first rest : Listing} (whole : listing = first ++ .label name :: rest) :
      image.labelIndex? name = some first.span := by
    subst whole
    have holds := ((holds_append image _ first _).mp loads.holds).2.1
    simpa [empty] using holds
  constructor
  · intro found
    have isDefined : name ∈ listing.labels := by
      simpa [empty, labelIndex?] using (loads.defined name).mp (found ▸ rfl)
    obtain ⟨line, isLine, isLabel⟩ := List.mem_filterMap.mp isDefined
    obtain ⟨first, rest, whole⟩ := List.append_of_mem isLine
    cases line with
    | instruction body => cases isLabel
    | label other =>
      cases isLabel
      exact ⟨first, rest, whole, Option.some.inj (found.symm.trans (stands whole))⟩
  · rintro ⟨first, rest, whole, rfl⟩
    exact stands whole

/-- A listing is loaded exactly if its labels are distinct and cover those that its instructions name. The
program is then its instructions, and a label stands for the number of them before its line. Otherwise the
message names the first label line that repeats an earlier one or, if none does, the first label that is named
but not defined, the destination of an instruction before its source. -/
theorem load_is_exact (listing : Listing) :
    ((∃ image, load listing = .ok image) ↔
      listing.labels.Nodup ∧ ∀ name ∈ listing.targets, name ∈ listing.labels) ∧
    (∀ image, load listing = .ok image → image.instructions.toList = listing.instructions ∧
      ∀ name index, image.labelIndex? name = some index ↔
        ∃ first rest : Listing, listing = first ++ .label name :: rest ∧ index = first.span) ∧
    ∀ error, load listing = .error error →
      (∃ (first : Listing) (name : String) (rest : Listing), listing = first ++ .label name :: rest ∧
        first.labels.Nodup ∧ name ∈ first.labels ∧ error.message = s!"Duplicate label '{name}'") ∨
      listing.labels.Nodup ∧ ∃ earlier name later, listing.targets = earlier ++ name :: later ∧
        (∀ other ∈ earlier, other ∈ listing.labels) ∧ name ∉ listing.labels ∧
        error.message = s!"Unknown label '{name}'" := by
  refine ⟨exists_load_iff listing, fun image loaded => ?_, fun error refused => ?_⟩
  · exact ⟨(load_eq_ok loaded).2.1.instructions_eq, fun name index => labelIndex?_eq_some_iff loaded⟩
  · obtain ⟨first, name, rest, whole, distinct, again, rfl⟩ |
      ⟨distinct, earlier, name, later, splits, defined, missing, rfl⟩ := load_eq_error refused
    · exact .inl ⟨first, name, rest, whole, distinct, again, rfl⟩
    · exact .inr ⟨distinct, earlier, name, later, splits, defined, missing, rfl⟩

/-- Two labels on one instruction, which names the second of them and a label at the end. -/
def labelledTest : Listing :=
  [.label "a", .label "b", .basic .ife (.label "c") (.label "b"), .label "c"]

theorem load_is_exact_labelledTest : ∃ image, load labelledTest = .ok image ∧
    image.instructions.toList = [.basic .ife (.label "c") (.label "b")] ∧ image.labelIndex? "c" = some 1 := by
  obtain ⟨loads, program, _⟩ := load_is_exact labelledTest
  obtain ⟨image, loaded⟩ := loads.mpr (by decide)
  obtain ⟨instructions, labels⟩ := program image loaded
  exact ⟨image, loaded, instructions, (labels "c" 1).mpr ⟨labelledTest.take 3, [], rfl, rfl⟩⟩

end Image

end Dcpu
