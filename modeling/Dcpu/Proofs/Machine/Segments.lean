import Dcpu.Machine.Image
import Mathlib.Tactic.Common

/-! # Code in a loaded program

A piece of a listing sits in a loaded program from some instruction on. A listing whose labels are
distinct and cover the labels it uses is loaded, and then sits in the program from its start.
-/

namespace Dcpu

namespace Listing

def span (code : Listing) : Nat :=
  code.instructions.length

@[simp] theorem span_nil : span [] = 0 := rfl

@[simp] theorem span_label (name : String) (code : Listing) :
    span (.label name :: code) = span code := rfl

@[simp] theorem span_instruction (body : Instruction) (code : Listing) :
    span (.instruction body :: code) = span code + 1 := rfl

@[simp] theorem span_basic (op : Opcode) (b a : Operand) (code : Listing) :
    span (.basic op b a :: code) = span code + 1 := rfl

@[simp] theorem span_set (b a : Operand) (code : Listing) :
    span (.set b a :: code) = span code + 1 := rfl

@[simp] theorem span_jump (name : String) (code : Listing) :
    span (.jump name :: code) = span code + 1 := rfl

@[simp] theorem span_append (first second : Listing) :
    span (first ++ second) = span first + span second := by
  simp [span, instructions]

end Listing

namespace Image

/-- The lines sit in the image from the instruction with the given number on, and their labels stand
for where they are. -/
def Holds (image : Image) : Nat → Listing → Prop
  | _, [] => True
  | start, .label name :: code => image.labelIndex? name = some start ∧ image.Holds start code
  | start, .instruction body :: code =>
    image.instructions[start]? = some body ∧ image.Holds (start + 1) code

/-- An image holds two pieces of code when it holds the first, and the second behind it. -/
theorem holds_append (image : Image) (start : Nat) (first second : Listing) :
    image.Holds start (first ++ second) ↔
      image.Holds start first ∧ image.Holds (start + first.span) second := by
  induction first generalizing start with
  | nil => simp [Holds]
  | cons line code ih =>
    cases line with
    | label name => simp [Holds, ih, and_assoc]
    | instruction body => simp [Holds, ih, and_assoc, Nat.add_assoc, Nat.add_comm 1]

/-- An image is part of another. -/
structure Within (image whole : Image) : Prop where
  instructions : ∀ (index : Nat) body, image.instructions[index]? = some body →
    whole.instructions[index]? = some body
  labels : ∀ name index, image.labelIndex? name = some index → whole.labelIndex? name = some index

structure Loads (image : Image) (code : Listing) (whole : Image) : Prop where
  within : image.Within whole
  holds : whole.Holds image.instructions.size code
  instructions : whole.instructions.toList = image.instructions.toList ++ code.instructions
  defined : ∀ name, (whole.labelIndex? name).isSome ↔
    (image.labelIndex? name).isSome ∨ name ∈ code.labels

/-- A label in front of code is placed at the first instruction of the code. -/
private theorem loads_label {image whole : Image} {name : String} {code : Listing}
    (fresh : image.labelIndex? name = none)
    (loads : Loads { image with labels := (name, image.instructions.size) :: image.labels } code whole) :
    image.Loads (.label name :: code) whole := by
  have lookup (other : String) :
      labelIndex? { image with labels := (name, image.instructions.size) :: image.labels } other =
        if other = name then some image.instructions.size else image.labelIndex? other := by
    rw [labelIndex?, List.lookup_cons]
    by_cases same : other = name
    · simp [same]
    · simp [same, beq_eq_false_iff_ne.mpr same, labelIndex?]
  refine ⟨⟨loads.within.instructions, ?_⟩, ⟨loads.within.labels _ _ (by simp [lookup]), loads.holds⟩,
    loads.instructions, ?_⟩
  · intro other index defined
    refine loads.within.labels _ _ ?_
    rw [lookup, if_neg, defined]
    rintro rfl
    rw [fresh] at defined
    cases defined
  · intro other
    rw [loads.defined, lookup]
    simp only [Listing.labels, List.filterMap_cons, Line.label?, List.mem_cons]
    by_cases same : other = name
    · simp [same]
    · simp [same]

/-- An instruction in front of code is placed behind those that are loaded, and the code behind it. -/
private theorem loads_instruction {image whole : Image} {body : Instruction} {code : Listing}
    (loads : Loads { image with instructions := image.instructions.push body } code whole) :
    image.Loads (.instruction body :: code) whole := by
  refine ⟨⟨?_, loads.within.labels⟩, ⟨loads.within.instructions _ _ (by simp), ?_⟩, ?_, loads.defined⟩
  · intro index other fetched
    refine loads.within.instructions _ _ ?_
    have inside := (Array.getElem?_eq_some_iff.mp fetched).1
    simp [Array.getElem?_push, Nat.ne_of_lt inside, fetched]
  · simpa using loads.holds
  · simpa [Listing.instructions, Line.instruction?] using loads.instructions

/-- Lines with new and distinct labels are loaded. -/
theorem exists_loads {code : Listing} {image : Image} (distinct : code.labels.Nodup)
    (fresh : ∀ name ∈ code.labels, image.labelIndex? name = none) :
    ∃ whole, code.foldlM addLine image = .ok whole ∧ image.Loads code whole := by
  induction code generalizing image with
  | nil =>
    refine ⟨image, rfl, ⟨fun _ _ fetched => fetched, fun _ _ defined => defined⟩, trivial, ?_, ?_⟩
    · simp [Listing.instructions]
    · simp [Listing.labels]
  | cons line code ih =>
    cases line with
    | label name =>
      obtain ⟨notBehind, distinct⟩ := List.nodup_cons.mp distinct
      have unused : image.labelIndex? name = none := fresh name (List.mem_cons_self ..)
      have freshBehind : ∀ other ∈ Listing.labels code,
          labelIndex? { image with labels := (name, image.instructions.size) :: image.labels } other =
            none := by
        intro other member
        have different : other ≠ name := by
          rintro rfl
          exact notBehind member
        simpa [labelIndex?, List.lookup_cons, beq_eq_false_iff_ne.mpr different] using
          fresh other (List.mem_cons_of_mem _ member)
      obtain ⟨whole, folded, loads⟩ := ih distinct freshBehind
      refine ⟨whole, ?_, loads_label unused loads⟩
      simp [List.foldlM_cons, addLine, unused, folded, Except.bind, bind]
    | instruction body =>
      have freshBehind : ∀ other ∈ Listing.labels code,
          labelIndex? { image with instructions := image.instructions.push body } other = none := fresh
      obtain ⟨whole, folded, loads⟩ := ih distinct freshBehind
      refine ⟨whole, ?_, loads_instruction loads⟩
      simp [List.foldlM_cons, addLine, folded, Except.bind, bind]

/-- A listing with distinct labels that cover those it uses is loaded, and sits in the program from
its first instruction on. -/
theorem load_of_labels {listing : Listing} (distinct : listing.labels.Nodup)
    (covered : ∀ body ∈ listing.instructions, ∀ name, .label name ∈ body.operands →
      name ∈ listing.labels) :
    ∃ image, load listing = .ok image ∧ image.Holds 0 listing ∧
      image.instructions.size = listing.span := by
  have unlabelled : ∀ name ∈ listing.labels, empty.labelIndex? name = none := fun _ _ => rfl
  obtain ⟨image, folded, loads⟩ := exists_loads distinct unlabelled
  have instructions : image.instructions.toList = listing.instructions := by
    simpa [empty] using loads.instructions
  have complete : image.undefined? = none := by
    rw [undefined?, List.findSome?_eq_none_iff]
    intro body member
    rw [List.find?_eq_none]
    intro name used
    obtain ⟨operand, operandMember, isLabel⟩ := List.mem_filterMap.mp used
    have operandEq : operand = .label name := by
      cases operand <;> simp [Operand.label?] at isLabel
      rw [isLabel]
    have defined := (loads.defined name).mpr
      (.inr (covered body (instructions ▸ member) name (operandEq ▸ operandMember)))
    simp [Option.isSome_iff_ne_none.mp defined]
  refine ⟨image, ?_, loads.holds, ?_⟩
  · simp [load, folded, complete, bind, Except.bind, pure, Except.pure]
  · rw [Listing.span, ← instructions, Array.length_toList]

end Image

end Dcpu
