import Dcpu.Proofs.Codegen.Labels
import Dcpu.Proofs.Machine.Segments

/-! # Which listings are loaded

Lines are loaded as long as no label is defined twice, and the program is accepted if every label
that an instruction names is then defined.
-/

namespace Dcpu

namespace Image

/-- A line with a label is loaded exactly if the label is new. -/
theorem addLine_label_eq_ok_iff {image after : Image} {name : String} :
    image.addLine (.label name) = .ok after ↔ image.labelIndex? name = none ∧
      after = { image with labels := (name, image.instructions.size) :: image.labels } := by
  cases defined : image.labelIndex? name with
  | some index => simp [addLine, defined]
  | none => simp [addLine, defined, eq_comm]

/-- Lines that are loaded have new and distinct labels. -/
theorem labels_of_loaded {code : Listing} {image whole : Image}
    (loaded : code.foldlM addLine image = .ok whole) :
    code.labels.Nodup ∧ ∀ name ∈ code.labels, image.labelIndex? name = none := by
  induction code generalizing image with
  | nil => exact ⟨List.nodup_nil, nofun⟩
  | cons line code ih =>
    rw [List.foldlM_cons] at loaded
    cases line with
    | instruction body => exact @ih { image with instructions := image.instructions.push body } loaded
    | label name =>
      cases step : image.addLine (.label name) with
      | error error =>
        rw [step] at loaded
        cases loaded
      | ok after =>
        rw [step] at loaded
        obtain ⟨distinct, fresh⟩ := ih loaded
        obtain ⟨new, rfl⟩ := addLine_label_eq_ok_iff.mp step
        have behind (other : String) (member : other ∈ Listing.labels code) :
            other ≠ name ∧ image.labelIndex? other = none := by
          have unseen := fresh other member
          rw [labelIndex?, List.lookup_cons] at unseen
          split at unseen
          case h_1 => cases unseen
          case h_2 different => exact ⟨beq_eq_false_iff_ne.mp different, unseen⟩
        refine ⟨List.nodup_cons.mpr ⟨fun member => (behind name member).1 rfl, distinct⟩, ?_⟩
        intro other member
        obtain rfl | member := List.mem_cons.mp member
        · exact new
        · exact (behind other member).2

/-- No label is missing when every label that an instruction names is defined. -/
theorem undefined?_eq_none_iff {image : Image} {code : Listing}
    (instructions : image.instructions.toList = code.instructions) :
    image.undefined? = none ↔ ∀ name ∈ code.targets, (image.labelIndex? name).isSome := by
  rw [undefined?, instructions, List.findSome?_eq_none_iff]
  simp only [List.find?_eq_none, Listing.targets, List.mem_flatMap, Option.isNone_iff_eq_none,
    Option.isSome_iff_ne_none]
  constructor
  · rintro none name ⟨body, member, named⟩
    exact none body member name named
  · intro all body member name named
    exact all name ⟨body, member, named⟩

/-- A listing that is loaded has distinct labels, sits in the program from its first instruction on, and
no label is missing. -/
theorem load_eq_ok {listing : Listing} {image : Image} (loaded : load listing = .ok image) :
    listing.labels.Nodup ∧ empty.Loads listing image ∧ image.undefined? = none := by
  rw [load] at loaded
  cases folded : listing.foldlM addLine empty with
  | error error =>
    rw [folded] at loaded
    cases loaded
  | ok whole =>
    obtain ⟨distinct, fresh⟩ := labels_of_loaded folded
    obtain ⟨_, same, loads⟩ := exists_loads distinct fresh
    cases folded.symm.trans same
    cases missing : whole.undefined? with
    | some name => simp [folded, bind, Except.bind, missing, throw, throwThe, MonadExceptOf.throw] at loaded
    | none =>
      simp only [folded, bind, Except.bind, missing, pure, Except.pure, Except.ok.injEq] at loaded
      subst loaded
      exact ⟨distinct, loads, missing⟩

/-- The instructions of a loaded program are those of its listing. -/
theorem Loads.instructions_eq {listing : Listing} {image : Image} (loads : empty.Loads listing image) :
    image.instructions.toList = listing.instructions := by
  simpa [empty] using loads.instructions

/-- An image has as many instructions as its listing. -/
theorem size_of_load {listing : Listing} {image : Image} (loaded : load listing = .ok image) :
    image.instructions.size = listing.span := by
  rw [Listing.span, ← (load_eq_ok loaded).2.1.instructions_eq, Array.length_toList]

theorem mem_instructions_of_load {listing : Listing} {image : Image} (loaded : load listing = .ok image)
    {body : Instruction} : body ∈ image.instructions ↔ body ∈ listing.instructions := by
  rw [← (load_eq_ok loaded).2.1.instructions_eq, Array.mem_toList_iff]

/-- Every label that an instruction of a loaded program names is defined. -/
theorem labelIndex?_of_load {listing : Listing} {image : Image} (loaded : load listing = .ok image)
    {pc : Nat} {body : Instruction} (fetched : image.instructions[pc]? = some body) {name : String}
    (named : .label name ∈ body.operands) : (image.labelIndex? name).isSome := by
  obtain ⟨_, loads, complete⟩ := load_eq_ok loaded
  have member := (mem_instructions_of_load loaded).mp (Array.mem_of_getElem? fetched)
  refine (undefined?_eq_none_iff loads.instructions_eq).mp complete name (List.mem_flatMap.mpr ⟨body, member, ?_⟩)
  exact List.mem_filterMap.mpr ⟨_, named, rfl⟩

/-- A listing is loaded exactly if it defines no label twice and defines every label that it names. -/
theorem exists_load_iff (listing : Listing) :
    (∃ image, load listing = .ok image) ↔
      listing.labels.Nodup ∧ ∀ name ∈ listing.targets, name ∈ listing.labels := by
  have covered {image : Image} (loads : empty.Loads listing image) :
      image.undefined? = none ↔ ∀ name ∈ listing.targets, name ∈ listing.labels := by
    have defined (name : String) : (image.labelIndex? name).isSome ↔ name ∈ listing.labels := by
      simpa [empty, labelIndex?] using loads.defined name
    simp only [undefined?_eq_none_iff loads.instructions_eq, defined]
  constructor
  · rintro ⟨image, loaded⟩
    obtain ⟨distinct, loads, complete⟩ := load_eq_ok loaded
    exact ⟨distinct, (covered loads).mp complete⟩
  · rintro ⟨distinct, defined⟩
    have fresh : ∀ name ∈ listing.labels, empty.labelIndex? name = none := fun _ _ => rfl
    obtain ⟨whole, folded, loads⟩ := exists_loads distinct fresh
    refine ⟨whole, ?_⟩
    rw [load, folded]
    simp [bind, Except.bind, (covered loads).mpr defined, pure, Except.pure]

end Image

end Dcpu
