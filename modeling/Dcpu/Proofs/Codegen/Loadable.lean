import Dcpu.Proofs.Codegen.Linking
import Dcpu.Proofs.Machine.Loading
import Dcpu.Proofs.Source.Reading

/-! # Which compiled programs are loaded

The labels of a compiled source text are those of its routines, generated ones, and that of the halt
loop. Generated labels are like none of the others, so a label is defined twice only if a routine is,
and only the end of the program can be missing.
-/

namespace Dcpu

open Source Text

/-- What the listing of a program that was read from a source text defines and names. -/
structure Listing.Compiled (haltLoop : Bool) (program : Program) (generated : List String)
    (listing : Listing) : Prop where
  linked : ∃ high, listing.Linked (haltLabels haltLoop (routinesIn program)) (callsIn program)
    (routinesIn program ++ haltLabels haltLoop (routinesIn program)) generated 0 high
  callable : ∀ name ∈ callsIn program, name = exitCall ∨ name ∈ routinesIn program
  vetted : ∀ name ∈ routinesIn program, nameClash? name = none
  legible : ∀ name ∈ routinesIn program, ∀ c ∈ name.toList, isNamePart c = true

theorem readSource_eq_ok {source : String} {program : Program}
    (read : (readSource source).1 = .ok program) :
    ∃ tokens, scan source = .ok tokens ∧ Program.ofTokens tokens = .ok program := by
  rw [readSource] at read
  cases scanned : scan source with
  | error error =>
    rw [scanned] at read
    cases read
  | ok tokens =>
    simp only [scanned] at read
    cases parsed : Program.ofTokens tokens with
    | error error =>
      rw [parsed] at read
      cases read
    | ok other =>
      rw [parsed] at read
      cases read
      exact ⟨tokens, rfl, parsed⟩

theorem compile_eq_ok {settings : Settings} {source : String} {listing : Listing}
    (compiled : (compile settings source).result = .ok listing) :
    ∃ program, (readSource source).1 = .ok program ∧
      (compileProgram settings program).result = .ok listing := by
  rw [compile] at compiled
  cases read : readSource source with
  | mk result trail =>
    cases result with
    | error error =>
      rw [read] at compiled
      cases compiled
    | ok program =>
      rw [read] at compiled
      exact ⟨program, rfl, compiled⟩

/-- A source text that compiles is read as a program, and its listing is one of that program. -/
theorem compile_compiled {settings : Settings} {source : String} {listing : Listing}
    (compiled : (compile settings source).result = .ok listing) :
    ∃ program generated, (readSource source).1 = .ok program ∧
      listing.Compiled settings.haltLoop program generated := by
  obtain ⟨program, read, compiled⟩ := compile_eq_ok compiled
  obtain ⟨tokens, scanned, parsed⟩ := readSource_eq_ok read
  obtain ⟨simple, legible⟩ := Program.isRead_of_tokens (scan_isLegible scanned) parsed
  obtain ⟨after, ran, rfl, _⟩ := compileProgram_eq_ok compiled
  obtain ⟨⟨code, generated, emitted, linked⟩, callable, vetted⟩ := programCode_links ran
  rw [definitionsIn_of_simpleLoopsIn program simple] at linked callable vetted
  have whole : after.listing = code := emitted
  exact ⟨program, generated, read, ⟨_, whole ▸ linked⟩, callable, vetted, legible⟩

/-- A name without a clash is no generated label. -/
theorem isGenerated_of_nameClash? {name : String} (vetted : nameClash? name = none) :
    Tag.isGenerated name = false := by
  rw [nameClash?] at vetted
  split at vetted
  · split at vetted
    · cases vetted
    · exact Bool.eq_false_iff.mpr ‹_›
  all_goals cases vetted

namespace Listing.Compiled

variable {haltLoop : Bool} {program : Program} {generated : List String} {listing : Listing}

/-- Generated labels are neither routines nor the end of the program. -/
theorem generated_apart (compiled : listing.Compiled haltLoop program generated) {label : String}
    (member : label ∈ generated) : label ∉ routinesIn program ∧ label ≠ endLabel := by
  obtain ⟨high, linked⟩ := compiled.linked
  have isGenerated := (linked.drawn label member).1
  constructor
  · intro isRoutine
    rw [isGenerated_of_nameClash? (compiled.vetted label isRoutine)] at isGenerated
    cases isGenerated
  · rintro rfl
    exact absurd isGenerated (by decide)

theorem mem_labels (compiled : listing.Compiled haltLoop program generated) (label : String) :
    label ∈ listing.labels ↔ label ∈ routinesIn program ∨
      label ∈ haltLabels haltLoop (routinesIn program) ∨ label ∈ generated := by
  obtain ⟨high, linked⟩ := compiled.linked
  rw [linked.labels.mem_iff, List.mem_append, List.mem_append, or_assoc]

theorem mem_haltLabels {routines : List String} {label : String} :
    label ∈ haltLabels haltLoop routines ↔
      label = endLabel ∧ haltLoop = true ∧ endLabel ∉ routines := by
  rw [haltLabels]
  split
  case isTrue appended => simp [appended]
  case isFalse notAppended => simpa using fun _ halts => by simpa [halts] using notAppended

/-- No label is defined twice unless a routine is. -/
theorem nodup_labels_iff (compiled : listing.Compiled haltLoop program generated) :
    listing.labels.Nodup ↔ (routinesIn program).Nodup := by
  obtain ⟨high, linked⟩ := compiled.linked
  rw [linked.labels.nodup_iff]
  constructor
  · intro distinct
    exact (List.nodup_append.mp (List.nodup_append.mp distinct).1).1
  · intro distinct
    refine List.nodup_append.mpr ⟨List.nodup_append.mpr ⟨distinct, ?_, ?_⟩, linked.distinct, ?_⟩
    · rw [haltLabels]
      split <;> simp
    · rintro label isRoutine _ isHalt rfl
      obtain ⟨rfl, _, absent⟩ := mem_haltLabels.mp isHalt
      exact absent isRoutine
    · rintro label member _ isGenerated rfl
      obtain ⟨notRoutine, notEnd⟩ := compiled.generated_apart isGenerated
      obtain isRoutine | isHalt := List.mem_append.mp member
      · exact notRoutine isRoutine
      · exact notEnd (mem_haltLabels.mp isHalt).1

/-- The end of the program is the only label that may be missing. -/
theorem target_defined (compiled : listing.Compiled haltLoop program generated) {target : String}
    (named : target ∈ listing.targets) : target ∈ listing.labels ∨
      target = endLabel ∧ exitCall ∈ callsIn program := by
  obtain ⟨high, linked⟩ := compiled.linked
  rw [compiled.mem_labels]
  obtain isGenerated | isHalt | ⟨name, isCalled, rfl⟩ := linked.closed target named
  · exact .inl (.inr (.inr isGenerated))
  · exact .inl (.inr (.inl isHalt))
  · by_cases isExit : name = exitCall
    · exact .inr ⟨if_pos isExit, isExit ▸ isCalled⟩
    · rw [callTarget, if_neg isExit]
      exact .inl (.inl ((compiled.callable name isCalled).resolve_left isExit))

/-- The end label is defined exactly when the loop at the end is wanted or a routine is called so. -/
theorem end_defined_iff (compiled : listing.Compiled haltLoop program generated) :
    endLabel ∈ listing.labels ↔ haltLoop = true ∨ endLabel ∈ routinesIn program := by
  have notGenerated : endLabel ∉ generated := fun member => (compiled.generated_apart member).2 rfl
  rw [compiled.mem_labels, mem_haltLabels]
  by_cases isRoutine : endLabel ∈ routinesIn program
  · simp [isRoutine]
  · simp [isRoutine, notGenerated]

/-- Every label is defined unless the program leaves for an end that it does not have. -/
theorem targets_defined_iff (compiled : listing.Compiled haltLoop program generated) :
    (∀ target ∈ listing.targets, target ∈ listing.labels) ↔
      haltLoop = true ∨ endLabel ∈ routinesIn program ∨ exitCall ∉ callsIn program := by
  obtain ⟨high, linked⟩ := compiled.linked
  rw [← or_assoc, ← compiled.end_defined_iff]
  constructor
  · intro defined
    by_cases leaves : exitCall ∈ callsIn program
    · exact .inl (defined _ (linked.called exitCall leaves))
    · exact .inr leaves
  · intro hasEnd target named
    obtain defined | ⟨rfl, leaves⟩ := compiled.target_defined named
    · exact defined
    · exact hasEnd.resolve_right fun stays => stays leaves

end Listing.Compiled

/-- The listing of a source text that compiles is loaded exactly if no two routines have one name and
the program has an end or never goes there. Its labels are those of its routines, that of a halt loop,
and generated ones, which are different from each other and from the rest; and every label that is
named is defined, unless it is an end that the program does not have. -/
theorem compiled_source_is_loaded_iff {settings : Settings} {source : String} {listing : Listing}
    (compiled : (compile settings source).result = .ok listing) :
    ∃ program generated, (readSource source).1 = .ok program ∧
      ((∃ image, Image.load listing = .ok image) ↔ (routinesIn program).Nodup ∧
        (settings.haltLoop = true ∨ endLabel ∈ routinesIn program ∨ exitCall ∉ callsIn program)) ∧
      listing.labels.Perm
        (routinesIn program ++ haltLabels settings.haltLoop (routinesIn program) ++ generated) ∧
      generated.Nodup ∧
      (∀ label ∈ generated,
        Tag.isGenerated label = true ∧ label ∉ routinesIn program ∧ label ≠ endLabel) ∧
      ∀ target ∈ listing.targets, target ∈ listing.labels ∨
        target = endLabel ∧ settings.haltLoop = false ∧ endLabel ∉ routinesIn program := by
  obtain ⟨program, generated, read, compiled⟩ := compile_compiled compiled
  obtain ⟨high, linked⟩ := compiled.linked
  refine ⟨program, generated, read, ?_, linked.labels, linked.distinct, fun label member => ?_,
    fun target named => ?_⟩
  · rw [Image.exists_load_iff, compiled.nodup_labels_iff, compiled.targets_defined_iff]
  · exact ⟨(linked.drawn label member).1, compiled.generated_apart member⟩
  · by_cases defined : target ∈ listing.labels
    · exact .inl defined
    · obtain ⟨rfl, _⟩ := (compiled.target_defined named).resolve_left defined
      rw [compiled.end_defined_iff, not_or, Bool.not_eq_true] at defined
      exact .inr ⟨rfl, defined⟩

/-- Programs of each kind: one that leaves from a routine in the middle of a comparison chain is
loaded, one that defines a routine twice is not, and neither is one that leaves without an end. -/
theorem compiled_sources_are_loaded_or_not :
    (∃ listing,
      (compile {} "function f() \x7b if (1 < x < 3) \x7b exit(); \x7d \x7d f();").result = .ok listing ∧
        ∃ image, Image.load listing = .ok image) ∧
    (∃ listing, (compile {} "function f() \x7b\x7d function f() \x7b\x7d").result = .ok listing ∧
      ¬ ∃ image, Image.load listing = .ok image) ∧
    ∃ listing, (compile ⟨0x2000, 0x7000, 0x8000, false⟩ "exit();").result = .ok listing ∧
      ¬ ∃ image, Image.load listing = .ok image := by
  have judged {settings : Settings} {source : String} (expected : Prop → Prop) (accepted : Bool)
      (means : expected (accepted = true))
      (isOk : (compile settings source).result.isOk = true)
      (verdict : (readSource source).1.toOption.map (fun program => decide ((routinesIn program).Nodup ∧
        (settings.haltLoop = true ∨ endLabel ∈ routinesIn program ∨ exitCall ∉ callsIn program))) =
          some accepted) :
      ∃ listing, (compile settings source).result = .ok listing ∧
        expected (∃ image, Image.load listing = .ok image) := by
    cases result : (compile settings source).result with
    | error error => simp [result, Except.isOk, Except.toBool] at isOk
    | ok listing =>
      obtain ⟨program, _, read, loads, _⟩ := compiled_source_is_loaded_iff result
      simp only [read, Except.toOption, Option.map_some, Option.some.injEq] at verdict
      exact ⟨listing, rfl, by rwa [loads, ← decide_eq_true_eq (p := _ ∧ _), verdict]⟩
  exact ⟨judged id true rfl (by decide +kernel) (by decide +kernel),
    judged Not false Bool.false_ne_true (by decide +kernel) (by decide +kernel),
    judged Not false Bool.false_ne_true (by decide +kernel) (by decide +kernel)⟩

end Dcpu
