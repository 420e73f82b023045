import Dcpu.Proofs.Codegen.Composition
import Dcpu.Proofs.Codegen.Contexts
import Dcpu.Proofs.Codegen.Loadable
import Mathlib.Data.List.Count

/-! # Labels of programs that share a context

Programs are compiled one after the other in one context, and some of them fail. The counter of tags
never goes back, not even behind a failure, so the labels that are generated for one program have
higher numbers than those of the programs before it. No two of them are alike, and no routine has the
name of one.
-/

namespace Dcpu

open Source Effects Gen

namespace Tag

/-- Each stem of generated labels with each of its own endings. -/
inductive Form : String → String → Prop where
  | alternative : Form "if" "else"
  | conditionalEnd : Form "if" "end"
  | loopStart : Form "loop" "start"
  | loopEnd : Form "loop" "end"
  | connectiveEnd : Form "boolop" "skip"
  | comparisonEnd : Form "compare" "done"

theorem form_iff {stem ending : String} :
    Form stem ending ↔ ∃ form ∈ forms, form.1 = stem ∧ ending ∈ form.2 := by
  constructor
  · intro isForm
    cases isForm <;> decide
  · rintro ⟨form, member, rfl, isEnding⟩
    simp only [forms, List.mem_cons, List.not_mem_nil, or_false] at member
    obtain rfl | rfl | rfl | rfl := member
    · obtain rfl | rfl : ending = "else" ∨ ending = "end" := by simpa using isEnding
      · exact .alternative
      · exact .conditionalEnd
    · obtain rfl | rfl : ending = "start" ∨ ending = "end" := by simpa using isEnding
      · exact .loopStart
      · exact .loopEnd
    · obtain rfl : ending = "skip" := by simpa using isEnding
      exact .connectiveEnd
    · obtain rfl : ending = "done" := by simpa using isEnding
      exact .comparisonEnd

/-- The names that look generated: a stem, digits, at least one, and an ending of that stem. -/
theorem isGenerated_iff {name : String} : isGenerated name = true ↔
    ∃ stem ending, Form stem ending ∧ ∃ digits : List Char, digits ≠ [] ∧
      (∀ c ∈ digits, c.isDigit = true) ∧ name = stem ++ String.ofList digits ++ ending := by
  constructor
  · intro generated
    obtain ⟨form, isForm, digits, nonempty, allDigits, ending, isEnding, letters⟩ :=
      exists_form_of_isGenerated generated
    refine ⟨form.1, ending, form_iff.mpr ⟨form, isForm, rfl, isEnding⟩, digits, nonempty, ?_, ?_⟩
    · intro c member
      rw [← Text.isDigit_ten]
      exact allDigits c member
    · rw [← String.toList_inj, letters]
      simp
  · rintro ⟨stem, ending, isForm, digits, nonempty, allDigits, rfl⟩
    refine isGenerated_of_form (form_iff.mp isForm) (by cases isForm <;> decide) nonempty fun c member => ?_
    rw [Text.isDigit_ten]
    exact allDigits c member

end Tag

/-- No tag is ever taken back, whether or not code generation fails. -/
theorem Gen.Composed.tags_le {allowed : Line → Prop} {α : Type} {steps : Gen α}
    (composed : Composed allowed steps) (state : Emission) :
    state.context.tags ≤ (steps.after state).context.tags := by
  have tracks : Tracks allowed fun before behind => before.context.tags ≤ behind.context.tags :=
    ⟨fun _ => Nat.le_refl _, Nat.le_trans, fun _ _ _ => Nat.le_refl _, fun _ => Nat.le_succ _,
      fun _ _ _ => Nat.le_refl _⟩
  exact composed.tracked tracks state

/-- The labels that a listing defines, less those of the routines of its program and of the halt loop. -/
def Listing.generated (listing : Listing) (haltLoop : Bool) (program : Program) : List String :=
  listing.labels.diff (routinesIn program ++ haltLabels haltLoop ((definitionsIn program).map Prod.fst))

/-- Whether a routine is registered when the routines of a program are gathered, up to some place. -/
def Registers (program : Program) (name : String) : Prop :=
  ∃ before names state after, before <+: definitionsIn program ∧
    registerRoutines [] before state = .ok names after ∧ name ∈ names

/-- No routine has the name of a generated label. -/
theorem Registers.isGenerated {program : Program} {name : String} (registers : Registers program name) :
    Tag.isGenerated name = false := by
  obtain ⟨before, names, state, after, _, ran, member⟩ := registers
  obtain ⟨_, members, vetted⟩ := registerRoutines_eq_ok ran
  have isDefined := ((members name).mp member).resolve_left List.not_mem_nil
  exact isGenerated_of_nameClash? (vetted name isDefined)

namespace Context

/-- The generated labels of all listings that come of compiling programs one after the other, each with
or without a halt loop, in the context that the one before it left. -/
def generatedIn (context : Context) : List (Bool × Program) → List String
  | [] => []
  | (haltLoop, program) :: session =>
    let compilation := context.compile haltLoop program
    (match compilation.result with
      | .ok listing => listing.generated haltLoop program
      | .error _ => []) ++ compilation.context.generatedIn session

/-- The count of tags does not go down in a compilation. -/
theorem tags_le_compile (context : Context) (haltLoop : Bool) (program : Program) :
    context.tags ≤ (context.compile haltLoop program).context.tags := by
  rw [(compile_eq context haltLoop program).1]
  exact (programCode_composed (fun _ _ => trivial) haltLoop program fun _ => trivial).tags_le (.start context)

/-- The labels of a listing are those of its routines, that of the halt loop, and generated ones, which
are different and have numbers that were drawn for it. -/
theorem compile_generated {context : Context} {haltLoop : Bool} {program : Program} {listing : Listing}
    (compiled : (context.compile haltLoop program).result = .ok listing) :
    listing.labels.Perm (routinesIn program ++ haltLabels haltLoop ((definitionsIn program).map Prod.fst) ++
        listing.generated haltLoop program) ∧
      (listing.generated haltLoop program).Nodup ∧
      ∀ label ∈ listing.generated haltLoop program, Tag.isGenerated label = true ∧
        context.tags < Tag.number label ∧
        Tag.number label ≤ (context.compile haltLoop program).context.tags := by
  obtain ⟨after, ran, rfl, same, _⟩ := compile_eq_ok compiled
  rw [same]
  obtain ⟨⟨code, generated, emitted, linked⟩, _⟩ := programCode_links ran
  have whole : after.listing = code := emitted
  have same : (code.generated haltLoop program).Perm generated := by
    have labels := linked.labels
    rw [List.perm_iff_count] at labels ⊢
    intro label
    rw [Listing.generated, List.count_diff, labels, List.count_append]
    omega
  rw [whole]
  refine ⟨linked.labels.trans (same.symm.append_left _), same.nodup_iff.mpr linked.distinct, ?_⟩
  intro label member
  exact linked.drawn label (same.mem_iff.mp member)

/-- The labels that are generated in a context look so, are different, and have numbers above those drawn
before. -/
theorem generatedIn_fresh (context : Context) (session : List (Bool × Program)) :
    (context.generatedIn session).Nodup ∧ ∀ label ∈ context.generatedIn session,
      Tag.isGenerated label = true ∧ context.tags < Tag.number label := by
  induction session generalizing context with
  | nil => exact ⟨.nil, nofun⟩
  | cons item session ih =>
    obtain ⟨haltLoop, program⟩ := item
    obtain ⟨distinct, fresh⟩ := ih (context.compile haltLoop program).context
    have counts := context.tags_le_compile haltLoop program
    rw [generatedIn]
    cases compiled : (context.compile haltLoop program).result with
    | error error =>
      -- a failure leaves no listing, but the tags that it drew are not drawn again
      refine ⟨distinct, fun label member => ?_⟩
      obtain ⟨looks, above⟩ := fresh label member
      exact ⟨looks, by omega⟩
    | ok listing =>
      obtain ⟨_, own, drawn⟩ := compile_generated compiled
      refine ⟨List.nodup_append.mpr ⟨own, distinct, ?_⟩, fun label member => ?_⟩
      · rintro label isOwn _ isLater rfl
        have := drawn label isOwn
        have := fresh label isLater
        omega
      · obtain isOwn | isLater := List.mem_append.mp member
        · obtain ⟨looks, above, _⟩ := drawn label isOwn
          exact ⟨looks, above⟩
        · obtain ⟨looks, above⟩ := fresh label isLater
          exact ⟨looks, by omega⟩

/-- A listing has the labels of its routines, that of the halt loop, and generated ones. Whatever programs are
compiled one after the other in a context, and whichever of them fail, the labels that are generated for all
their listings are different; they all look generated, which is to have a stem, digits and an ending of the
stem; and no routine that any of the programs registers has the name of one. -/
theorem session_labels_are_fresh (context : Context) (session : List (Bool × Program)) :
    (∀ haltLoop program listing, (context.compile haltLoop program).result = .ok listing →
      listing.labels.Perm (routinesIn program ++
        haltLabels haltLoop ((definitionsIn program).map Prod.fst) ++ listing.generated haltLoop program)) ∧
    (context.generatedIn session).Nodup ∧
    (∀ label ∈ context.generatedIn session, Tag.isGenerated label = true) ∧
    (∀ name, Tag.isGenerated name = true ↔ ∃ stem ending, Tag.Form stem ending ∧
      ∃ digits : List Char, digits ≠ [] ∧ (∀ c ∈ digits, c.isDigit = true) ∧
        name = stem ++ String.ofList digits ++ ending) ∧
    ∀ item ∈ session, ∀ name, Registers item.2 name →
      Tag.isGenerated name = false ∧ name ∉ context.generatedIn session := by
  obtain ⟨distinct, fresh⟩ := context.generatedIn_fresh session
  refine ⟨fun _ _ _ compiled => (compile_generated compiled).1, distinct,
    fun label member => (fresh label member).1, fun name => Tag.isGenerated_iff, ?_⟩
  intro item _ name registers
  have plain := registers.isGenerated
  refine ⟨plain, fun member => ?_⟩
  rw [(fresh name member).1] at plain
  cases plain

/-- The second program fails in the body of its conditional, with two tags drawn. The first has a routine
that is named like a tag, which is no generated label. -/
def failingInBetween : List (Bool × Program) :=
  let here : Position := ⟨1, 1⟩
  let x : Expr := .name here "x"
  [(true, [.routine here "if1" [], .branch here x [] []]),
    (true, [.branch here (.compare here x [(.less, x), (.less, x)]) [.evaluate here (.unary here .negate x)] []]),
    (false, [.whileLoop here (.logical here .and [x, x]) []])]

theorem session_labels_are_fresh_behind_failure :
    (∃ listing, ((Context.new {}).compile true (failingInBetween.head (by decide)).2).result = .ok listing ∧
        listing.labels.Perm ["if1", "end", "if1else", "if1end"]) ∧
      (Context.new {}).generatedIn failingInBetween =
        ["if1else", "if1end", "loop4start", "boolop5skip", "loop4end"] ∧
      ((Context.new {}).generatedIn failingInBetween).Nodup ∧
      ∃ item ∈ failingInBetween, Registers item.2 "if1" ∧ Tag.isGenerated "if1" = false := by
  obtain ⟨parts, distinct, _, _, apart⟩ := session_labels_are_fresh (.new {}) failingInBetween
  have compiled : ((Context.new {}).compile true (failingInBetween.head (by decide)).2).result =
      .ok [.label "if1", .ret, .set .a (.memory 0x2000), .basic .ifn .a (.literal 1), .jump "if1else",
        .jump "if1end", .label "if1else", .label "if1end", .label "end", .jump "end"] := by
    decide +kernel
  have vetted : nameClash? "if1" = none := by decide +kernel
  have ran (position : Position) (state : Emission) :
      registerRoutines [] [("if1", position)] state = .ok ["if1"] state := by
    simp [registerRoutines, vetted]
  have registers : Registers (failingInBetween.head (by decide)).2 "if1" :=
    ⟨_, _, .start (.new {}), _, List.prefix_rfl, ran _ _, List.mem_cons_self ..⟩
  exact ⟨⟨_, compiled, parts _ _ _ compiled⟩, by decide +kernel, distinct, _, List.head_mem (by decide),
    registers, (apart _ (List.head_mem (by decide)) _ registers).1⟩

end Context

end Dcpu
