import Dcpu.Proofs.Codegen.Loadable
import Dcpu.Proofs.Codegen.RoutineEvents
import Dcpu.Proofs.Codegen.Sessions

/-! # Registered routines and routines with code

A program is gone over twice. The first time, routines are gathered and registered; the second time, code is
made. The first part and the step of a loop are statements, and only the second pass looks for routines in
them. A routine there has code, but it is registered only if one of its name is defined elsewhere too.
-/

namespace Dcpu

open Source Effects Gen

namespace Source

mutual

/-- The names of the routines that stand in the first part or in the step of a loop of a statement. -/
def Stmt.loopRoutines : Stmt → List String
  | .routine _ _ body => loopRoutinesIn body
  | .branch _ _ body alternative => loopRoutinesIn body ++ loopRoutinesIn alternative
  | .whileLoop _ _ body => loopRoutinesIn body
  | .forLoop _ init _ step body => init.routines ++ (loopRoutinesIn body ++ step.routines)
  | .ret .. | .assign .. | .evaluate .. => []

def loopRoutinesIn : List Stmt → List String
  | [] => []
  | statement :: statements => statement.loopRoutines ++ loopRoutinesIn statements

end

mutual

theorem Stmt.count_routines (statement : Stmt) (name : String) :
    statement.routines.count name =
      (statement.definitions.map Prod.fst).count name + statement.loopRoutines.count name := by
  cases statement with
  | routine position other body =>
    have := count_routinesIn body name
    simp only [Stmt.routines, Stmt.definitions, Stmt.loopRoutines, List.map_cons, List.count_cons]
    omega
  | branch position test body alternative =>
    have := count_routinesIn body name
    have := count_routinesIn alternative name
    simp only [Stmt.routines, Stmt.definitions, Stmt.loopRoutines, List.map_append, List.count_append]
    omega
  | whileLoop position test body => exact count_routinesIn body name
  | forLoop position init test step body =>
    have := count_routinesIn body name
    simp only [Stmt.routines, Stmt.definitions, Stmt.loopRoutines, List.count_append]
    omega
  | ret | assign | evaluate => rfl

/-- A routine is defined as often as it is registered, its definitions within loops apart. -/
theorem count_routinesIn (statements : List Stmt) (name : String) :
    (routinesIn statements).count name =
      ((definitionsIn statements).map Prod.fst).count name + (loopRoutinesIn statements).count name := by
  cases statements with
  | nil => rfl
  | cons statement statements =>
    have := statement.count_routines name
    have := count_routinesIn statements name
    simp only [routinesIn, definitionsIn, loopRoutinesIn, List.map_append, List.count_append]
    omega

end

/-- The routines of a program are those that are gathered, and those in the first parts and steps of loops. -/
theorem routinesIn_perm (program : Program) :
    (routinesIn program).Perm ((definitionsIn program).map Prod.fst ++ loopRoutinesIn program) := by
  rw [List.perm_iff_count]
  intro name
  rw [count_routinesIn, List.count_append]

end Source

namespace Event

def registered? : Event → Option (List String)
  | .registered routines => some routines
  | _ => none

def begun? : Event → Option String
  | .routine name _ => some name
  | _ => none

/-- What is told by events about routines only is the same with all other events left out. -/
theorem filterMap_about {α : Type} {view : Event → Option α}
    (about : ∀ event, event.isAboutRoutines = false → view event = none) (events : List Event) :
    (events.filter isAboutRoutines).filterMap view = events.filterMap view := by
  induction events with
  | nil => rfl
  | cons event events ih =>
    cases isAbout : event.isAboutRoutines with
    | true => simp only [List.filter_cons_of_pos isAbout, List.filterMap_cons, ih]
    | false =>
      rw [List.filter_cons_of_neg (by simp [isAbout]), ih, List.filterMap_cons_none (about event isAbout)]

theorem registered?_of_other (event : Event) (other : event.isAboutRoutines = false) :
    event.registered? = none := by
  cases event <;> first | rfl | cases other

theorem begun?_of_other (event : Event) (other : event.isAboutRoutines = false) : event.begun? = none := by
  cases event <;> first | rfl | cases other

end Event

namespace Source

theorem Landmark.filterMap_registered?_events (landmark : Landmark) :
    landmark.events.filterMap Event.registered? = [] := by
  apply List.filterMap_eq_nil_iff.mpr
  intro event member
  cases landmark with
  | routine name position =>
    rw [List.mem_singleton.mp member]
    rfl
  | call site => obtain ⟨_, _, _, rfl⟩ | ⟨_, rfl⟩ := CallSite.mem_events member <;> rfl

theorem Landmark.filterMap_begun?_events (landmark : Landmark) :
    landmark.events.filterMap Event.begun? = landmark.routine?.toList := by
  cases landmark with
  | routine name position => rfl
  | call site =>
    apply List.filterMap_eq_nil_iff.mpr
    intro event member
    obtain ⟨_, _, _, rfl⟩ | ⟨_, rfl⟩ := CallSite.mem_events member <;> rfl

end Source

/-- What is seen of the events about routines, if redefinitions and the halt loop are not looked at. -/
theorem filterMap_routineEvents {α : Type} {view : Event → Option α}
    (again : ∀ definition, view (redefined definition) = none) (halts : view .haltAppended = none) (haltLoop : Bool)
    (program : Program) (known : List String) : (routineEvents haltLoop program known).filterMap view =
      (view (.registered known)).toList ++
        (landmarksIn program).flatMap fun landmark => landmark.events.filterMap view := by
  have first : ((redefinitions (definitionsIn program)).map redefined).filterMap view = [] := by
    simp [List.filterMap_map, again]
  have last : (if haltLoop && !known.contains endLabel then [Event.haltAppended] else []).filterMap view = [] := by
    split <;> simp [halts]
  rw [routineEvents, List.filterMap_append, first, List.nil_append, ← List.singleton_append, List.filterMap_append,
    List.filterMap_append, last, List.append_nil, List.filterMap_flatMap]
  cases seen : view (.registered known) <;> simp [seen]

/-- A call is made as one exactly if the routine is registered and the call does not end the program. -/
theorem callCode_calls_iff (known : List String) (name : String) (position : Position) (state : Emission) :
    (∃ after, callCode known name position state = .ok () after ∧
      after.listing = state.listing ++ [.jsr name]) ↔ name ≠ exitCall ∧ name ∈ known := by
  constructor
  · rintro ⟨after, ran, listing⟩
    rw [callCode] at ran
    split at ran
    case isTrue =>
      rw [emit_apply] at ran
      cases ran
      rw [Emission.listing_noted] at listing
      cases List.append_cancel_left listing
    case isFalse notExit =>
      split at ran
      case isTrue isKnown => exact ⟨notExit, by simpa using isKnown⟩
      case isFalse => cases ran
  · rintro ⟨notExit, isKnown⟩
    rw [callCode, if_neg notExit, if_pos (by simpa using isKnown)]
    by_cases holds : 0 < state.held <;>
      simp [bind_apply, holds, Emission.listing_noted, Event.line?]

/-- What the two passes of a compilation have come to, with the routines that were registered. -/
structure Compilation.Passes (haltLoop : Bool) (program : Program) (listing : Listing) (known : List String)
    (compilation : Compilation) : Prop where
  registered : compilation.trail.toList.filterMap Event.registered? = [known]
  gathered : ∀ name, name ∈ known ↔ name ∈ (definitionsIn program).map Prod.fst
  vetted : ∀ name ∈ known, nameClash? name = none
  begun : compilation.trail.toList.filterMap Event.begun? = routinesIn program
  labels : ∃ generated, listing.labels.Perm (routinesIn program ++ haltLabels haltLoop known ++ generated) ∧
    ∀ label ∈ generated, Tag.isGenerated label = true

/-- A compilation that succeeds has made both passes over its program. -/
theorem Context.compile_passes {context : Context} {haltLoop : Bool} {program : Program} {listing : Listing}
    (compiled : (context.compile haltLoop program).result = .ok listing) :
    ∃ known, (context.compile haltLoop program).Passes haltLoop program listing known := by
  obtain ⟨known, gathered, vetted, told⟩ := compile_tells compiled
  obtain ⟨labels, _, drawn⟩ := compile_generated compiled
  have halts : haltLabels haltLoop ((definitionsIn program).map Prod.fst) = haltLabels haltLoop known := by
    simp only [haltLabels, gathered]
  refine ⟨known, ?_, gathered, vetted, ?_, _, halts ▸ labels, fun label member => (drawn label member).1⟩
  · rw [← Event.filterMap_about Event.registered?_of_other, told, filterMap_routineEvents (fun _ => rfl) rfl]
    simp [Landmark.filterMap_registered?_events, Event.registered?]
  · rw [← Event.filterMap_about Event.begun?_of_other, told, filterMap_routineEvents (fun _ => rfl) rfl]
    simp only [Landmark.filterMap_begun?_events, ← List.filterMap_eq_flatMap_toList,
      filterMap_routine?_landmarksIn]
    rfl

/-- The routines with code are those that are registered exactly if those in the first parts and steps of loops
are registered too, as they are in every program that is read from a source text. Registered routines are free of
clashes and are those that can be called, and it is for them to keep a halt loop away. -/
theorem passes_agree_iff {context : Context} {haltLoop : Bool} {program : Program} {listing : Listing}
    (compiled : (context.compile haltLoop program).result = .ok listing) :
    ∃ known, (context.compile haltLoop program).Passes haltLoop program listing known ∧
      (routinesIn program).Perm ((definitionsIn program).map Prod.fst ++ loopRoutinesIn program) ∧
      ((∀ name, name ∈ routinesIn program ↔ name ∈ known) ↔ ∀ name ∈ loopRoutinesIn program, name ∈ known) ∧
      (∀ name position state, (∃ after, callCode known name position state = .ok () after ∧
        after.listing = state.listing ++ [.jsr name]) ↔ name ≠ exitCall ∧ name ∈ known) ∧
      ∀ source, (readSource source).1 = .ok program → ∀ name, name ∈ routinesIn program ↔ name ∈ known := by
  obtain ⟨known, passes⟩ := Context.compile_passes compiled
  have members (name : String) : name ∈ routinesIn program ↔ name ∈ known ∨ name ∈ loopRoutinesIn program := by
    rw [(routinesIn_perm program).mem_iff, List.mem_append, passes.gathered]
  refine ⟨known, passes, routinesIn_perm program, ?_, callCode_calls_iff known, ?_⟩
  · constructor
    · intro agree name isLoops
      exact (agree name).mp ((members name).mpr (.inr isLoops))
    · intro registered name
      rw [members]
      exact or_iff_left_of_imp (registered name)
  · intro source read name
    obtain ⟨tokens, scanned, parsed⟩ := readSource_eq_ok read
    obtain ⟨simple, _⟩ := Program.isRead_of_tokens (scan_isLegible scanned) parsed
    rw [passes.gathered, definitionsIn_of_simpleLoopsIn program simple]

/-- A loop whose first part is a routine. -/
def routineInLoop (name : String) : Program :=
  [.forLoop ⟨1, 1⟩ (.routine ⟨1, 6⟩ name []) (.number ⟨1, 8⟩ 0) (.evaluate ⟨1, 11⟩ (.number ⟨1, 11⟩ 0)) []]

/-- A routine for the end of the program in the first part of a loop. -/
def endInLoop : Compilation :=
  (Context.new {}).compile true (routineInLoop "end")

theorem endInLoop_result : endInLoop.result = .ok [.label "end", .label "loop1start", .set .a (.literal 0),
    .basic .ifn .a (.literal 1), .jump "loop1end", .set .a (.literal 0), .jump "loop1start", .label "loop1end",
    .label "end", .jump "end"] := by
  decide +kernel

theorem passes_agree_iff_endInLoop : ∃ listing known,
    endInLoop.result = .ok listing ∧ endInLoop.Passes true (routineInLoop "end") listing known ∧
      ¬ ∀ name, name ∈ routinesIn (routineInLoop "end") ↔ name ∈ known := by
  obtain ⟨known, passes, _, agree, _, _⟩ := passes_agree_iff endInLoop_result
  refine ⟨_, known, endInLoop_result, passes, ?_⟩
  rw [agree]
  intro registered
  have isKnown : "end" ∈ known := registered "end" (by decide)
  exact absurd ((passes.gathered "end").mp isKnown) (by decide)

/-- The routine is not registered and does not keep the halt loop away, so its label is defined twice. One with
the name of a register is accepted in its place. -/
theorem routine_in_loop_is_not_registered :
    (∃ listing, endInLoop.result = .ok listing ∧
      listing.labels = ["end", "loop1start", "loop1end", "end"]) ∧
    endInLoop.trail.toList.filterMap Event.registered? = [[]] ∧
    endInLoop.trail.toList.filterMap Event.begun? = ["end"] ∧
    ((Context.new {}).compile true (routineInLoop "A")).result.isOk = true ∧
    nameClash? "A" = some .register :=
  ⟨⟨_, endInLoop_result, by decide⟩, by decide +kernel, by decide +kernel, by decide +kernel, by decide +kernel⟩

end Dcpu
