import Dcpu.Proofs.Codegen.RoutineEvents

/-! # The warnings of a compilation

A compilation warns of every definition of a name that is defined before it, and then, where the call stands,
of every call for which the expressions around it hold slots. The number it tells is that of the slots. It
warns of nothing else.
-/

namespace Dcpu

open Source

/-- Whether an event is a line that calls a routine. -/
def Event.isCall : Event → Bool
  | .emitted (.instruction (.jsr _)) => true
  | _ => false

/-- Whether an event is a warning or a line that calls a routine. -/
def Event.warnsOrCalls (event : Event) : Bool :=
  event.level = .warn || event.isCall

theorem Event.isAboutRoutines_of_warnsOrCalls {event : Event} (either : event.warnsOrCalls = true) :
    event.isAboutRoutines = true := by
  cases event with
  | emitted line =>
    simp only [warnsOrCalls, level, isCall] at either
    split at either
    next target same =>
      rw [same]
      rfl
    next => cases either
  | _ => first | rfl | cases either

/-- No event is graver than a warning. -/
theorem Event.detail_record_le_iff (event : Event) :
    event.record.level.detail ≤ Level.warn.detail ↔ event.level = .warn := by
  cases event <;> simp [record, level, Level.detail]

namespace Source

theorem CallSite.warnsOrCalls_of_mem_events {site : CallSite} {event : Event} (member : event ∈ site.events) :
    event.warnsOrCalls = true := by
  obtain ⟨_, _, _, rfl⟩ | ⟨_, rfl⟩ := CallSite.mem_events member <;> rfl

theorem CallSite.filter_warn_events (site : CallSite) :
    site.events.filter (·.level = .warn) = site.warning?.toList := by
  simp only [CallSite.events, CallSite.warning?, CallSite.callee?]
  split <;> split <;> rfl

end Source

/-- What landmarks tell of warnings and calls is what the calls among them tell. -/
theorem filter_flatMap_landmarks (landmarks : List Landmark) :
    (landmarks.flatMap Landmark.events).filter Event.warnsOrCalls =
      (landmarks.filterMap Landmark.site?).flatMap CallSite.events := by
  induction landmarks with
  | nil => rfl
  | cons landmark landmarks ih =>
    rw [List.flatMap_cons, List.filter_append, ih]
    cases landmark with
    | routine name position => rfl
    | call site =>
      have all : site.events.filter Event.warnsOrCalls = site.events :=
        List.filter_eq_self.mpr fun _ => CallSite.warnsOrCalls_of_mem_events
      simp only [Landmark.events, all, List.filterMap_cons, Landmark.site?, List.flatMap_cons]

/-- The warnings of calls are those due at them, in their order. -/
theorem filter_warn_flatMap (sites : List CallSite) :
    (sites.flatMap CallSite.events).filter (·.level = .warn) = sites.filterMap CallSite.warning? := by
  rw [List.filter_flatMap, List.filterMap_eq_flatMap_toList]
  exact congrArg sites.flatMap (funext CallSite.filter_warn_events)

theorem filter_redefined (definitions : List (String × Position)) {keep : Event → Bool}
    (keeps : ∀ definition, keep (redefined definition) = true) :
    (definitions.map redefined).filter keep = definitions.map redefined := by
  apply List.filter_eq_self.mpr
  intro event member
  obtain ⟨definition, _, rfl⟩ := List.mem_map.mp member
  exact keeps definition

/-- The warnings and calls on the trail of a compilation: definitions of names that are defined before them,
and then the calls of the program in the order of their code, with a warning before each that is due one. -/
theorem Context.compile_warns {context : Context} {haltLoop : Bool} {program : Program} {listing : Listing}
    (compiled : (context.compile haltLoop program).result = .ok listing) :
    (context.compile haltLoop program).trail.toList.filter Event.warnsOrCalls =
      (redefinitions (definitionsIn program)).map redefined ++ (callSitesIn program).flatMap CallSite.events := by
  obtain ⟨known, _, _, told⟩ := compile_tells compiled
  have narrower (event : Event) :
      event.warnsOrCalls = (event.warnsOrCalls && event.isAboutRoutines) := by
    cases either : event.warnsOrCalls with
    | false => rfl
    | true => exact (Event.isAboutRoutines_of_warnsOrCalls either).symm
  have ends : (if haltLoop && !known.contains endLabel then [Event.haltAppended] else []).filter
      Event.warnsOrCalls = [] := by
    split <;> rfl
  calc _ = ((context.compile haltLoop program).trail.toList.filter Event.isAboutRoutines).filter
        Event.warnsOrCalls := by
        rw [List.filter_filter]
        exact List.filter_congr fun event _ => narrower event
    _ = (routineEvents haltLoop program known).filter Event.warnsOrCalls := by
        rw [told]
    _ = _ := by
        rw [routineEvents, List.filter_append, filter_redefined _ fun _ => rfl,
          List.filter_cons_of_neg Bool.false_ne_true, List.filter_append, filter_flatMap_landmarks, ends,
          List.append_nil, callSitesIn]

/-- The warnings of a compilation are those due: one for each definition of a name that is defined before it, in
the order of the definitions, and one for each call, other than one that ends the program, for which slots are
held, in the order of the code. Each stands on the trail right before the line of its call. -/
theorem warnings_are_those_due {context : Context} {haltLoop : Bool} {program : Program} {listing : Listing}
    (compiled : (context.compile haltLoop program).result = .ok listing) :
    Record.upTo .warn ((context.compile haltLoop program).trail.toList.map Event.record) =
      ((redefinitions (definitionsIn program)).map redefined ++
        (callSitesIn program).filterMap CallSite.warning?).map Event.record ∧
    (context.compile haltLoop program).trail.toList.filter Event.warnsOrCalls =
      (redefinitions (definitionsIn program)).map redefined ++ (callSitesIn program).flatMap CallSite.events := by
  refine ⟨?_, Context.compile_warns compiled⟩
  have warnings : (context.compile haltLoop program).trail.toList.filter (·.level = .warn) =
      (redefinitions (definitionsIn program)).map redefined ++
        (callSitesIn program).filterMap CallSite.warning? := by
    have both := congrArg (List.filter (·.level = .warn)) (Context.compile_warns compiled)
    rw [List.filter_filter, List.filter_append, filter_warn_flatMap, filter_redefined _ fun _ => rfl] at both
    rw [← both]
    exact List.filter_congr fun event _ => by simpa [Event.warnsOrCalls] using Or.inl
  rw [Record.upTo, List.filter_map, ← warnings]
  congr 1
  exact List.filter_congr fun event _ => by simp [event.detail_record_le_iff]

/-- A routine that is defined twice and called in both operands of a sum and in the index of its target. -/
def nestedCalls : Program :=
  [.routine ⟨1, 1⟩ "f" [], .routine ⟨2, 1⟩ "f" [],
    .assign ⟨3, 1⟩ [.index ⟨3, 2⟩ (.name ⟨3, 1⟩ "x")
        (.compare ⟨3, 4⟩ (.number ⟨3, 3⟩ 1) [(.less, .call ⟨3, 5⟩ "f")])]
      (.binary ⟨3, 11⟩ .add (.call ⟨3, 10⟩ "f") (.call ⟨3, 12⟩ "f"))]

theorem warnings_are_those_due_nestedCalls : ∃ listing,
    ((Context.new {}).compile true nestedCalls).result = .ok listing ∧
      Record.upTo .warn (((Context.new {}).compile true nestedCalls).trail.toList.map Event.record) =
        [⟨.warn, "routine 'f' redefined at line 2 column 1"⟩,
          ⟨.warn, "call to 'f' at line 3 column 12 while 1 scratch slot(s) are live; " ++
            "the routine may overwrite them"⟩,
          ⟨.warn, "call to 'f' at line 3 column 5 while 3 scratch slot(s) are live; " ++
            "the routine may overwrite them"⟩] ∧
      ((Context.new {}).compile true nestedCalls).trail.toList.filter Event.warnsOrCalls =
        [.redefined "f" ⟨2, 1⟩, .emitted (.jsr "f"), .callWhileHolding "f" ⟨3, 12⟩ 1, .emitted (.jsr "f"),
          .callWhileHolding "f" ⟨3, 5⟩ 3, .emitted (.jsr "f")] := by
  have succeeds : ((Context.new {}).compile true nestedCalls).result.isOk = true := by decide +kernel
  cases compiled : ((Context.new {}).compile true nestedCalls).result with
  | error error => simp [compiled, Except.isOk, Except.toBool] at succeeds
  | ok listing =>
    obtain ⟨records, events⟩ := warnings_are_those_due compiled
    exact ⟨listing, rfl, records.trans (by decide +kernel), events.trans (by decide +kernel)⟩

end Dcpu
