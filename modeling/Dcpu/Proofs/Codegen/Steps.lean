import Dcpu.Codegen.Program
import Dcpu.Proofs.Slots.Consistency

/-! # What the steps of code generation do

Each step of code generation, applied to a state, is given by the state behind it. A slot for an
intermediate result is held, and a scope is open, exactly while their bodies run.
-/

namespace Dcpu

open Effects

namespace Emission

def start (context : Context) : Emission := ⟨context, 0, #[]⟩

def noted (state : Emission) (event : Event) : Emission :=
  { state with trail := state.trail.push event }

def withSlots (state : Emission) (slots : Slots) : Emission :=
  { state with context := { state.context with slots } }

def tagged (state : Emission) : Emission :=
  { state with context := { state.context with tags := state.context.tags + 1 } }

def holding (state : Emission) (slot : Word) : Emission :=
  { state.withSlots (state.context.slots.occupy slot) with held := state.held + 1 }.noted (.acquired slot)

def dropping (state : Emission) (slot : Word) : Emission :=
  { state.withSlots (state.context.slots.release slot) with held := state.held - 1 }.noted
    (.released slot)

def listing (state : Emission) : Listing :=
  listingOf state.trail

@[simp] theorem context_noted (state : Emission) (event : Event) :
    (state.noted event).context = state.context := rfl

@[simp] theorem held_noted (state : Emission) (event : Event) :
    (state.noted event).held = state.held := rfl

theorem listing_noted (state : Emission) (event : Event) :
    (state.noted event).listing = state.listing ++ event.line?.toList := by
  cases line : event.line? <;> simp [listing, listingOf, noted, List.filterMap_append, line]

@[simp] theorem listing_tagged (state : Emission) : state.tagged.listing = state.listing := rfl

@[simp] theorem listing_withSlots (state : Emission) (slots : Slots) :
    (state.withSlots slots).listing = state.listing := rfl

@[simp] theorem listing_holding (state : Emission) (slot : Word) :
    (state.holding slot).listing = state.listing := by
  simp [holding, listing_noted, Event.line?]
  rfl

@[simp] theorem listing_dropping (state : Emission) (slot : Word) :
    (state.dropping slot).listing = state.listing := by
  simp [dropping, listing_noted, Event.line?]
  rfl

end Emission

namespace Gen

def access (want : Want) (name : String) (scope : ScopeId) (position : Source.Position) : Gen Unit := do
  let address ← addressOf name scope position
  emit (.set .a (want.operand address))

@[simp] theorem record_apply (event : Event) (state : Emission) :
    record event state = .ok () (state.noted event) := rfl

@[simp] theorem emit_apply (line : Line) (state : Emission) :
    emit line state = .ok () (state.noted (.emitted line)) := rfl

@[simp] theorem slots_apply (state : Emission) : slots state = .ok state.context.slots state := rfl

@[simp] theorem nextTag_apply (stem : String) (state : Emission) :
    nextTag stem state = .ok (Tag.text stem (state.context.tags + 1)) state.tagged := rfl

/-- A request that is granted changes the allocator and nothing else. -/
theorem of_onSlots_eq_ok {α : Type} {position : Source.Position} {step : Alloc α} {state after : Emission}
    {value : α} (granted : onSlots position step state = .ok value after) :
    ∃ slots, step state.context.slots = .ok value slots ∧ after = state.withSlots slots := by
  simp only [onSlots] at granted
  cases ran : step state.context.slots with
  | ok given slots =>
    rw [ran] at granted
    cases granted
    exact ⟨slots, rfl, rfl⟩
  | error error slots => simp [ran] at granted

/-- A body with a clean-up succeeds exactly when both do, one after the other. -/
theorem always_eq_ok_iff {body after : Gen Unit} {state final : Emission} :
    always body after state = .ok () final ↔
      ∃ middle, body state = .ok () middle ∧ after middle = .ok () final := by
  simp only [always]
  cases body state with
  | ok value middle => simp
  | error error middle =>
    simp only [reduceCtorEq, false_and, exists_false, iff_false]
    cases after middle <;> simp

/-- Steps with a slot for an intermediate result: the lowest free address is held while they run. -/
theorem withScratch_eq_ok_iff {position : Source.Position} {body : Word → Gen Unit}
    {state final : Emission} : withScratch position body state = .ok () final ↔
      ∃ slot middle, state.context.slots.free? = some slot ∧
        body slot (state.holding slot) = .ok () middle ∧ final = middle.dropping slot := by
  rw [withScratch, bind_apply, acquire]
  cases free : state.context.slots.free? with
  | none => simp [bind_apply, onSlots, Slots.acquire_of_full free]
  | some slot =>
    have acquired : onSlots position Slots.acquire state =
        .ok slot (state.withSlots (state.context.slots.occupy slot)) := by
      simp [onSlots, Slots.acquire_of_free free, Emission.withSlots]
    simp only [bind_apply, acquired, modify_apply, record_apply, pure_apply, always_eq_ok_iff]
    constructor
    · rintro ⟨middle, ran, rest⟩
      cases rest
      exact ⟨slot, middle, rfl, ran, rfl⟩
    · rintro ⟨_, middle, same, ran, rfl⟩
      cases same
      exact ⟨middle, ran, rfl⟩

/-- Steps in a scope of their own: it is open while they run. -/
theorem inScope_eq_ok_iff {parent : ScopeId} {position : Source.Position}
    {body : ScopeId → Gen Unit} {state final : Emission} :
    inScope parent position body state = .ok () final ↔ ∃ scope slots middle behind,
      Slots.openChild parent state.context.slots = .ok scope slots ∧
      body scope ((state.withSlots slots).noted (.opened scope parent)) = .ok () middle ∧
      Slots.close scope middle.context.slots = .ok () behind ∧
      final = (middle.withSlots behind).noted (.closed scope) := by
  rw [inScope, bind_apply, openScope]
  simp only [bind_apply, onSlots]
  cases opened : Slots.openChild parent state.context.slots with
  | error error slots => simp
  | ok scope slots =>
    simp only [record_apply, pure_apply, always_eq_ok_iff]
    constructor
    · rintro ⟨middle, ran, rest⟩
      simp only [closeScope, bind_apply, onSlots] at rest
      cases closed : Slots.close scope middle.context.slots with
      | error error behind => simp [closed] at rest
      | ok value behind =>
        rw [closed] at rest
        cases rest
        exact ⟨scope, slots, middle, behind, rfl, ran, closed, rfl⟩
    · rintro ⟨_, _, middle, behind, same, ran, closed, rfl⟩
      cases same
      refine ⟨middle, ran, ?_⟩
      simp [closeScope, bind_apply, onSlots, closed, Emission.withSlots]

/-- An address is found for the screen, or for the variable that the allocator gives for a name. A variable that
is new is told of. -/
theorem addressOf_eq_ok {name : String} {scope : ScopeId} {position : Source.Position} {state after : Emission}
    {address : Word} (found : addressOf name scope position state = .ok address after) :
    Slots.isScreen name = true ∧ address = state.context.slots.screen ∧ after = state ∨
      Slots.isScreen name = false ∧ ∃ binding slots,
        Slots.resolve name scope state.context.slots = .ok binding slots ∧ address = binding.address ∧
        (after = state.withSlots slots ∨
          after = (state.withSlots slots).noted (.bound name binding.address binding.origin)) := by
  obtain ⟨_, _, same, found⟩ := bind_eq_ok_iff.mp found
  cases same
  cases screen : Slots.isScreen name with
  | true =>
    simp only [Slots.special?, screen, ↓reduceIte] at found
    cases found
    exact .inl ⟨rfl, rfl, rfl⟩
  | false =>
    simp only [Slots.special?, screen, Bool.false_eq_true, ↓reduceIte] at found
    obtain ⟨binding, _, asked, found⟩ := bind_eq_ok_iff.mp found
    obtain ⟨slots, resolved, rfl⟩ := of_onSlots_eq_ok asked
    refine .inr ⟨rfl, binding, slots, resolved, ?_⟩
    split at found
    · cases found
      exact ⟨rfl, .inr rfl⟩
    · cases found
      exact ⟨rfl, .inl rfl⟩

/-- The screen has an address of its own. -/
theorem addressOf_screen {name : String} (screen : Slots.isScreen name = true) (scope : ScopeId)
    (position : Source.Position) (state : Emission) :
    addressOf name scope position state = .ok state.context.slots.screen state := by
  simp [addressOf, bind_apply, Slots.special?, screen]

/-- A name that is seen from the scope has the address of its variable. -/
theorem addressOf_visible {name : String} (plain : Slots.isScreen name = false) {scope : ScopeId}
    (position : Source.Position) {state : Emission} {held : List Word} {binding : Binding}
    (consistent : state.context.slots.Consistent held)
    (seen : state.context.slots.visible? name scope = some binding) :
    addressOf name scope position state = .ok binding.address state := by
  have notNew : binding.number ≠ state.context.slots.made.size :=
    Nat.ne_of_lt (Slots.Consistent.number_lt (consistent.live_of_visible seen).1)
  simp [addressOf, bind_apply, Slots.special?, plain, onSlots, consistent.resolve_visible seen, notNew]

section Unseen

variable {name : String} {scope : ScopeId} {outer : List ScopeId} {state : Emission} {held : List Word}

/-- A name that is not seen is bound to the lowest free address. -/
theorem addressOf_fresh (plain : Slots.isScreen name = false) (position : Source.Position)
    (consistent : state.context.slots.Consistent held)
    (opened : state.context.slots.around? scope = some outer)
    (unseen : state.context.slots.visible? name scope = none) {address : Word}
    (free : state.context.slots.free? = some address) :
    addressOf name scope position state = .ok address ((state.withSlots (state.context.slots.bound
      ⟨state.context.slots.made.size, name, address, scope⟩)).noted (.bound name address scope)) := by
  simp [addressOf, bind_apply, map_apply, Slots.special?, plain, onSlots,
    consistent.resolve_fresh opened unseen free, Emission.withSlots]

/-- A name that is not seen is refused when no address is free. -/
theorem addressOf_full (plain : Slots.isScreen name = false) (position : Source.Position)
    (consistent : state.context.slots.Consistent held)
    (opened : state.context.slots.around? scope = some outer)
    (unseen : state.context.slots.visible? name scope = none)
    (full : state.context.slots.free? = none) :
    addressOf name scope position state = .error (.slots .memoryExhausted position) state := by
  simp [addressOf, bind_apply, Slots.special?, plain, onSlots, consistent.resolve_full opened unseen full]

end Unseen

end Gen

/-- A program is compiled in a context when code for it is made, and then its listing is what was emitted. -/
theorem Context.compile_eq_ok {context : Context} {haltLoop : Bool} {program : Source.Program} {listing : Listing}
    (compiled : (context.compile haltLoop program).result = .ok listing) :
    ∃ after, programCode haltLoop program (.start context) = .ok () after ∧ listing = after.listing ∧
      (context.compile haltLoop program).context = after.context ∧
      (context.compile haltLoop program).trail = after.trail := by
  rw [Emission.start]
  cases ran : programCode haltLoop program ⟨context, 0, #[]⟩ with
  | error error after => simp [compile, ran] at compiled
  | ok _ after =>
    rw [compile, ran] at compiled ⊢
    exact ⟨after, rfl, (Except.ok.inj compiled).symm, rfl, rfl⟩

/-- A program is compiled under settings only if they are usable and it is compiled in a fresh context. -/
theorem compileProgram_eq_ok {settings : Settings} {program : Source.Program} {listing : Listing}
    (compiled : (compileProgram settings program).result = .ok listing) :
    ∃ after, programCode settings.haltLoop program (.start (.new settings)) = .ok () after ∧
      listing = after.listing ∧ (compileProgram settings program).context = after.context := by
  cases valid : settings.validate with
  | error error => simp [compileProgram, valid] at compiled
  | ok _ =>
    rw [compileProgram, valid] at compiled ⊢
    cases result : ((Context.new settings).compile settings.haltLoop program).result with
    | error error => simp [result] at compiled
    | ok whole =>
      obtain ⟨after, ran, emitted, same, _⟩ := Context.compile_eq_ok result
      simp only [result] at compiled ⊢
      exact ⟨after, ran, (Except.ok.inj compiled) ▸ emitted, same⟩

end Dcpu
