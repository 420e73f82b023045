import Dcpu.Proofs.Codegen.Ledger
import Dcpu.Proofs.Codegen.Steps

/-! # Code generation keeps its ledger

Whatever code is generated, and whether or not it fails, the events it leaves are lawful: they may be
entered one after the other into a ledger that mirrors the allocator at the beginning, and the ledger
mirrors the allocator again at the end. Slots that were held before are held afterwards, and no scope
that was open before is closed.
-/

namespace Dcpu

open Source Effects

/-- Allocators that have the same scopes open have opened equally many. -/
theorem Slots.size_eq_of_around {slots after : Slots} (same : after.around? = slots.around?) :
    after.scopes.size = slots.scopes.size := by
  apply Nat.le_antisymm
  · apply Nat.le_of_not_lt
    intro more
    have opened := (after.around?_isSome_iff slots.scopes.size).mpr more
    rw [same, slots.around?_isSome_iff] at opened
    exact Nat.lt_irrefl _ opened
  · apply Nat.le_of_not_lt
    intro more
    have opened := (slots.around?_isSome_iff after.scopes.size).mpr more
    rw [← same, after.around?_isSome_iff] at opened
    exact Nat.lt_irrefl _ opened

/-- A ledger tells of an allocator, with the innermost scope that is open, what the allocator has in
its tables. -/
structure Ledger.Mirrors (ledger : Ledger) (scope : ScopeId) (slots : Slots) : Prop where
  bounds : ledger.first = slots.first ∧ ledger.last = slots.last ∧ ledger.screen = slots.screen
  consistent : slots.Consistent ledger.held
  path : ∃ outer, slots.around? scope = some outer ∧ ledger.path = scope :: outer
  scopes : ledger.scopes = slots.scopes.size
  live : ∀ binding, binding ∈ ledger.live ↔ slots.Live binding
  made : ledger.made = slots.made.size

namespace Ledger.Mirrors

variable {ledger : Ledger} {scope : ScopeId} {slots : Slots}

/-- The addresses in use are those of the ledger. -/
theorem mem_addresses (mirrors : ledger.Mirrors scope slots) (address : Word) :
    address ∈ ledger.addresses ↔ address ∈ slots.occupied := by
  rw [mirrors.consistent.used, addresses, List.mem_append, List.mem_map, or_comm]
  simp only [mirrors.live]

/-- An address that the allocator offers is free in the ledger. -/
theorem isFree (mirrors : ledger.Mirrors scope slots) {address : Word}
    (free : slots.free? = some address) : ledger.IsFree address := by
  obtain ⟨fresh, inside, _⟩ := mirrors.consistent.ranged.free?_eq_some free
  rw [IsFree, mirrors.mem_addresses, mirrors.bounds.1, mirrors.bounds.2.1]
  exact ⟨inside, fresh⟩

/-- An open scope has a number below those of the scopes to come. -/
theorem lt_scopes (mirrors : ledger.Mirrors scope slots) {other : ScopeId}
    (member : other ∈ ledger.path) : other < ledger.scopes := by
  obtain ⟨outer, opened, path⟩ := mirrors.path
  rw [path, List.mem_cons] at member
  rw [mirrors.scopes, ← slots.around?_isSome_iff]
  obtain rfl | member := member
  · simp [opened]
  · exact (mirrors.consistent.around_lt opened other member).2

theorem acquired (mirrors : ledger.Mirrors scope slots) {slot : Word} (free : slots.free? = some slot) :
    (ledger.note (.acquired slot)).Mirrors scope (slots.occupy slot) :=
  ⟨mirrors.bounds, mirrors.consistent.occupy free, mirrors.path, mirrors.scopes, mirrors.live, mirrors.made⟩

theorem released (mirrors : ledger.Mirrors scope slots) {slot : Word} (isHeld : slot ∈ ledger.held) :
    (ledger.note (.released slot)).Mirrors scope (slots.release slot) :=
  ⟨mirrors.bounds, mirrors.consistent.release isHeld, mirrors.path, mirrors.scopes, mirrors.live,
    mirrors.made⟩

theorem opened (mirrors : ledger.Mirrors scope slots) {outer : List ScopeId}
    (isOpen : slots.around? scope = some outer) :
    (ledger.note (.opened slots.scopes.size scope)).Mirrors slots.scopes.size
      (slots.opened (scope :: outer)) := by
  obtain ⟨around, found, path⟩ := mirrors.path
  cases isOpen.symm.trans found
  refine ⟨mirrors.bounds, mirrors.consistent.opened_child isOpen, ⟨scope :: outer, ?_, ?_⟩, ?_, ?_,
    mirrors.made⟩
  · simp [Slots.around?_opened]
  · simp [note, path]
  · simp [note, Slots.opened, mirrors.scopes]
  · intro binding
    rw [slots.live_opened]
    exact mirrors.live binding

/-- The innermost scope of a ledger can be closed, and closing it is noted as the allocator does it. -/
theorem closed (mirrors : ledger.Mirrors scope slots) {parent : ScopeId} {outer : List ScopeId}
    (path : ledger.path = scope :: parent :: outer) :
    ∃ behind, Slots.close scope slots = .ok () behind ∧
      (ledger.note (.closed scope)).Mirrors parent behind := by
  obtain ⟨around, found, innermost⟩ := mirrors.path
  cases path.symm.trans innermost
  obtain ⟨tables, present, outerEq⟩ := Option.map_eq_some_iff.mp found
  have inner : scope ≠ 0 := by
    rintro rfl
    cases mirrors.consistent.root.symm.trans found
  obtain ⟨_, _, _, parentOpened, same⟩ := mirrors.consistent.nested scope _ found inner
  cases same
  refine ⟨_, Slots.close_eq present (by simp [outerEq]), ?_, mirrors.consistent.closed present inner,
    ⟨outer, ?_, ?_⟩, ?_, ?_, ?_⟩
  · obtain ⟨first, last, screen⟩ := Slots.Consistent.bounds_closed slots scope tables
    rw [first, last, screen]
    exact mirrors.bounds
  · rw [Slots.Consistent.around?_closed]
    exact parentOpened
  · simp [note, path]
  · rw [Slots.size_eq_of_around (Slots.Consistent.around?_closed ..)]
    exact mirrors.scopes
  · intro binding
    rw [mirrors.consistent.live_closed present inner, ← mirrors.live]
    simp [note]
  · rw [Slots.Consistent.made_closed]
    exact mirrors.made

/-- Making a variable is noted as the allocator does it. -/
theorem bound (mirrors : ledger.Mirrors scope slots) {name : String} {address : Word}
    (unseen : slots.live scope name = none) (free : slots.free? = some address) :
    (ledger.note (.bound name address scope)).Mirrors scope
      (slots.bound ⟨slots.made.size, name, address, scope⟩) := by
  obtain ⟨outer, found, path⟩ := mirrors.path
  have below : scope < slots.scopes.size := (slots.around?_isSome_iff scope).mp (by simp [found])
  refine ⟨?_, mirrors.consistent.bound below rfl unseen free, ⟨outer, ?_, path⟩, ?_, ?_, ?_⟩
  · obtain ⟨first, last, screen⟩ := slots.bounds_bound ⟨slots.made.size, name, address, scope⟩
    rw [first, last, screen]
    exact mirrors.bounds
  · rw [Slots.around?_bound]
    exact found
  · rw [Slots.size_eq_of_around (Slots.around?_bound ..)]
    exact mirrors.scopes
  · intro binding
    rw [mirrors.consistent.live_bound below rfl, ← mirrors.live, ← mirrors.made]
    exact List.mem_cons
  · simp [note, Slots.made_bound, mirrors.made]

end Ledger.Mirrors

namespace Emission

def entering (state : Emission) (parent : ScopeId) (outer : List ScopeId) : Emission :=
  (state.withSlots (state.context.slots.opened (parent :: outer))).noted
    (.opened state.context.slots.scopes.size parent)

def leaving (state : Emission) (scope : ScopeId) (behind : Slots) : Emission :=
  (state.withSlots behind).noted (.closed scope)

@[simp] theorem trail_noted (state : Emission) (event : Event) :
    (state.noted event).trail.toList = state.trail.toList ++ [event] := by
  simp [noted]

@[simp] theorem trail_holding (state : Emission) (slot : Word) :
    (state.holding slot).trail.toList = state.trail.toList ++ [.acquired slot] :=
  trail_noted _ _

@[simp] theorem trail_dropping (state : Emission) (slot : Word) :
    (state.dropping slot).trail.toList = state.trail.toList ++ [.released slot] :=
  trail_noted _ _

@[simp] theorem trail_entering (state : Emission) (parent : ScopeId) (outer : List ScopeId) :
    (state.entering parent outer).trail.toList =
      state.trail.toList ++ [.opened state.context.slots.scopes.size parent] :=
  trail_noted _ _

@[simp] theorem trail_leaving (state : Emission) (scope : ScopeId) (behind : Slots) :
    (state.leaving scope behind).trail.toList = state.trail.toList ++ [.closed scope] :=
  trail_noted _ _

end Emission

/-- Steps in a scope have left lawful events, with the same slots held and the same scopes open at
their end, none of which was closed on the way. -/
structure Emission.Records (ledger : Ledger) (scope : ScopeId) (state : Emission) (events : List Event)
    (after : Emission) : Prop where
  trail : after.trail.toList = state.trail.toList ++ events
  lawful : ledger.Lawful events
  mirrors : (ledger.replay events).Mirrors scope after.context.slots
  held : (ledger.replay events).held = ledger.held
  path : (ledger.replay events).path = ledger.path
  inside : ∀ other ∈ ledger.path, .closed other ∉ events

namespace Emission.Records

variable {ledger : Ledger} {scope : ScopeId} {state middle after : Emission} {events more : List Event}

theorem refl (mirrors : ledger.Mirrors scope state.context.slots) :
    state.Records ledger scope [] state :=
  ⟨by simp, trivial, mirrors, rfl, rfl, by simp⟩

/-- What two steps record one after the other is recorded by both together. -/
theorem trans (first : state.Records ledger scope events middle)
    (second : middle.Records (ledger.replay events) scope more after) :
    state.Records ledger scope (events ++ more) after := by
  refine ⟨?_, Ledger.lawful_append.mpr ⟨first.lawful, second.lawful⟩, ?_, ?_, ?_, ?_⟩
  · rw [second.trail, first.trail, List.append_assoc]
  · rw [Ledger.replay_append]
    exact second.mirrors
  · rw [Ledger.replay_append, second.held, first.held]
  · rw [Ledger.replay_append, second.path, first.path]
  · intro other member inEvents
    obtain inFirst | inSecond := List.mem_append.mp inEvents
    · exact first.inside other member inFirst
    · exact second.inside other (first.path ▸ member) inSecond

/-- A variable of a scope that was open before stays, once it is live. -/
theorem live_later (records : state.Records ledger scope events after) {past later : List Event}
    {binding : Binding} (isOpen : binding.origin ∈ ledger.path) (order : past <+: later)
    (within : later <+: events) (isLive : binding ∈ (ledger.replay past).live) :
    binding ∈ (ledger.replay later).live := by
  obtain ⟨between, rfl⟩ := order
  rw [Ledger.replay_append]
  apply Ledger.mem_live_replay isLive
  intro closed
  exact records.inside _ isOpen (within.subset (List.mem_append_right _ closed))

/-- Steps in a scope of their own end with that scope innermost. -/
theorem path_entered {inner : ScopeId} {outer : List ScopeId} (path : ledger.path = scope :: outer)
    (records : state.Records (ledger.note (.opened inner scope)) inner events after) :
    ((ledger.note (.opened inner scope)).replay events).path = inner :: scope :: outer := by
  rw [records.path]
  simp [Ledger.note, path]

/-- An event that leaves slots and scopes as they are. -/
theorem noted (mirrors : ledger.Mirrors scope state.context.slots) {event : Event}
    (permitted : ledger.Permits event) (unchanged : ledger.note event = ledger)
    (closesNone : ∀ other, event ≠ .closed other) :
    state.Records ledger scope [event] (state.noted event) := by
  refine ⟨by simp, ⟨permitted, trivial⟩, ?_, ?_, ?_, ?_⟩
  · simpa [unchanged] using mirrors
  · simp [unchanged]
  · simp [unchanged]
  · intro other _ member
    exact closesNone other (List.mem_singleton.mp member).symm

/-- A line whose addresses stand for something. -/
theorem emitted (mirrors : ledger.Mirrors scope state.context.slots) {line : Line} {mentions : List Mention}
    (explains : ledger.Explains mentions line) :
    state.Records ledger scope [.emitted line] (state.noted (.emitted line)) :=
  noted mirrors ⟨mentions, explains⟩ rfl (by simp)

end Emission.Records

/-- Steps have bound, for their scope, none but the given names, and if they succeeded, then each of the names
has a variable that outlasts them. The name of the screen never has one. The lines are explained by the given
mentions of names. -/
structure Emission.Binds (ledger : Ledger) (scope : ScopeId) (names : List String) (mentions : List Mention)
    (succeeded : Prop) (events : List Event) : Prop where
  only : ∀ name address, .bound name address scope ∈ events → name ∈ names ∧ Slots.isScreen name = false
  each : succeeded → ∀ name ∈ names, Slots.isScreen name = false →
    ∃ binding ∈ (ledger.replay events).live, binding.name = name ∧ binding.origin ∈ ledger.path
  spells : ledger.Spells mentions events

/-- Whether an event tells nothing of slots, scopes and lines. -/
def Event.isAside : Event → Bool
  | .opened .. | .closed .. | .acquired .. | .released .. | .bound .. | .emitted .. => false
  | _ => true

/-- The state that steps end in, whether or not they fail. -/
def Gen.after {α : Type} (steps : Gen α) (state : Emission) : Emission :=
  match steps state with
  | .ok _ final => final
  | .error _ final => final

/-- Wherever steps run in a scope with the given slots held, they keep the ledger. -/
def Gen.Keeps {α : Type} (needed : List Word) (scope : ScopeId) (steps : Gen α) : Prop :=
  ∀ (ledger : Ledger) (state : Emission), ledger.Mirrors scope state.context.slots →
    (∀ slot ∈ needed, slot ∈ ledger.held) →
    ∃ events, state.Records ledger scope events (steps.after state)

namespace Gen

variable {α β : Type} {needed : List Word} {scope : ScopeId}

theorem after_of_ok {steps : Gen α} {state final : Emission} {value : α}
    (ran : steps state = .ok value final) : steps.after state = final := by
  rw [after, ran]

/-- A sequence whose first part succeeds ends where the rest ends. -/
theorem after_bind {first : Gen α} {next : α → Gen β} {state middle : Emission} {value : α}
    (ran : first state = .ok value middle) : (first >>= next).after state = (next value).after middle := by
  rw [after, bind_apply, ran]
  rfl

/-- What is always done behind some steps begins where they end. -/
theorem after_always (body behind : Gen Unit) (state : Emission) :
    (always body behind).after state = behind.after (body.after state) := by
  simp only [always, after]
  cases body state with
  | ok _ middle => rfl
  | error error middle =>
    dsimp only
    cases behind middle <;> rfl

theorem keeps_pure (value : α) : Keeps needed scope (pure value : Gen α) :=
  fun _ _ mirrors _ => ⟨[], .refl mirrors⟩

theorem keeps_throw (error : CompileError) : Keeps needed scope (throw error : Gen α) :=
  fun _ _ mirrors _ => ⟨[], .refl mirrors⟩

theorem keeps_get : Keeps needed scope (get : Gen Emission) :=
  fun _ _ mirrors _ => ⟨[], .refl mirrors⟩

theorem keeps_nextTag (stem : String) : Keeps needed scope (nextTag stem) :=
  fun _ _ mirrors _ => ⟨[], (List.append_nil _).symm, trivial, mirrors, rfl, rfl, by simp⟩

/-- Steps that keep the ledger one after the other keep it together. -/
theorem keeps_bind {first : Gen α} {next : α → Gen β} (keepsFirst : Keeps needed scope first)
    (keepsNext : ∀ value, Keeps needed scope (next value)) : Keeps needed scope (first >>= next) := by
  intro ledger state mirrors isHeld
  obtain ⟨events, records⟩ := keepsFirst ledger state mirrors isHeld
  rw [after] at records ⊢
  rw [bind_apply]
  cases ran : first state with
  | error error middle =>
    rw [ran] at records
    exact ⟨events, records⟩
  | ok value middle =>
    rw [ran] at records
    obtain ⟨more, further⟩ := keepsNext value _ middle records.mirrors (records.held.symm ▸ isHeld)
    exact ⟨events ++ more, records.trans further⟩

theorem keeps_record {event : Event} (aside : event.isAside = true) : Keeps needed scope (record event) := by
  intro ledger state mirrors _
  cases event with
  | opened | closed | acquired | released | bound | emitted => cases aside
  | _ => exact ⟨_, .noted mirrors trivial rfl nofun⟩

/-- A line that names only slots that are held. -/
theorem keeps_emit {line : Line} (placed : ∀ address ∈ line.places, address ∈ needed) :
    Keeps needed scope (emit line) := by
  intro ledger state mirrors isHeld
  have explains : ledger.Explains [] line :=
    .slots fun address member => isHeld address (placed address member)
  exact ⟨_, .emitted mirrors explains⟩

theorem keeps_emitAll {lines : List Line}
    (placed : ∀ line ∈ lines, ∀ address ∈ line.places, address ∈ needed) :
    Keeps needed scope (emitAll lines) := by
  induction lines with
  | nil => exact keeps_pure ()
  | cons line lines ih =>
    apply keeps_bind (keeps_emit (placed line (List.mem_cons_self ..)))
    intro _
    exact ih fun other member => placed other (List.mem_cons_of_mem _ member)

theorem acquire_eq {state : Emission} {slot : Word} (position : Position)
    (free : state.context.slots.free? = some slot) :
    acquire position state = .ok slot (state.holding slot) := by
  simp [acquire, bind_apply, map_apply, onSlots, Slots.acquire_of_free free, Emission.holding,
    Emission.withSlots]

/-- Steps with a slot end by giving the slot back, whether or not they fail. -/
theorem after_withScratch {position : Position} {body : Word → Gen Unit} {state : Emission} {slot : Word}
    (free : state.context.slots.free? = some slot) :
    (withScratch position body).after state = ((body slot).after (state.holding slot)).dropping slot := by
  rw [withScratch, after_bind (acquire_eq position free), after_always]
  rfl

/-- What steps with a slot leave: the taking of the slot, their own events with the slot held, and its
giving back. -/
theorem withScratch_records {ledger : Ledger} {state middle : Emission} {slot : Word} {events : List Event}
    (mirrors : ledger.Mirrors scope state.context.slots) (free : state.context.slots.free? = some slot)
    (records : (state.holding slot).Records (ledger.note (.acquired slot)) scope events middle) :
    state.Records ledger scope (.acquired slot :: (events ++ [.released slot])) (middle.dropping slot) := by
  have slotHeld : slot ∈ ((ledger.note (.acquired slot)).replay events).held :=
    records.held.symm ▸ List.mem_cons_self ..
  refine ⟨?_, ?_, ?_, ?_, ?_, ?_⟩
  · simp [records.trail]
  · exact ⟨mirrors.isFree free, Ledger.lawful_append.mpr ⟨records.lawful, slotHeld, trivial⟩⟩
  · rw [Ledger.replay_cons, Ledger.replay_append]
    exact records.mirrors.released slotHeld
  · rw [Ledger.replay_cons, Ledger.replay_append]
    change List.erase ((ledger.note (.acquired slot)).replay events).held slot = ledger.held
    rw [records.held]
    exact List.erase_cons_head ..
  · rw [Ledger.replay_cons, Ledger.replay_append]
    exact records.path
  · intro other member
    have outside := records.inside other member
    simpa using outside

/-- With no address left, a slot cannot be taken, and the body does not run. -/
theorem withScratch_of_full {position : Position} {body : Word → Gen Unit} {state : Emission}
    (full : state.context.slots.free? = none) :
    withScratch position body state = .error (.slots .memoryExhausted position) state := by
  simp [withScratch, bind_apply, acquire, onSlots, Slots.acquire_of_full full]

/-- A slot that is taken is held with those that were held before. -/
theorem held_acquired {ledger : Ledger} {slot : Word} (isHeld : ∀ other ∈ needed, other ∈ ledger.held) :
    ∀ other ∈ slot :: needed, other ∈ (ledger.note (.acquired slot)).held := by
  intro other member
  obtain rfl | member := List.mem_cons.mp member
  · exact List.mem_cons_self ..
  · exact List.mem_cons_of_mem _ (isHeld other member)

/-- A slot is given back behind a body, whether the body succeeds or not. -/
theorem keeps_withScratch {position : Position} {body : Word → Gen Unit}
    (keepsBody : ∀ slot, Keeps (slot :: needed) scope (body slot)) :
    Keeps needed scope (withScratch position body) := by
  intro ledger state mirrors isHeld
  cases free : state.context.slots.free? with
  | none =>
    have stays : (withScratch position body).after state = state := by rw [after, withScratch_of_full free]
    rw [stays]
    exact ⟨[], .refl mirrors⟩
  | some slot =>
    rw [after_withScratch free]
    obtain ⟨events, records⟩ := keepsBody slot _ (state.holding slot) (mirrors.acquired free)
      (held_acquired isHeld)
    exact ⟨_, withScratch_records mirrors free records⟩

theorem openScope_eq {state : Emission} {outer : List ScopeId} (position : Position)
    (isOpen : state.context.slots.around? scope = some outer) :
    openScope scope position state =
      .ok state.context.slots.scopes.size (state.entering scope outer) := by
  simp [openScope, bind_apply, map_apply, onSlots, Slots.openChild_eq isOpen, Emission.withSlots,
    Emission.entering]

/-- Steps in a scope of their own end by closing the scope, whether or not they fail. -/
theorem after_inScope {position : Position} {body : ScopeId → Gen Unit} {state middle : Emission}
    {outer : List ScopeId} {behind : Slots} (isOpen : state.context.slots.around? scope = some outer)
    (ran : (body state.context.slots.scopes.size).after (state.entering scope outer) = middle)
    (closes : Slots.close state.context.slots.scopes.size middle.context.slots = .ok () behind) :
    (inScope scope position body).after state =
      middle.leaving state.context.slots.scopes.size behind := by
  rw [inScope, after_bind (openScope_eq position isOpen), after_always, ran, after, closeScope,
    bind_apply, onSlots, closes]
  rfl

/-- What steps in a scope of their own leave: the opening, their own events with the scope open, and
the closing. -/
theorem inScope_records {position : Position} {body : ScopeId → Gen Unit} {ledger : Ledger} {state : Emission}
    {outer : List ScopeId} {events : List Event} (mirrors : ledger.Mirrors scope state.context.slots)
    (isOpen : state.context.slots.around? scope = some outer)
    (records : (state.entering scope outer).Records (ledger.note (.opened state.context.slots.scopes.size scope))
      state.context.slots.scopes.size events
      ((body state.context.slots.scopes.size).after (state.entering scope outer))) :
    state.Records ledger scope
      (.opened state.context.slots.scopes.size scope :: (events ++ [.closed state.context.slots.scopes.size]))
      ((inScope scope position body).after state) := by
  obtain ⟨around, found, path⟩ := mirrors.path
  cases isOpen.symm.trans found
  have inner := records.path_entered path
  obtain ⟨behind, closes, closed⟩ := records.mirrors.closed inner
  rw [after_inScope isOpen rfl closes]
  refine ⟨?_, ?_, ?_, ?_, ?_, ?_⟩
  · simp [records.trail]
  · exact ⟨⟨mirrors.scopes.symm, outer, path⟩,
      Ledger.lawful_append.mpr ⟨records.lawful, ⟨_, inner⟩, trivial⟩⟩
  · rw [Ledger.replay_cons, Ledger.replay_append]
    exact closed
  · rw [Ledger.replay_cons, Ledger.replay_append]
    exact records.held
  · rw [Ledger.replay_cons, Ledger.replay_append, path]
    exact congrArg List.tail inner
  · intro other member
    have outside := records.inside other (List.mem_cons_of_mem _ member)
    have below : other < state.context.slots.scopes.size := mirrors.scopes ▸ mirrors.lt_scopes member
    simpa [outside] using Nat.ne_of_lt below

/-- A scope is closed behind a body, whether the body succeeds or not. -/
theorem keeps_inScope {position : Position} {body : ScopeId → Gen Unit}
    (keepsBody : ∀ inner, Keeps needed inner (body inner)) :
    Keeps needed scope (inScope scope position body) := by
  intro ledger state mirrors isHeld
  obtain ⟨outer, isOpen, _⟩ := mirrors.path
  obtain ⟨events, records⟩ := keepsBody _ _ (state.entering scope outer) (mirrors.opened isOpen) isHeld
  exact ⟨_, inScope_records mirrors isOpen records⟩

section Access

variable {want : Want} {name : String} {position : Position} {ledger : Ledger} {state : Emission}

theorem spells_line {line : Line} {mentions : List Mention} (explains : ledger.Explains mentions line) :
    ledger.Spells mentions [.emitted line] := by
  simpa [Ledger.Spells, Event.line?] using explains

/-- What the line of a name leaves if the name is not visible and there is room: the name is bound. -/
private theorem access_fresh_binds {address : Word} {outer : List ScopeId}
    (mirrors : ledger.Mirrors scope state.context.slots) (path : ledger.path = scope :: outer)
    (isOpen : state.context.slots.around? scope = some outer) (plain : Slots.isScreen name = false)
    (unseen : state.context.slots.visible? name scope = none)
    (free : state.context.slots.free? = some address) (succeeded : Prop) :
    ∃ events, state.Records ledger scope events ((access want name scope position).after state) ∧
      Emission.Binds ledger scope [name] [⟨want, name⟩] succeeded events := by
  have unbound : state.context.slots.live scope name = none := by
    rw [Slots.visible?_eq isOpen] at unseen
    exact List.findSome?_eq_none_iff.mp unseen scope (List.mem_cons_self ..)
  let made : Binding := ⟨state.context.slots.made.size, name, address, scope⟩
  have binds : state.Records ledger scope [.bound name address scope]
      ((state.withSlots (state.context.slots.bound made)).noted (.bound name address scope)) :=
    ⟨Emission.trail_noted _ _, ⟨⟨mirrors.isFree free, outer, path⟩, trivial⟩,
      mirrors.bound unbound free, rfl, rfl, by simp⟩
  have isLive : ⟨ledger.made, name, address, scope⟩ ∈ (ledger.note (.bound name address scope)).live :=
    List.mem_cons_self ..
  have explains : (ledger.note (.bound name address scope)).Explains [⟨want, name⟩]
      (.set .a (want.operand address)) :=
    @Ledger.Explains.bound _ _ ⟨want, name⟩ _ (List.mem_singleton_self _) plain isLive rfl
  rw [access, after_bind (addressOf_fresh plain position mirrors.consistent isOpen unseen free)]
  refine ⟨_, binds.trans (.emitted binds.mirrors explains), ?_, fun _ other member _ => ?_,
    ⟨by simp [Event.line?], spells_line explains⟩⟩
  · intro other place member
    have same : other = name ∧ place = address := by simpa using member
    exact ⟨List.mem_singleton.mpr same.1, same.1 ▸ plain⟩
  · cases List.mem_singleton.mp member
    exact ⟨_, isLive, rfl, path.symm ▸ List.mem_cons_self ..⟩

/-- What the line of a name leaves: at most the name is bound, and unless the range is full, it has a variable
then. -/
theorem access_binds (mirrors : ledger.Mirrors scope state.context.slots) :
    ∃ events, state.Records ledger scope events ((access want name scope position).after state) ∧
      Emission.Binds ledger scope [name] [⟨want, name⟩]
        (∃ value final, access want name scope position state = .ok value final) events := by
  obtain ⟨outer, isOpen, path⟩ := mirrors.path
  by_cases screen : Slots.isScreen name = true
  · have explains : ledger.Explains [⟨want, name⟩] (.set .a (want.operand state.context.slots.screen)) := by
      rw [← mirrors.bounds.2.2]
      exact @Ledger.Explains.screen _ _ ⟨want, name⟩ (List.mem_singleton_self _) screen
    rw [access, after_bind (addressOf_screen screen scope position state)]
    exact ⟨_, .emitted mirrors explains, by simp, by simp [screen], spells_line explains⟩
  have plain := Bool.eq_false_iff.mpr screen
  cases seen : state.context.slots.visible? name scope with
  | some binding =>
    obtain ⟨live, rfl, around, found, member⟩ := mirrors.consistent.live_of_visible seen
    cases isOpen.symm.trans found
    have isLive := (mirrors.live binding).mpr live
    have explains : ledger.Explains [⟨want, binding.name⟩] (.set .a (want.operand binding.address)) :=
      @Ledger.Explains.bound _ _ ⟨want, binding.name⟩ _ (List.mem_singleton_self _) plain isLive rfl
    rw [access, after_bind (addressOf_visible plain position mirrors.consistent seen)]
    refine ⟨_, .emitted mirrors explains, by simp, fun _ name member _ => ?_, spells_line explains⟩
    cases List.mem_singleton.mp member
    exact ⟨binding, isLive, rfl, path.symm ▸ ‹_›⟩
  | none =>
    cases free : state.context.slots.free? with
    | none =>
      have full := addressOf_full plain position mirrors.consistent isOpen seen free
      rw [access, after, bind_apply, full]
      exact ⟨[], .refl mirrors, by simp, by simp, trivial⟩
    | some address => exact access_fresh_binds mirrors path isOpen plain seen free _

end Access

/-- The line that reads or addresses a variable keeps the ledger. -/
theorem keeps_access (want : Want) (name : String) (position : Position) :
    Keeps needed scope (access want name scope position) := by
  intro ledger state mirrors _
  obtain ⟨events, records, _⟩ := access_binds mirrors
  exact ⟨events, records⟩

end Gen

end Dcpu
