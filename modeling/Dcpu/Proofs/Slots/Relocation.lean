import Dcpu.Proofs.Simulation
import Dcpu.Proofs.Slots.Closing
import Mathlib.Data.List.Basic

/-! # The allocator in another range

Whatever the allocator does in one range it does in any other that has as much room: every address is as
far from the beginning of the one range as its counterpart is from the beginning of the other. Only a
request that finds the first range full may be granted in the second.
-/

namespace Dcpu

open Effects

/-- Two ranges of addresses, of which the second has at least the room of the first. -/
structure Relocation where
  first : Word
  last : Word
  newFirst : Word
  newLast : Word
  ordered : first ≤ last
  newOrdered : newFirst ≤ newLast
  room : last - first ≤ newLast - newFirst

namespace Relocation

variable (relocation : Relocation)

def Has (address : Word) : Prop :=
  relocation.first ≤ address ∧ address ≤ relocation.last

instance (address : Word) : Decidable (relocation.Has address) :=
  inferInstanceAs (Decidable (_ ∧ _))

def shift (address : Word) : Word :=
  address - relocation.first + relocation.newFirst

/-- The counterpart of an address in the first range; other addresses stay where they are. -/
def place (address : Word) : Word :=
  if relocation.Has address then relocation.shift address else address

theorem shift_injective : Function.Injective relocation.shift := by
  intro one other same
  have apart : one - relocation.first = other - relocation.first := by simpa [shift] using same
  simpa using apart

variable {relocation}

theorem Has.place_eq {address : Word} (has : relocation.Has address) :
    relocation.place address = relocation.shift address :=
  if_pos has

theorem room_toNat : relocation.last.toNat - relocation.first.toNat ≤
    relocation.newLast.toNat - relocation.newFirst.toNat := by
  have room := UInt16.le_iff_toNat_le.mp relocation.room
  rwa [UInt16.toNat_sub_of_le _ _ relocation.ordered, UInt16.toNat_sub_of_le _ _ relocation.newOrdered]
    at room

/-- An address of the range keeps its distance from the beginning. -/
theorem Has.toNat_shift {address : Word} (has : relocation.Has address) :
    (relocation.shift address).toNat =
      address.toNat - relocation.first.toNat + relocation.newFirst.toNat := by
  have high := UInt16.le_iff_toNat_le.mp has.2
  have newOrdered := UInt16.le_iff_toNat_le.mp relocation.newOrdered
  have small := relocation.newLast.toNat_lt
  have room := relocation.room_toNat
  rw [shift, UInt16.toNat_add, UInt16.toNat_sub_of_le _ _ has.1]
  exact Nat.mod_eq_of_lt (by omega)

theorem Has.shift_lt_shift_iff {address other : Word} (has : relocation.Has address)
    (otherHas : relocation.Has other) :
    relocation.shift address < relocation.shift other ↔ address < other := by
  have low := UInt16.le_iff_toNat_le.mp has.1
  have otherLow := UInt16.le_iff_toNat_le.mp otherHas.1
  rw [UInt16.lt_iff_toNat_lt, UInt16.lt_iff_toNat_lt, has.toNat_shift, otherHas.toNat_shift]
  omega

end Relocation

section Tables

variable {shift : Word → Word}

def Binding.moved (shift : Word → Word) (binding : Binding) : Binding :=
  { binding with address := shift binding.address }

namespace Scope

def moved (shift : Word → Word) (scope : Scope) : Scope :=
  { scope with byAddress := scope.byAddress.map (Prod.map shift id) }

theorem filter_moved (injective : Function.Injective shift) (entries : List (Word × Nat)) (address : Word) :
    (entries.map (Prod.map shift id)).filter (·.1 != shift address) =
      (entries.filter (·.1 != address)).map (Prod.map shift id) := by
  rw [List.filter_map]
  congr 2
  funext entry
  simp [injective.eq_iff, bne]

theorem lookup_moved (injective : Function.Injective shift) (entries : List (Word × Nat)) (address : Word) :
    (entries.map (Prod.map shift id)).lookup (shift address) = entries.lookup address := by
  induction entries with
  | nil => rfl
  | cons entry entries ih =>
    obtain ⟨key, number⟩ := entry
    simp only [List.map_cons, Prod.map_apply, List.lookup_cons, ih, id]
    by_cases same : address = key
    · simp [same]
    · rw [beq_false_of_ne same, beq_false_of_ne (injective.ne same)]

theorem enter_moved (injective : Function.Injective shift) (scope : Scope) (binding : Binding) :
    (scope.moved shift).enter (binding.moved shift) = (scope.enter binding).moved shift := by
  simp only [enter, moved, Binding.moved, filter_moved injective, List.map_cons, Prod.map_apply, id]

theorem holds_moved (injective : Function.Injective shift) (scope : Scope) (binding : Binding) :
    (scope.moved shift).holds (binding.moved shift) = scope.holds binding := by
  simp only [holds, moved, Binding.moved, lookup_moved injective]

theorem strike_moved (injective : Function.Injective shift) (scope : Scope) (binding : Binding) :
    (scope.moved shift).strike (binding.moved shift) = (scope.strike binding).moved shift := by
  have held := holds_moved injective scope binding
  simp only [strike, held]
  cases scope.holds binding with
  | true => simp [moved, Binding.moved, filter_moved injective]
  | false => simp [moved, Binding.moved]

end Scope

end Tables

namespace Slots

variable {relocation : Relocation} {slots : Slots}

def moved (relocation : Relocation) (slots : Slots) : Slots where
  first := relocation.newFirst
  last := relocation.newLast
  screen := slots.screen
  scopes := slots.scopes.map (Scope.moved relocation.shift)
  made := slots.made.map (Binding.moved relocation.shift)
  occupied := slots.occupied.map relocation.shift

/-- The allocator works in the first range, and the screen is outside it. -/
structure Housed (relocation : Relocation) (slots : Slots) : Prop where
  first : slots.first = relocation.first
  last : slots.last = relocation.last
  screen : ¬ relocation.Has slots.screen
  occupied : ∀ address ∈ slots.occupied, relocation.Has address
  made : ∀ binding ∈ slots.made, relocation.Has binding.address

section Occupancy

/-- The first gap is as far from the beginning of the one range as from that of the other. -/
theorem firstGap_moved {start : Nat} (atLeast : relocation.first.toNat ≤ start) {addresses : List Word}
    (inside : ∀ address ∈ addresses, relocation.Has address) :
    firstGap (start - relocation.first.toNat + relocation.newFirst.toNat)
        (addresses.map relocation.shift) =
      firstGap start addresses - relocation.first.toNat + relocation.newFirst.toNat := by
  induction addresses generalizing start with
  | nil => rfl
  | cons address above ih =>
    obtain ⟨has, aboveHas⟩ := List.forall_mem_cons.mp inside
    have low := UInt16.le_iff_toNat_le.mp has.1
    simp only [List.map_cons, firstGap, has.toNat_shift]
    by_cases same : address.toNat = start
    · have next := ih (Nat.le_succ_of_le atLeast) aboveHas
      rw [if_pos same, if_pos (by omega), ← next]
      congr 1
      omega
    · rw [if_neg same, if_neg (by omega)]

/-- An address is inserted at the same place in both ranges. -/
theorem insertAscending_moved {address : Word} (has : relocation.Has address) {addresses : List Word}
    (inside : ∀ other ∈ addresses, relocation.Has other) :
    insertAscending (relocation.shift address) (addresses.map relocation.shift) =
      (insertAscending address addresses).map relocation.shift := by
  induction addresses with
  | nil => rfl
  | cons other above ih =>
    obtain ⟨otherHas, aboveHas⟩ := List.forall_mem_cons.mp inside
    simp only [List.map_cons, insertAscending, has.shift_lt_shift_iff otherHas]
    split
    · rfl
    · rw [ih aboveHas, List.map_cons]

/-- The lowest free address of the second range is the counterpart of that of the first. -/
theorem Housed.free?_moved (housed : slots.Housed relocation) {address : Word}
    (free : slots.free? = some address) :
    relocation.Has address ∧ (slots.moved relocation).free? = some (relocation.shift address) := by
  have low := le_firstGap relocation.first.toNat slots.occupied
  have ordered := UInt16.le_iff_toNat_le.mp relocation.ordered
  have newOrdered := UInt16.le_iff_toNat_le.mp relocation.newOrdered
  have room := relocation.room_toNat
  simp only [free?, housed.first, housed.last, Option.ite_none_right_eq_some, Option.some.injEq] at free
  obtain ⟨bound, rfl⟩ := free
  have value : (UInt16.ofNat (firstGap relocation.first.toNat slots.occupied)).toNat =
      firstGap relocation.first.toNat slots.occupied :=
    UInt16.toNat_ofNat_of_lt' (Nat.lt_of_le_of_lt bound relocation.last.toNat_lt_size)
  have has : relocation.Has (UInt16.ofNat (firstGap relocation.first.toNat slots.occupied)) :=
    ⟨UInt16.le_iff_toNat_le.mpr (by omega), UInt16.le_iff_toNat_le.mpr (by omega)⟩
  have gap := firstGap_moved (Nat.le_refl _) housed.occupied
  rw [Nat.sub_self, Nat.zero_add] at gap
  have counterpart := has.toNat_shift
  rw [value, ← gap] at counterpart
  have within : firstGap relocation.newFirst.toNat (slots.occupied.map relocation.shift) ≤
      relocation.newLast.toNat := by omega
  refine ⟨has, (if_pos within).trans (congrArg some ?_)⟩
  exact (congrArg UInt16.ofNat counterpart.symm).trans UInt16.ofNat_toNat

/-- Taking an address in one range is taking the paired one in the other. -/
theorem Housed.occupy_moved (housed : slots.Housed relocation) {address : Word} (has : relocation.Has address) :
    (slots.moved relocation).occupy (relocation.shift address) = (slots.occupy address).moved relocation := by
  simp only [occupy, moved, insertAscending_moved has housed.occupied]

theorem Housed.occupy (housed : slots.Housed relocation) {address : Word} (has : relocation.Has address) :
    (slots.occupy address).Housed relocation := by
  refine ⟨housed.first, housed.last, housed.screen, fun other member => ?_, housed.made⟩
  obtain rfl | member := mem_insertAscending.mp member
  · exact has
  · exact housed.occupied other member

theorem release_moved (slots : Slots) (address : Word) :
    (slots.moved relocation).release (relocation.shift address) = (slots.release address).moved relocation := by
  simp only [release, moved, List.map_erase relocation.shift_injective]

/-- An allocator that makes no variables and takes no addresses stays in its range. -/
theorem Housed.of_frame (housed : slots.Housed relocation) {other : Slots} (first : other.first = slots.first)
    (last : other.last = slots.last) (screen : other.screen = slots.screen) (made : other.made = slots.made)
    (occupied : other.occupied ⊆ slots.occupied) : other.Housed relocation :=
  ⟨first.trans housed.first, last.trans housed.last, screen ▸ housed.screen,
    fun address member => housed.occupied address (occupied member), made ▸ housed.made⟩

theorem Housed.bind (housed : slots.Housed relocation) (scope : ScopeId) {binding : Binding}
    (has : relocation.Has binding.address) : (slots.bind scope binding).Housed relocation := by
  refine ⟨housed.first, housed.last, housed.screen, housed.occupied, fun other member => ?_⟩
  obtain member | rfl := Array.mem_push.mp member
  · exact housed.made other member
  · exact has

theorem Housed.strike (housed : slots.Housed relocation) (scope : ScopeId) (binding : Binding) :
    (slots.strike scope binding).Housed relocation := by
  obtain ⟨first, last, screen⟩ := slots.bounds_strike scope binding
  refine housed.of_frame first last screen (slots.made_strike scope binding) ?_
  rw [Slots.strike]
  split
  · exact List.Subset.refl _
  · dsimp only
    split
    · exact List.erase_subset
    · exact List.Subset.refl _

theorem Housed.closed (housed : slots.Housed relocation) (scope : ScopeId) (tables : Scope) :
    (slots.closed scope tables).Housed relocation := by
  have struck : (slots.strikeAll tables.outer (slots.listed tables)).Housed relocation :=
    List.foldlRecOn _ _ housed fun _ housed binding _ =>
      List.foldlRecOn _ _ housed fun _ housed outer _ => housed.strike outer binding
  exact struck.of_frame rfl rfl rfl rfl (List.Subset.refl _)

end Occupancy

section Tables

theorem getElem?_scopes_moved (slots : Slots) (scope : ScopeId) : (slots.moved relocation).scopes[scope]? =
    slots.scopes[scope]?.map (Scope.moved relocation.shift) :=
  Array.getElem?_map

/-- Changing the tables of one scope commutes with mapping all of them. -/
theorem modify_scopes_map (mapped change changed : Scope → Scope)
    (commutes : ∀ scope, changed (mapped scope) = mapped (change scope)) (scopes : Array Scope)
    (scope : ScopeId) : (scopes.map mapped).modify scope changed =
      (scopes.modify scope change).map mapped := by
  apply Array.ext_getElem?
  intro other
  simp only [Array.getElem?_modify, Array.getElem?_map]
  split
  · cases scopes[other]? with
    | none => rfl
    | some tables => simp [commutes]
  · rfl

theorem enter_moved (slots : Slots) (scope : ScopeId) (binding : Binding) :
    (slots.moved relocation).enter scope (binding.moved relocation.shift) =
      (slots.enter scope binding).moved relocation := by
  have entered := modify_scopes_map _ (·.enter binding) (·.enter (binding.moved relocation.shift)) fun tables =>
    tables.enter_moved relocation.shift_injective binding
  simp only [enter, moved, entered]

theorem clear_moved (slots : Slots) (scope : ScopeId) :
    (slots.moved relocation).clear scope = (slots.clear scope).moved relocation := by
  have emptied := modify_scopes_map (Scope.moved relocation.shift) (.empty ·.outer) (.empty ·.outer) fun _ => rfl
  simp only [clear, moved, emptied]

theorem bind_moved (slots : Slots) (scope : ScopeId) (binding : Binding) :
    (slots.moved relocation).bind scope (binding.moved relocation.shift) =
      (slots.bind scope binding).moved relocation := by
  rw [bind, bind, ← enter_moved]
  simp only [moved, Array.map_push]

theorem strike_moved (slots : Slots) (scope : ScopeId) (binding : Binding) :
    (slots.moved relocation).strike scope (binding.moved relocation.shift) =
      (slots.strike scope binding).moved relocation := by
  cases opened : slots.scopes[scope]? with
  | none => simp [strike, getElem?_scopes_moved, opened]
  | some tables =>
    -- Entries are told apart by their addresses, so that injectivity decides which of them are struck.
    have struck := modify_scopes_map _ (·.strike binding) (·.strike (binding.moved relocation.shift))
      fun tables => tables.strike_moved relocation.shift_injective binding
    simp only [strike, getElem?_scopes_moved, opened, Option.map_some,
      tables.holds_moved relocation.shift_injective]
    change (if tables.holds binding && tables.outer.isEmpty then _ else _) = _
    split
    · rw [← release_moved]
      simp only [moved, struck]
      rfl
    · simp only [moved, struck]

theorem strikeAll_moved (slots : Slots) (outer : List ScopeId) (closing : List Binding) :
    (slots.moved relocation).strikeAll outer (closing.map (Binding.moved relocation.shift)) =
      (slots.strikeAll outer closing).moved relocation := by
  rw [strikeAll, strikeAll, List.foldl_map]
  apply List.foldl_hom
  intro slots binding
  apply List.foldl_hom
  intro slots scope
  exact slots.strike_moved scope binding

theorem listed_moved (slots : Slots) (tables : Scope) :
    (slots.moved relocation).listed (tables.moved relocation.shift) =
      (slots.listed tables).map (Binding.moved relocation.shift) := by
  simp only [listed, List.map_filterMap, moved, Array.getElem?_map, Scope.moved]

theorem closed_moved (slots : Slots) (scope : ScopeId) (tables : Scope) :
    (slots.moved relocation).closed scope (tables.moved relocation.shift) =
      (slots.closed scope tables).moved relocation := by
  rw [closed, closed, listed_moved, ← clear_moved, ← strikeAll_moved]
  rfl

theorem named_moved (slots : Slots) (scope : ScopeId) (name : String) :
    (slots.moved relocation).named scope name =
      (slots.named scope name).map (Binding.moved relocation.shift) := by
  cases opened : slots.scopes[scope]? with
  | none => simp [named, getElem?_scopes_moved, opened]
  | some tables =>
    simp only [named, getElem?_scopes_moved, opened, Option.map_some, List.map_filterMap, Scope.moved]
    congr 1
    funext row
    simp only [moved, Array.getElem?_map]
    split
    · rfl
    · rfl

/-- Looking for a name commutes with moving all addresses. -/
theorem candidate?_moved (slots : Slots) (name : String) (scope origin : ScopeId) :
    (slots.moved relocation).candidate? name scope origin =
      (slots.candidate? name scope origin).map (Binding.moved relocation.shift) := by
  simp only [candidate?, named_moved, ← List.map_reverse, List.find?_map, Option.map_or]
  rfl

/-- What the tables answer was made by the allocator. -/
theorem mem_made_of_candidate? {name : String} {scope origin : ScopeId} {binding : Binding}
    (found : slots.candidate? name scope origin = some binding) : binding ∈ slots.made := by
  have member := mem_named_of_candidate? found
  rw [named] at member
  split at member
  · cases member
  · obtain ⟨row, _, listed⟩ := List.mem_filterMap.mp member
    simp only [Option.ite_none_right_eq_some] at listed
    exact Array.mem_of_getElem? listed.2

end Tables

section Runs

variable (relocation)

/-- An allocator of the first range beside the same of the second. -/
def relocated : Pairing SlotError Slots where
  alike slots other := slots.Housed relocation ∧ other = slots.moved relocation
  excused error := error = .memoryExhausted
  blame := id

/-- Allocators for two ranges begin alike. -/
theorem new_relocated {screen : Word} (outside : ¬ relocation.Has screen) :
    (relocated relocation).alike (new relocation.first relocation.last screen)
      (new relocation.newFirst relocation.newLast screen) :=
  ⟨⟨rfl, rfl, outside, nofun, nofun⟩, by simp [new, moved, Scope.moved, Scope.empty]⟩

/-- An address that the first range has, the second has too. -/
theorem acquire_relocated : Follows (relocated relocation)
    (fun address other => relocation.Has address ∧ other = relocation.shift address) acquire acquire := by
  rintro slots _ ⟨housed, rfl⟩
  cases free : slots.free? with
  | none =>
    rw [acquire_of_full free]
    exact .inl rfl
  | some address =>
    obtain ⟨has, moved⟩ := housed.free?_moved free
    rw [acquire_of_free free]
    exact ⟨_, _, acquire_of_free moved, ⟨housed.occupy has, housed.occupy_moved has⟩, has, rfl⟩

theorem tables_relocated (scope : ScopeId) : Follows (relocated relocation)
    (fun tables other => other = tables.moved relocation.shift) (tables scope) (tables scope) := by
  apply follows_bind follows_get
  rintro slots _ ⟨_, rfl⟩
  rw [getElem?_scopes_moved]
  cases slots.scopes[scope]? with
  | none => exact follows_throw (SlotError.unknownScope scope)
  | some tables => exact follows_pure rfl

theorem openChild_relocated (parent : ScopeId) :
    Follows (relocated relocation) Eq (openChild parent) (openChild parent) := by
  apply follows_bind (tables_relocated relocation parent)
  rintro around _ rfl
  apply follows_bind follows_get
  rintro slots _ ⟨_, rfl⟩
  apply follows_then
  · apply follows_modify
    rintro slots _ ⟨housed, rfl⟩
    refine ⟨housed.of_frame rfl rfl rfl rfl (List.Subset.refl _), ?_⟩
    simp only [moved, Array.map_push]
    rfl
  · exact follows_pure Array.size_map.symm

/-- Looking a name up finds the counterpart of what it finds in the first range, at each scope on the way
outwards and, where none has the name, in the variable that is made. -/
theorem resolveFrom_relocated (name : String) (origin scope : ScopeId) (outer : List ScopeId) :
    Follows (relocated relocation)
      (fun binding other => relocation.Has binding.address ∧ other = binding.moved relocation.shift)
      (resolveFrom name origin scope outer) (resolveFrom name origin scope outer) := by
  induction outer generalizing scope with
  | nil =>
    apply follows_bind follows_get
    rintro slots _ ⟨housed, rfl⟩
    rw [candidate?_moved]
    cases found : slots.candidate? name scope origin with
    | some binding => exact follows_pure ⟨housed.made binding (mem_made_of_candidate? found), rfl⟩
    | none =>
      apply follows_bind (acquire_relocated relocation)
      rintro address _ ⟨has, rfl⟩
      apply follows_bind follows_get
      rintro slots _ ⟨_, rfl⟩
      -- The new variable has the same number on both sides.
      have size : (slots.moved relocation).made.size = slots.made.size := Array.size_map
      rw [size]
      apply follows_then
      · apply follows_modify
        rintro before _ ⟨housed, rfl⟩
        exact ⟨housed.bind scope has, before.bind_moved scope ⟨slots.made.size, name, address, origin⟩⟩
      · exact follows_pure ⟨has, rfl⟩
  | cons parent outer ih =>
    apply follows_bind follows_get
    rintro slots _ ⟨housed, rfl⟩
    rw [candidate?_moved]
    cases found : slots.candidate? name scope origin with
    | some binding => exact follows_pure ⟨housed.made binding (mem_made_of_candidate? found), rfl⟩
    | none =>
      apply follows_bind (ih parent)
      rintro binding _ ⟨has, rfl⟩
      change Follows _ _ _ (if binding.origin = scope then _ else _)
      by_cases owner : binding.origin = scope
      · simp only [owner, ↓reduceIte]
        apply follows_then
        · apply follows_modify
          rintro slots _ ⟨housed, rfl⟩
          exact ⟨housed.of_frame rfl rfl rfl rfl (List.Subset.refl _), slots.enter_moved scope binding⟩
        · exact follows_pure ⟨has, rfl⟩
      · simp only [owner, ↓reduceIte]
        exact follows_pure ⟨has, rfl⟩

/-- A name is found or made at paired addresses. -/
theorem resolve_relocated (name : String) (scope : ScopeId) : Follows (relocated relocation)
    (fun binding other => relocation.Has binding.address ∧ other = binding.moved relocation.shift)
    (resolve name scope) (resolve name scope) := by
  apply follows_bind (tables_relocated relocation scope)
  rintro tables _ rfl
  exact resolveFrom_relocated relocation name scope scope tables.outer

theorem close_relocated (scope : ScopeId) :
    Follows (relocated relocation) (fun _ _ => True) (close scope) (close scope) := by
  apply follows_bind (tables_relocated relocation scope)
  rintro tables _ rfl
  change Follows _ _ _ (if tables.outer = [] then _ else _)
  by_cases root : tables.outer = []
  · simp only [root, ↓reduceIte]
    exact follows_throw SlotError.rootClosed
  · simp only [root, ↓reduceIte]
    apply follows_modify
    rintro slots _ ⟨housed, rfl⟩
    exact ⟨housed.closed scope tables, slots.closed_moved scope tables⟩

end Runs

end Slots

end Dcpu
