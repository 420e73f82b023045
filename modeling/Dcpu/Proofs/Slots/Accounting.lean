import Dcpu.Proofs.Slots.Lexical
import Mathlib.Data.List.Nodup
import Mathlib.Data.List.Perm.Subperm

/-! # Every address in use is accounted for

An address is in use for a live variable or for one intermediate result, and for nothing else. New
variables and new intermediate results take the lowest address that is not in use, and requests for
an address are refused exactly when the whole range is in use.
-/

namespace Dcpu

/-- A request for which an address has to be found: a new intermediate result, or a name that an open
scope does not see. -/
def SlotRequest.NeedsAddress (slots : Slots) : SlotRequest → Prop
  | .acquire => True
  | .resolve name scope => (slots.around? scope).isSome ∧ slots.visible? name scope = none
  | _ => False

namespace Slots

/-- The live variables, in the order of their making. -/
def current (slots : Slots) : List Binding :=
  slots.made.toList.filter fun binding => (binding.name, binding.number) ∈ slots.rows 0

section Granted

open Effects

/-- What a granted request answers, and the allocator behind it. -/
inductive Granted (slots : Slots) : SlotRequest → SlotReply → Slots → Prop where
  | opened {parent : ScopeId} {outer : List ScopeId} : slots.around? parent = some outer →
      Granted slots (.openChild parent) (.opened slots.scopes.size parent)
        (slots.opened (parent :: outer))
  | closed {scope : ScopeId} {tables : Scope} : slots.scopes[scope]? = some tables → scope ≠ 0 →
      Granted slots (.close scope) (.closed scope) (slots.closed scope tables)
  | found {name : String} {scope : ScopeId} {binding : Binding} :
      slots.visible? name scope = some binding →
      Granted slots (.resolve name scope) (.found binding) slots
  | bound {name : String} {scope : ScopeId} {outer : List ScopeId} {address : Word} :
      slots.around? scope = some outer → slots.visible? name scope = none →
      slots.free? = some address →
      Granted slots (.resolve name scope) (.bound ⟨slots.made.size, name, address, scope⟩)
        (slots.bound ⟨slots.made.size, name, address, scope⟩)
  | acquired {address : Word} : slots.free? = some address →
      Granted slots .acquire (.acquired address) (slots.occupy address)
  | released {address : Word} :
      Granted slots (.release address) (.released address) (slots.release address)

inductive Refused (slots : Slots) : SlotRequest → SlotError → Prop where
  | openChild {parent : ScopeId} : slots.around? parent = none →
      Refused slots (.openChild parent) (.unknownScope parent)
  | close {scope : ScopeId} : slots.around? scope = none →
      Refused slots (.close scope) (.unknownScope scope)
  | closeRoot : Refused slots (.close 0) .rootClosed
  | resolve {name : String} {scope : ScopeId} : slots.around? scope = none →
      Refused slots (.resolve name scope) (.unknownScope scope)
  | resolveFull {name : String} {scope : ScopeId} {outer : List ScopeId} :
      slots.around? scope = some outer → slots.visible? name scope = none → slots.free? = none →
      Refused slots (.resolve name scope) .memoryExhausted
  | acquireFull : slots.free? = none → Refused slots .acquire .memoryExhausted

/-- Every request is granted or refused, and a refused one changes nothing. -/
theorem Consistent.granted_or_refused {slots : Slots} {held : List Word}
    (consistent : slots.Consistent held) (request : SlotRequest) :
    (∃ reply after, request.perform slots = .ok reply after ∧ slots.Granted request reply after) ∨
      ∃ error, request.perform slots = .error error slots ∧ slots.Refused request error := by
  cases request with
  | openChild parent =>
    cases isOpen : slots.around? parent with
    | none =>
      refine .inr ⟨_, ?_, .openChild isOpen⟩
      simp [SlotRequest.perform, map_apply, openChild_of_unopened isOpen]
    | some outer =>
      refine .inl ⟨_, _, ?_, .opened isOpen⟩
      simp [SlotRequest.perform, map_apply, openChild_eq isOpen]
  | close scope =>
    cases present : slots.scopes[scope]? with
    | none =>
      have unopened : slots.around? scope = none := by simp [around?, present]
      refine .inr ⟨_, ?_, .close unopened⟩
      simp [SlotRequest.perform, bind_apply, Slots.close, tables_of_unopened unopened]
    | some tables =>
      by_cases root : scope = 0
      · subst root
        refine .inr ⟨_, ?_, .closeRoot⟩
        simp [SlotRequest.perform, map_apply, consistent.close_root]
      · have isOpen : slots.around? scope = some tables.outer := by simp [around?, present]
        have inner : tables.outer ≠ [] := fun nil => root ((consistent.around_eq_nil_iff isOpen).mp nil)
        refine .inl ⟨_, _, ?_, .closed present root⟩
        simp [SlotRequest.perform, map_apply, close_eq present inner]
  | resolve name scope =>
    cases isOpen : slots.around? scope with
    | none =>
      refine .inr ⟨_, ?_, .resolve isOpen⟩
      simp [SlotRequest.perform, bind_apply, Slots.resolve, tables_of_unopened isOpen]
    | some outer =>
      cases seen : slots.visible? name scope with
      | some binding =>
        have notNew : binding.number ≠ slots.made.size :=
          Nat.ne_of_lt (number_lt (consistent.live_of_visible seen).1)
        refine .inl ⟨_, _, ?_, .found seen⟩
        simp [SlotRequest.perform, bind_apply, map_apply, consistent.resolve_visible seen, notNew]
      | none =>
        cases free : slots.free? with
        | none =>
          refine .inr ⟨_, ?_, .resolveFull isOpen seen free⟩
          simp [SlotRequest.perform, bind_apply, map_apply, consistent.resolve_full isOpen seen free]
        | some address =>
          refine .inl ⟨_, _, ?_, .bound isOpen seen free⟩
          simp [SlotRequest.perform, bind_apply, map_apply, consistent.resolve_fresh isOpen seen free]
  | acquire =>
    cases free : slots.free? with
    | none =>
      refine .inr ⟨_, ?_, .acquireFull free⟩
      simp [SlotRequest.perform, map_apply, acquire_of_full free]
    | some address =>
      refine .inl ⟨_, _, ?_, .acquired free⟩
      simp [SlotRequest.perform, map_apply, acquire_of_free free]
  | release address => exact .inl ⟨_, _, rfl, .released⟩

/-- A request that succeeds has granted what it asks for. -/
theorem Consistent.granted {slots after : Slots} {held : List Word} (consistent : slots.Consistent held)
    {request : SlotRequest} {reply : SlotReply} (ran : request.perform slots = .ok reply after) :
    slots.Granted request reply after := by
  obtain ⟨_, _, granted, isGranted⟩ | ⟨_, refusal, _⟩ := consistent.granted_or_refused request
  · cases ran.symm.trans granted
    exact isGranted
  · cases ran.symm.trans refusal

end Granted

namespace Granted

variable {slots after : Slots} {request : SlotRequest} {reply : SlotReply}

/-- The range stays. -/
theorem bounds (granted : slots.Granted request reply after) :
    after.first = slots.first ∧ after.last = slots.last := by
  cases granted with
  | closed present inner =>
    obtain ⟨first, last, _⟩ := Consistent.bounds_closed slots _ _
    exact ⟨first, last⟩
  | bound isOpen unseen free =>
    obtain ⟨first, last, _⟩ := slots.bounds_bound _
    exact ⟨first, last⟩
  | _ => exact ⟨rfl, rfl⟩

end Granted

namespace Consistent

variable {slots : Slots} {held : List Word}

theorem mem_current (consistent : slots.Consistent held) (binding : Binding) :
    binding ∈ slots.current ↔ slots.Live binding := by
  simp only [current, List.mem_filter, decide_eq_true_eq, Array.mem_toList_iff, Live]
  constructor
  · rintro ⟨member, row⟩
    obtain ⟨number, found⟩ := Array.getElem?_of_mem member
    rw [consistent.numbered number binding found] at row ⊢
    exact ⟨row, found⟩
  · rintro ⟨row, found⟩
    exact ⟨Array.mem_of_getElem? found, row⟩

theorem nodup_current (consistent : slots.Consistent held) : slots.current.Nodup := by
  apply List.Nodup.filter
  rw [List.nodup_iff_getElem?_ne_getElem?]
  intro number later before bound same
  have found := List.getElem?_eq_getElem bound
  rw [found, Array.getElem?_toList] at same
  rw [Array.getElem?_toList] at found
  have first := consistent.numbered number _ same
  have second := consistent.numbered later _ found
  omega

/-- The live variables are those that the program's own tables list, by name and by address. -/
theorem mem_current_iff_listed (consistent : slots.Consistent held) (binding : Binding) :
    binding ∈ slots.current ↔ ∃ tables, slots.scopes[0]? = some tables ∧
      binding ∈ slots.listed tables ∧
      tables.byAddress.lookup binding.address = some binding.number := by
  obtain ⟨tables, present, _⟩ := Option.map_eq_some_iff.mp consistent.root
  have rows : slots.rows 0 = tables.byName := by simp [rows, present]
  have holder (address : Word) : slots.holder? address = tables.byAddress.lookup address := by
    simp [holder?, present]
  rw [consistent.mem_current]
  constructor
  · intro live
    refine ⟨tables, present, ?_, ?_⟩
    · exact List.mem_filterMap.mpr ⟨_, rows ▸ live.1, live.2⟩
    · rw [← holder]
      exact (consistent.holding _ _).mpr ⟨binding, live, rfl, rfl⟩
  · rintro ⟨_, same, listed, _⟩
    cases present.symm.trans same
    obtain ⟨⟨name, number⟩, row, made⟩ := List.mem_filterMap.mp listed
    exact ((consistent.live_iff made).mp (rows ▸ row)).1

/-- No address is in use twice. -/
theorem nodup_inUse (consistent : slots.Consistent held) :
    (slots.current.map Binding.address ++ held).Nodup := by
  refine List.nodup_append.mpr ⟨?_, consistent.heldOnce, ?_⟩
  · apply List.Nodup.map_on _ consistent.nodup_current
    intro one oneMember other otherMember same
    exact consistent.eq_of_address ((consistent.mem_current one).mp oneMember)
      ((consistent.mem_current other).mp otherMember) same
  · rintro address member _ isHeld rfl
    obtain ⟨binding, isCurrent, rfl⟩ := List.mem_map.mp member
    exact consistent.apart binding ((consistent.mem_current binding).mp isCurrent) isHeld

/-- The addresses of live bindings and the slots that are held are those in use. -/
theorem mem_inUse (consistent : slots.Consistent held) (address : Word) :
    address ∈ slots.current.map Binding.address ++ held ↔ address ∈ slots.occupied := by
  rw [consistent.used, List.mem_append, List.mem_map]
  simp only [consistent.mem_current]

/-- As many addresses are in use as there are live bindings and slots that are held. -/
theorem occupiedCount_eq (consistent : slots.Consistent held) :
    slots.occupiedCount = (slots.current.map Binding.address ++ held).length := by
  have same : slots.occupied.Perm (slots.current.map Binding.address ++ held) :=
    (List.perm_ext_iff_of_nodup consistent.ranged.ascending.nodup consistent.nodup_inUse).mpr
      fun address => (consistent.mem_inUse address).symm
  exact same.length_eq

end Consistent

/-- The number of addresses of the range, which is zero for a reversed range. -/
def capacity (first last : Word) : Nat :=
  last.toNat + 1 - first.toNat

/-- The whole range is in use exactly when as many addresses are in use as the range has. -/
theorem Ranged.length_eq_capacity_iff {slots : Slots} (ranged : slots.Ranged) :
    slots.occupied.length = capacity slots.first slots.last ↔
      ∀ address, slots.first ≤ address → address ≤ slots.last → address ∈ slots.occupied := by
  let range := List.range' slots.first.toNat (capacity slots.first slots.last)
  have mem_range (number : Nat) :
      number ∈ range ↔ slots.first.toNat ≤ number ∧ number ≤ slots.last.toNat := by
    simp only [range, List.mem_range'_1, capacity]
    omega
  have once : (slots.occupied.map UInt16.toNat).Nodup :=
    ranged.ascending.nodup.map fun _ _ => UInt16.toNat.inj
  have within : slots.occupied.map UInt16.toNat ⊆ range := by
    intro number member
    obtain ⟨address, used, rfl⟩ := List.mem_map.mp member
    obtain ⟨atLeast, atMost⟩ := ranged.inside address used
    exact (mem_range _).mpr ⟨UInt16.le_iff_toNat_le.mp atLeast, UInt16.le_iff_toNat_le.mp atMost⟩
  have lengths : (slots.occupied.map UInt16.toNat).length = slots.occupied.length ∧
      range.length = capacity slots.first slots.last := by simp [range]
  rw [← lengths.1, ← lengths.2]
  constructor
  · intro equal address atLeast atMost
    have whole := (once.subperm within).perm_of_length_le (Nat.le_of_eq equal.symm)
    have member := whole.symm.subset ((mem_range address.toNat).mpr
      ⟨UInt16.le_iff_toNat_le.mp atLeast, UInt16.le_iff_toNat_le.mp atMost⟩)
    obtain ⟨other, used, same⟩ := List.mem_map.mp member
    exact UInt16.toNat.inj same ▸ used
  · intro full
    apply Nat.le_antisymm (once.subperm within).length_le
    have rangeOnce : range.Nodup := List.nodup_range'
    refine (rangeOnce.subperm ?_).length_le
    intro number member
    obtain ⟨atLeast, atMost⟩ := (mem_range number).mp member
    have small := slots.last.toNat_lt
    have value : (UInt16.ofNat number).toNat = number :=
      UInt16.toNat_ofNat_of_lt' (Nat.lt_of_le_of_lt atMost small)
    refine List.mem_map.mpr ⟨UInt16.ofNat number, full _ ?_ ?_, value⟩
    · exact UInt16.le_iff_toNat_le.mpr (value.symm ▸ atLeast)
    · exact UInt16.le_iff_toNat_le.mpr (value.symm ▸ atMost)

/-- An address is the lowest of a range that is not in use. -/
structure IsLowestFree (slots : Slots) (first last address : Word) : Prop where
  inside : first ≤ address ∧ address ≤ last
  unused : slots.isOccupied address = false
  lowest : ∀ lower, first ≤ lower → lower < address → slots.isOccupied lower = true

/-- The addresses in use after the given replies: those of the live variables, and those held for
intermediate results. -/
def inUse (slots : Slots) (history : List SlotReply) : List Word :=
  slots.current.map Binding.address ++ heldBy history

/-- The addresses of a range are accounted for. -/
structure Accounts (first last : Word) (history : List SlotReply) (slots : Slots) : Prop where
  /-- The live variables are those that the program's own tables list. -/
  listed : ∀ binding, binding ∈ slots.current ↔ ∃ tables, slots.scopes[0]? = some tables ∧
    binding ∈ slots.listed tables ∧ tables.byAddress.lookup binding.address = some binding.number
  /-- No two of them, and no two intermediate results, have one address. -/
  apart : (slots.inUse history).Nodup
  inside : ∀ address ∈ slots.inUse history, first ≤ address ∧ address ≤ last
  occupied : ∀ address, slots.isOccupied address = true ↔ address ∈ slots.inUse history
  counted : slots.occupiedCount = (slots.inUse history).length
  /-- A new intermediate result takes the lowest free address. -/
  acquired : ∀ address after, acquire slots = .ok address after →
    slots.IsLowestFree first last address
  /-- A new variable takes the lowest free address. -/
  bound : ∀ name scope binding after, resolve name scope slots = .ok binding after →
    binding ∉ slots.current → slots.IsLowestFree first last binding.address
  /-- An address cannot be found exactly when all of the range are in use. -/
  exhausted : ∀ request : SlotRequest,
    (∃ after, request.perform slots = .error .memoryExhausted after) ↔
      request.NeedsAddress slots ∧ slots.occupiedCount = capacity first last
  full : slots.occupiedCount = capacity first last ↔
    ∀ address, first ≤ address → address ≤ last → slots.isOccupied address = true

section Free

variable {slots : Slots} {address : Word}

theorem isOccupied_iff (slots : Slots) (address : Word) :
    slots.isOccupied address = true ↔ address ∈ slots.occupied := by
  simp [isOccupied]

/-- The address on offer is the lowest free one of the range. -/
theorem Ranged.isLowestFree (ranged : slots.Ranged) (free : slots.free? = some address) :
    slots.IsLowestFree slots.first slots.last address := by
  obtain ⟨fresh, inside, lower⟩ := ranged.free?_eq_some free
  refine ⟨inside, ?_, fun other atLeast below => ?_⟩
  · simpa [isOccupied] using fresh
  · exact (slots.isOccupied_iff other).mpr (lower other atLeast below)

/-- No address is free exactly when as many are in use as the range has. -/
theorem Ranged.free?_eq_none_iff_count (ranged : slots.Ranged) :
    slots.free? = none ↔ slots.occupiedCount = capacity slots.first slots.last := by
  rw [ranged.free?_eq_none_iff, occupiedCount, ranged.length_eq_capacity_iff]

end Free

namespace Consistent

variable {slots : Slots} {held : List Word}

/-- A slot is taken at the lowest free address. -/
theorem acquire_lowest (consistent : slots.Consistent held) {address : Word} {after : Slots}
    (ran : acquire slots = .ok address after) : slots.IsLowestFree slots.first slots.last address := by
  cases free : slots.free? with
  | none =>
    rw [acquire_of_full free] at ran
    cases ran
  | some lowest =>
    rw [acquire_of_free free] at ran
    cases ran
    exact consistent.ranged.isLowestFree free

/-- A variable is made at the lowest free address. -/
theorem resolve_lowest (consistent : slots.Consistent held) {name : String} {scope : ScopeId}
    {binding : Binding} {after : Slots} (ran : resolve name scope slots = .ok binding after)
    (new : binding ∉ slots.current) : slots.IsLowestFree slots.first slots.last binding.address := by
  cases isOpen : slots.around? scope with
  | none =>
    rw [resolve, Effects.bind_apply, tables_of_unopened isOpen] at ran
    cases ran
  | some outer =>
    cases seen : slots.visible? name scope with
    | some found =>
      rw [consistent.resolve_visible seen] at ran
      cases ran
      exact absurd ((consistent.mem_current binding).mpr (consistent.live_of_visible seen).1) new
    | none =>
      cases free : slots.free? with
      | none =>
        rw [consistent.resolve_full isOpen seen free] at ran
        cases ran
      | some address =>
        rw [consistent.resolve_fresh isOpen seen free] at ran
        cases ran
        exact consistent.ranged.isLowestFree free

/-- A request runs out of addresses exactly when it needs one and none is free. -/
theorem exhausted_iff (consistent : slots.Consistent held) (request : SlotRequest) :
    (∃ after, request.perform slots = .error .memoryExhausted after) ↔
      request.NeedsAddress slots ∧ slots.free? = none := by
  obtain ⟨reply, after, ran, granted⟩ | ⟨error, ran, refused⟩ := consistent.granted_or_refused request
  · -- a granted request needs no address or finds one
    simp only [ran, reduceCtorEq, exists_false, false_iff, not_and]
    cases granted with
    | found seen => simp [SlotRequest.NeedsAddress, seen]
    | bound _ _ free | acquired free => simp [free]
    | _ => exact fun needs => needs.elim
  · rw [ran]
    cases refused with
    | resolve isOpen => simp [SlotRequest.NeedsAddress, isOpen]
    | resolveFull isOpen unseen full => simp [SlotRequest.NeedsAddress, isOpen, unseen, full]
    | acquireFull full => simp [SlotRequest.NeedsAddress, full]
    | _ => simp [SlotRequest.NeedsAddress]

end Consistent

namespace Reached

variable {first last screen : Word} {history : List SlotReply} {slots : Slots}

/-- The range of an allocator stays as it was made. -/
theorem bounds (reached : Reached first last screen history slots) :
    slots.first = first ∧ slots.last = last := by
  induction reached with
  | new => exact ⟨rfl, rfl⟩
  | granted earlier _ step ih =>
    obtain ⟨sameFirst, sameLast⟩ := (earlier.consistent.1.granted step).bounds
    exact ⟨sameFirst.trans ih.1, sameLast.trans ih.2⟩
  | refused earlier step ih =>
    rw [earlier.consistent.1.eq_of_refused step]
    exact ih

/-- In every reached allocator, whatever its range and the order of requests, the addresses in use are
those of the live variables and of the intermediate results, each once, and no request is refused an
address before all of the range are in use. -/
theorem every_address_is_accounted_for (reached : Reached first last screen history slots) :
    slots.Accounts first last history := by
  have consistent := reached.consistent.1
  have ranged := consistent.ranged
  have used (address : Word) : slots.isOccupied address = true ↔ address ∈ slots.inUse history := by
    rw [isOccupied_iff, inUse, consistent.mem_inUse]
  obtain ⟨rfl, rfl⟩ := reached.bounds
  refine ⟨consistent.mem_current_iff_listed, consistent.nodup_inUse, ?_, used,
    consistent.occupiedCount_eq, ?_, ?_, ?_, ?_⟩
  · intro address member
    exact ranged.inside address ((consistent.mem_inUse address).mp member)
  · intro address after ran
    exact consistent.acquire_lowest ran
  · intro name scope binding after ran new
    exact consistent.resolve_lowest ran new
  · intro request
    rw [consistent.exhausted_iff, ranged.free?_eq_none_iff_count]
  · simp only [isOccupied_iff]
    exact ranged.length_eq_capacity_iff

/-- A range of two addresses is full with a variable and an intermediate result, and a range that is
reversed is full from the beginning. -/
theorem full_ranges_are_accounted_for :
    (∃ history slots, Reached 0x2000 0x2001 0x8000 history slots ∧
      history = [.acquired 0x2001, .bound ⟨1, "y", 0x2000, 1⟩, .released 0x2000, .acquired 0x2000,
        .closed 1, .bound ⟨0, "x", 0x2000, 1⟩, .opened 1 0] ∧
      slots.occupiedCount = capacity 0x2000 0x2001 ∧ slots.Accounts 0x2000 0x2001 history) ∧
    Reached 7 6 0x8000 [] (Slots.new 7 6 0x8000) ∧
      (Slots.new 7 6 0x8000).occupiedCount = capacity 7 6 ∧
      (Slots.new 7 6 0x8000).Accounts 7 6 [] := by
  have opened := @granted 0x2000 0x2001 0x8000 _ _ _ (.openChild 0) _ .new trivial rfl
  have bound := @granted _ _ _ _ _ _ (.resolve "x" 1) _ opened trivial rfl
  have closed := @granted _ _ _ _ _ _ (.close 1) _ bound trivial rfl
  have acquired := @granted _ _ _ _ _ _ .acquire _ closed trivial rfl
  have released := @granted _ _ _ _ _ _ (.release 0x2000) _ acquired (List.mem_singleton.mpr rfl) rfl
  have again := @granted _ _ _ _ _ _ (.resolve "y" 1) _ released trivial rfl
  have reached := @granted _ _ _ _ _ _ .acquire _ again trivial rfl
  exact ⟨⟨_, _, reached, rfl, rfl, every_address_is_accounted_for reached⟩, .new, rfl,
    every_address_is_accounted_for .new⟩

end Reached

end Slots

end Dcpu
