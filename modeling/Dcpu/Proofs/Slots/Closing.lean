import Dcpu.Proofs.Slots.Steps

/-! # Closing a scope

Closing strikes the variables of a scope out of the tables of all scopes around it. In the end
exactly the variables of the closed scope are no longer live, and exactly their addresses are given
back.
-/

namespace Dcpu.Slots

open Effects

/-- Strike variables out of the tables of scopes. -/
def strikeAll (slots : Slots) (outer : List ScopeId) (closing : List Binding) : Slots :=
  closing.foldl (fun slots binding => outer.foldl (·.strike · binding) slots) slots

def closed (slots : Slots) (scope : ScopeId) (tables : Scope) : Slots :=
  (slots.strikeAll tables.outer (slots.listed tables)).clear scope

/-- Only the program's own scope has no scope around it. -/
def Rooted (slots : Slots) : Prop :=
  ∀ scope outer, slots.around? scope = some outer → (outer = [] ↔ scope = 0)

/-- What striking variables out leaves: everything but rows, holders and addresses in use. -/
private theorem frame_strikes (slots : Slots) (outer : List ScopeId) (binding : Binding) :
    (outer.foldl (·.strike · binding) slots).around? = slots.around? ∧
      (outer.foldl (·.strike · binding) slots).made = slots.made ∧
      (outer.foldl (·.strike · binding) slots).first = slots.first ∧
      (outer.foldl (·.strike · binding) slots).last = slots.last ∧
      (outer.foldl (·.strike · binding) slots).screen = slots.screen := by
  induction outer generalizing slots with
  | nil => simp
  | cons scope rest ih =>
    obtain ⟨around, made, first, last, screen⟩ := ih (slots.strike scope binding)
    obtain ⟨sameFirst, sameLast, sameScreen⟩ := slots.bounds_strike scope binding
    simp only [List.foldl_cons]
    exact ⟨around.trans (slots.around?_strike scope binding),
      made.trans (slots.made_strike scope binding), first.trans sameFirst,
      last.trans sameLast, screen.trans sameScreen⟩

private theorem mem_rows_strikes (slots : Slots) (outer : List ScopeId) (binding : Binding)
    (other : ScopeId) (row : String × Nat) :
    row ∈ (outer.foldl (·.strike · binding) slots).rows other ↔
      row ∈ slots.rows other ∧ (other ∈ outer → row ≠ (binding.name, binding.number)) := by
  induction outer generalizing slots with
  | nil => simp
  | cons scope rest ih =>
    rw [List.foldl_cons, ih, rows_strike]
    by_cases same : other = scope
    · simp only [same, ↓reduceIte, List.mem_filter, bne_iff_ne, List.mem_cons_self]
      tauto
    · simp only [same, ↓reduceIte, List.mem_cons, false_or]

theorem strikeAll_cons (slots : Slots) (outer : List ScopeId) (binding : Binding) (closing : List Binding) :
    slots.strikeAll outer (binding :: closing) =
      (outer.foldl (·.strike · binding) slots).strikeAll outer closing := rfl

theorem mem_rows_strikeAll (slots : Slots) (outer : List ScopeId) (closing : List Binding)
    (other : ScopeId) (row : String × Nat) :
    row ∈ (slots.strikeAll outer closing).rows other ↔ row ∈ slots.rows other ∧
      (other ∈ outer → ∀ binding ∈ closing, row ≠ (binding.name, binding.number)) := by
  induction closing generalizing slots with
  | nil => simp [strikeAll]
  | cons binding rest ih =>
    rw [strikeAll_cons, ih, mem_rows_strikes]
    simp only [List.forall_mem_cons]
    tauto

private theorem holder?_strikes (slots : Slots) (outer : List ScopeId) (binding : Binding)
    (address : Word) (number : Nat) :
    (outer.foldl (·.strike · binding) slots).holder? address = some number ↔
      slots.holder? address = some number ∧
        ¬ (0 ∈ outer ∧ binding.address = address ∧ binding.number = number) := by
  induction outer generalizing slots with
  | nil => simp
  | cons scope rest ih =>
    rw [List.foldl_cons, ih, holder?_strike]
    by_cases root : scope = 0
    · subst root
      by_cases held : address = binding.address ∧ slots.holder? address = some binding.number
      · rw [if_pos ⟨rfl, held⟩]
        constructor
        · rintro ⟨impossible, _⟩
          cases impossible
        · rintro ⟨holds, untouched⟩
          exact absurd ⟨List.mem_cons_self .., held.1.symm, Option.some.inj (held.2.symm.trans holds)⟩
            untouched
      · rw [if_neg (fun struck => held struck.2)]
        constructor
        · rintro ⟨holds, _⟩
          refine ⟨holds, ?_⟩
          rintro ⟨_, rfl, rfl⟩
          exact held ⟨rfl, holds⟩
        · rintro ⟨holds, untouched⟩
          exact ⟨holds, fun touched => untouched ⟨List.mem_cons_self .., touched.2⟩⟩
    · simp only [root, false_and, ↓reduceIte, List.mem_cons, Ne.symm root, false_or]

private theorem occupied_strikes (slots : Slots) (rooted : slots.Rooted) (outer : List ScopeId)
    (binding : Binding) : (outer.foldl (·.strike · binding) slots).occupied =
      if 0 ∈ outer ∧ slots.holder? binding.address = some binding.number
        then slots.occupied.erase binding.address else slots.occupied := by
  induction outer generalizing slots with
  | nil => simp
  | cons scope rest ih =>
    have stillRooted : (slots.strike scope binding).Rooted := by
      intro other around opened
      exact rooted other around (by simpa using opened)
    rw [List.foldl_cons, ih _ stillRooted, holder?_strike,
      slots.occupied_strike scope binding (rooted scope)]
    by_cases root : scope = 0
    · by_cases held : slots.holder? binding.address = some binding.number
      · simp [root, held]
      · simp [root, held]
    · simp [root, Ne.symm root]

private theorem rooted_strikes {slots : Slots} (rooted : slots.Rooted) (outer : List ScopeId) (binding : Binding) :
    (outer.foldl (·.strike · binding) slots).Rooted := by
  intro scope beyond opened
  exact rooted scope beyond ((frame_strikes slots outer binding).1 ▸ opened)

private theorem occupied_strikes_sublist {slots : Slots} (rooted : slots.Rooted) (outer : List ScopeId)
    (binding : Binding) : (outer.foldl (·.strike · binding) slots).occupied.Sublist slots.occupied := by
  rw [slots.occupied_strikes rooted]
  split
  · exact List.erase_sublist
  · exact List.Sublist.refl _

/-- Striking a variable out of the program's own tables gives its address back if it holds it. -/
private theorem mem_occupied_strikes {slots : Slots} (rooted : slots.Rooted)
    (ascending : Ascending slots.occupied) {outer : List ScopeId} (reachesRoot : 0 ∈ outer) (binding : Binding)
    (address : Word) : address ∈ (outer.foldl (·.strike · binding) slots).occupied ↔
      address ∈ slots.occupied ∧
        ¬ (binding.address = address ∧ slots.holder? address = some binding.number) := by
  rw [slots.occupied_strikes rooted]
  split
  · rename_i holds
    rw [ascending.nodup.mem_erase_iff]
    constructor
    · rintro ⟨other, present⟩
      exact ⟨present, fun same => other same.1.symm⟩
    · rintro ⟨present, notThis⟩
      refine ⟨?_, present⟩
      rintro rfl
      exact notThis ⟨rfl, holds.2⟩
  · rename_i lost
    constructor
    · intro present
      refine ⟨present, ?_⟩
      rintro ⟨rfl, holds⟩
      exact lost ⟨reachesRoot, holds⟩
    · exact And.left

/-- Of the holders of addresses, those of the bindings struck are gone. -/
theorem holder?_strikeAll (slots : Slots) {outer : List ScopeId} (reachesRoot : 0 ∈ outer)
    (closing : List Binding) (address : Word) (number : Nat) :
    (slots.strikeAll outer closing).holder? address = some number ↔ slots.holder? address = some number ∧
      ∀ binding ∈ closing, ¬ (binding.address = address ∧ binding.number = number) := by
  induction closing generalizing slots with
  | nil => simp [strikeAll]
  | cons binding rest ih =>
    rw [strikeAll_cons, ih, holder?_strikes]
    simp only [List.forall_mem_cons, reachesRoot, true_and, and_assoc]

/-- No address comes into use by striking bindings. -/
theorem occupied_strikeAll_sublist {slots : Slots} (rooted : slots.Rooted) (outer : List ScopeId)
    (closing : List Binding) : (slots.strikeAll outer closing).occupied.Sublist slots.occupied := by
  induction closing generalizing slots with
  | nil => exact List.Sublist.refl _
  | cons binding rest ih =>
    exact (ih (rooted_strikes rooted outer binding)).trans (occupied_strikes_sublist rooted outer binding)

/-- Striking variables out gives back exactly the addresses that they hold. -/
theorem mem_occupied_strikeAll {slots : Slots} (rooted : slots.Rooted) (ascending : Ascending slots.occupied)
    {outer : List ScopeId} (reachesRoot : 0 ∈ outer) (closing : List Binding) (address : Word) :
    address ∈ (slots.strikeAll outer closing).occupied ↔ address ∈ slots.occupied ∧
      ∀ binding ∈ closing, ¬ (binding.address = address ∧ slots.holder? address = some binding.number) := by
  induction closing generalizing slots with
  | nil => simp [strikeAll]
  | cons binding rest ih =>
    have stillAscending := ascending.sublist (occupied_strikes_sublist rooted outer binding)
    rw [strikeAll_cons, ih (rooted_strikes rooted outer binding) stillAscending,
      mem_occupied_strikes rooted ascending reachesRoot]
    simp only [holder?_strikes, reachesRoot, true_and, List.forall_mem_cons, and_assoc]
    refine and_congr_right fun _ => and_congr_right fun notThis => forall₂_congr fun next _ => ?_
    -- a later variable that holds the address still holds it, since the one struck out does not
    constructor
    · rintro apart ⟨same, holds⟩
      refine apart ⟨same, holds, ?_⟩
      rintro ⟨here, number⟩
      exact notThis ⟨here, number ▸ holds⟩
    · rintro apart ⟨same, holds, _⟩
      exact apart ⟨same, holds⟩

/-- Striking bindings changes their tables only. -/
private theorem frame_strikeAll (slots : Slots) (outer : List ScopeId) (closing : List Binding) :
    (slots.strikeAll outer closing).around? = slots.around? ∧
      (slots.strikeAll outer closing).made = slots.made ∧
      (slots.strikeAll outer closing).first = slots.first ∧
      (slots.strikeAll outer closing).last = slots.last ∧
      (slots.strikeAll outer closing).screen = slots.screen := by
  induction closing generalizing slots with
  | nil => simp [strikeAll]
  | cons binding rest ih =>
    obtain ⟨around, made, first, last, screen⟩ := ih (outer.foldl (·.strike · binding) slots)
    obtain ⟨around', made', first', last', screen'⟩ := frame_strikes slots outer binding
    exact ⟨around.trans around', made.trans made', first.trans first', last.trans last',
      screen.trans screen'⟩

theorem close_eq {slots : Slots} {scope : ScopeId} {tables : Scope}
    (present : slots.scopes[scope]? = some tables) (inner : tables.outer ≠ []) :
    close scope slots = .ok () (slots.closed scope tables) := by
  have opened : slots.around? scope = some tables.outer := by simp [around?, present]
  obtain ⟨found, step, foundPresent, _⟩ := tables_eq opened
  cases present.symm.trans foundPresent
  simp [close, bind_apply, step, inner, closed, strikeAll]

/-- A scope that is closed was an inner one. -/
theorem of_close_eq_ok {slots after : Slots} {scope : ScopeId} (granted : close scope slots = .ok () after) :
    ∃ tables, slots.scopes[scope]? = some tables ∧ tables.outer ≠ [] ∧ after = slots.closed scope tables := by
  cases present : slots.scopes[scope]? with
  | none =>
    have unopened : slots.around? scope = none := by simp [around?, present]
    simp [close, bind_apply, tables_of_unopened unopened] at granted
  | some tables =>
    by_cases root : tables.outer = []
    · simp [close, Slots.tables, bind_apply, present, root] at granted
    · rw [close_eq present root] at granted
      cases granted
      exact ⟨tables, rfl, root, rfl⟩

namespace Consistent

variable {slots : Slots} {held : List Word} {scope : ScopeId} {tables : Scope}

theorem rooted (consistent : slots.Consistent held) : slots.Rooted :=
  fun _ _ opened => consistent.around_eq_nil_iff opened

theorem close_root (consistent : slots.Consistent held) :
    close 0 slots = .error .rootClosed slots := by
  obtain ⟨found, step, _, outer⟩ := tables_eq consistent.root
  simp [close, bind_apply, step, outer]

/-- The variables struck out by closing a scope are its own. -/
theorem mem_listed_iff (consistent : slots.Consistent held)
    (present : slots.scopes[scope]? = some tables) (inner : scope ≠ 0) {binding : Binding} :
    binding ∈ slots.listed tables ↔ slots.Live binding ∧ binding.origin = scope := by
  have rows : tables.byName = slots.rows scope := by simp [rows, present]
  rw [listed, rows, List.mem_filterMap]
  constructor
  · rintro ⟨⟨name, number⟩, row, found⟩
    obtain ⟨live, _, root | origin⟩ := (consistent.mem_rows_iff found).mp row
    · exact absurd root inner
    · exact ⟨live, origin⟩
  · rintro ⟨live, origin⟩
    exact ⟨(binding.name, binding.number),
      (consistent.mem_rows_iff live.2).mpr ⟨live, rfl, .inr origin⟩, live.2⟩

/-- Live bindings with one entry are one. -/
private theorem eq_of_row_eq {one other : Binding} (oneLive : slots.Live one)
    (otherLive : slots.Live other)
    (same : (one.name, one.number) = (other.name, other.number)) : one = other := by
  have number : one.number = other.number := (Prod.mk.inj same).2
  exact Option.some.inj (oneLive.2.symm.trans (number ▸ otherLive.2))

theorem around?_closed (slots : Slots) (scope : ScopeId) (tables : Scope) :
    (slots.closed scope tables).around? = slots.around? :=
  (around?_clear _ _).trans (frame_strikeAll slots _ _).1

theorem made_closed (slots : Slots) (scope : ScopeId) (tables : Scope) :
    (slots.closed scope tables).made = slots.made :=
  (frame_strikeAll slots _ _).2.1

theorem bounds_closed (slots : Slots) (scope : ScopeId) (tables : Scope) :
    (slots.closed scope tables).first = slots.first ∧ (slots.closed scope tables).last = slots.last ∧
      (slots.closed scope tables).screen = slots.screen :=
  (frame_strikeAll slots _ _).2.2

/-- Closing a scope ends the lives of exactly its own variables. -/
theorem live_closed (consistent : slots.Consistent held)
    (present : slots.scopes[scope]? = some tables) (inner : scope ≠ 0) {binding : Binding} :
    (slots.closed scope tables).Live binding ↔ slots.Live binding ∧ binding.origin ≠ scope := by
  have opened : slots.around? scope = some tables.outer := by simp [around?, present]
  have rootAround := consistent.zero_mem_around opened inner
  simp only [Live, made_closed]
  rw [closed, rows_clear, if_neg (Ne.symm inner), mem_rows_strikeAll]
  constructor
  · rintro ⟨⟨row, notClosing⟩, made⟩
    refine ⟨⟨row, made⟩, fun origin => ?_⟩
    exact notClosing rootAround binding
      ((consistent.mem_listed_iff present inner).mpr ⟨⟨row, made⟩, origin⟩) rfl
  · rintro ⟨live, origin⟩
    refine ⟨⟨live.1, fun _ closing member same => ?_⟩, live.2⟩
    obtain ⟨closingLive, closingOrigin⟩ := (consistent.mem_listed_iff present inner).mp member
    exact origin (eq_of_row_eq live closingLive same ▸ closingOrigin)

section Fields

variable (consistent : slots.Consistent held) (present : slots.scopes[scope]? = some tables) (inner : scope ≠ 0)

include consistent present inner

/-- The row of a variable of another scope is not struck out. -/
private theorem row_ne_of_listed {binding other : Binding} (live : slots.Live binding)
    (elsewhere : binding.origin ≠ scope) (member : other ∈ slots.listed tables) :
    (binding.name, binding.number) ≠ (other.name, other.number) := by
  obtain ⟨otherLive, origin⟩ := (consistent.mem_listed_iff present inner).mp member
  exact fun same => elsewhere (eq_of_row_eq live otherLive same ▸ origin)

private theorem zero_mem_outer : 0 ∈ tables.outer :=
  consistent.zero_mem_around (by simp [around?, present]) inner

private theorem rootRows_closed {row : String × Nat} (member : row ∈ (slots.closed scope tables).rows 0) :
    ∃ binding, (slots.closed scope tables).Live binding ∧ row = (binding.name, binding.number) := by
  rw [Slots.closed, rows_clear, if_neg (Ne.symm inner), mem_rows_strikeAll] at member
  obtain ⟨binding, live, rfl⟩ := consistent.rootRows row member.1
  refine ⟨binding, (consistent.live_closed present inner).mpr ⟨live, fun origin => ?_⟩, rfl⟩
  have listed := (consistent.mem_listed_iff present inner).mpr ⟨live, origin⟩
  exact member.2 (consistent.zero_mem_outer present inner) binding listed rfl

private theorem ownRows_closed {other : ScopeId} (otherInner : other ≠ 0) (row : String × Nat) :
    row ∈ (slots.closed scope tables).rows other ↔ ∃ binding, (slots.closed scope tables).Live binding ∧
      binding.origin = other ∧ row = (binding.name, binding.number) := by
  simp only [consistent.live_closed present inner]
  rw [Slots.closed, rows_clear]
  by_cases same : other = scope
  · subst same
    simp only [↓reduceIte, List.not_mem_nil, false_iff, not_exists]
    rintro binding ⟨⟨_, elsewhere⟩, origin, _⟩
    exact elsewhere origin
  · rw [if_neg same, mem_rows_strikeAll, consistent.ownRows other otherInner]
    constructor
    · rintro ⟨⟨binding, live, origin, rfl⟩, _⟩
      exact ⟨binding, ⟨live, origin ▸ same⟩, origin, rfl⟩
    · rintro ⟨binding, ⟨live, elsewhere⟩, origin, rfl⟩
      exact ⟨⟨binding, live, origin, rfl⟩, fun _ _ member =>
        consistent.row_ne_of_listed present inner live elsewhere member⟩

/-- When a scope is closed, addresses are held by live bindings. -/
private theorem holding_closed (address : Word) (number : Nat) :
    (slots.closed scope tables).holder? address = some number ↔
      ∃ binding, (slots.closed scope tables).Live binding ∧ binding.address = address ∧
        binding.number = number := by
  simp only [consistent.live_closed present inner]
  rw [Slots.closed, holder?_clear _ _ inner,
    slots.holder?_strikeAll (consistent.zero_mem_outer present inner), consistent.holding]
  constructor
  · rintro ⟨⟨binding, live, rfl, rfl⟩, notClosing⟩
    refine ⟨binding, ⟨live, fun origin => ?_⟩, rfl, rfl⟩
    exact notClosing binding ((consistent.mem_listed_iff present inner).mpr ⟨live, origin⟩) ⟨rfl, rfl⟩
  · rintro ⟨binding, ⟨live, elsewhere⟩, rfl, rfl⟩
    refine ⟨⟨binding, live, rfl, rfl⟩, fun other member same => ?_⟩
    obtain ⟨otherLive, origin⟩ := (consistent.mem_listed_iff present inner).mp member
    have equal : other = binding := Option.some.inj (otherLive.2.symm.trans (same.2 ▸ live.2))
    exact elsewhere (equal ▸ origin)

/-- When a scope is closed, the addresses in use are those of live bindings and the slots that are held. -/
private theorem used_closed (address : Word) : address ∈ (slots.closed scope tables).occupied ↔
    (∃ binding, (slots.closed scope tables).Live binding ∧ binding.address = address) ∨ address ∈ held := by
  have holds {binding : Binding} (live : slots.Live binding) :
      slots.holder? binding.address = some binding.number :=
    (consistent.holding _ _).mpr ⟨binding, live, rfl, rfl⟩
  simp only [consistent.live_closed present inner]
  change address ∈ (slots.strikeAll tables.outer (slots.listed tables)).occupied ↔ _
  rw [mem_occupied_strikeAll consistent.rooted consistent.ranged.ascending
    (consistent.zero_mem_outer present inner), consistent.used]
  simp only [consistent.mem_listed_iff present inner]
  constructor
  · rintro ⟨⟨binding, live, rfl⟩ | isHeld, notClosing⟩
    · exact .inl ⟨binding, ⟨live, fun origin => notClosing binding ⟨live, origin⟩ ⟨rfl, holds live⟩⟩, rfl⟩
    · exact .inr isHeld
  · rintro (⟨binding, ⟨live, elsewhere⟩, rfl⟩ | isHeld)
    · refine ⟨.inl ⟨binding, live, rfl⟩, ?_⟩
      rintro other ⟨otherLive, origin⟩ ⟨_, otherHolds⟩
      have number : binding.number = other.number := Option.some.inj ((holds live).symm.trans otherHolds)
      have equal : other = binding := Option.some.inj (otherLive.2.symm.trans (number ▸ live.2))
      exact elsewhere (equal ▸ origin)
    · refine ⟨.inr isHeld, ?_⟩
      rintro other ⟨otherLive, _⟩ ⟨rfl, _⟩
      exact consistent.apart other otherLive isHeld

end Fields

private theorem ranged_closed (consistent : slots.Consistent held) (scope : ScopeId) (tables : Scope) :
    (slots.closed scope tables).Ranged := by
  have sublist := occupied_strikeAll_sublist consistent.rooted tables.outer (slots.listed tables)
  obtain ⟨_, _, first, last, _⟩ := frame_strikeAll slots tables.outer (slots.listed tables)
  refine ⟨consistent.ranged.ascending.sublist sublist, fun address member => ?_⟩
  have inside := consistent.ranged.inside address (sublist.subset member)
  exact ⟨first ▸ inside.1, last ▸ inside.2⟩

/-- Closing a scope keeps the allocator consistent. -/
theorem closed (consistent : slots.Consistent held)
    (present : slots.scopes[scope]? = some tables) (inner : scope ≠ 0) :
    (slots.closed scope tables).Consistent held := by
  have around := around?_closed slots scope tables
  have live {binding : Binding} :
      (slots.closed scope tables).Live binding ↔ slots.Live binding ∧ binding.origin ≠ scope :=
    consistent.live_closed present inner
  refine ⟨?_, ?_, ?_, fun _ => consistent.rootRows_closed present inner,
    fun _ => consistent.ownRows_closed present inner, ?_, ?_, consistent.holding_closed present inner,
    consistent.ranged_closed scope tables, consistent.used_closed present inner, ?_, consistent.heldOnce⟩
  · rw [around]
    exact consistent.root
  · rw [around]
    exact consistent.nested
  · rw [made_closed]
    exact consistent.numbered
  · intro binding bindingLive
    rw [around]
    exact consistent.opened binding (live.mp bindingLive).1
  · intro one another oneLive anotherLive
    exact consistent.unique one another (live.mp oneLive).1 (live.mp anotherLive).1
  · intro binding bindingLive
    exact consistent.apart binding (live.mp bindingLive).1

end Consistent

end Dcpu.Slots
