import Dcpu.Proofs.Slots.Closing

/-! # Consistency of reached allocators

Every step keeps the allocator consistent, with the addresses held for intermediate results changing
as they are acquired and released. So every allocator reached from a new one is consistent, as long
as only held addresses are released.
-/

namespace Dcpu.Slots

open Effects

theorem rows_new (first last screen : Word) (scope : ScopeId) :
    (new first last screen).rows scope = [] := by
  rcases scope with _ | scope <;> simp [rows, new, Scope.empty]

theorem not_live_new (first last screen : Word) (binding : Binding) :
    ¬ (new first last screen).Live binding := by
  simp [Live, rows_new]

/-- A new allocator is consistent. -/
theorem consistent_new (first last screen : Word) : (new first last screen).Consistent [] := by
  have noRows := rows_new first last screen
  have dead := not_live_new first last screen
  refine ⟨by simp [around?, new, Scope.empty], ?_, by simp [new], by simp [noRows], ?_, ?_, ?_, ?_, ?_,
    ?_, by simp, List.nodup_nil⟩
  · intro scope outer opened inner
    rcases scope with _ | scope
    · exact absurd rfl inner
    · simp [around?, new] at opened
  · intro scope _ row
    simp [noRows, dead]
  · intro binding live
    exact absurd live (dead binding)
  · intro one _ live
    exact absurd live (dead one)
  · intro address number
    constructor
    · intro impossible
      simp [holder?, new, Scope.empty] at impossible
    · rintro ⟨binding, live, _⟩
      exact absurd live (dead binding)
  · exact ⟨by simp [new, Ascending], by simp [new]⟩
  · intro address
    constructor
    · intro impossible
      simp [new] at impossible
    · rintro (⟨binding, live, _⟩ | impossible)
      · exact absurd live (dead binding)
      · cases impossible

/-- The allocator behind the opening of a scope with the given scopes around it. -/
def opened (slots : Slots) (outer : List ScopeId) : Slots :=
  { slots with scopes := slots.scopes.push (.empty outer) }

theorem openChild_eq {slots : Slots} {parent : ScopeId} {outer : List ScopeId}
    (parentOpened : slots.around? parent = some outer) :
    openChild parent slots = .ok slots.scopes.size (slots.opened (parent :: outer)) := by
  obtain ⟨found, step, _, rfl⟩ := tables_eq parentOpened
  simp [openChild, bind_apply, map_apply, step, opened]

theorem openChild_of_unopened {slots : Slots} {parent : ScopeId}
    (unopened : slots.around? parent = none) :
    openChild parent slots = .error (.unknownScope parent) slots := by
  simp [openChild, bind_apply, tables_of_unopened unopened]

theorem of_openChild_eq_ok {slots after : Slots} {parent scope : ScopeId}
    (granted : openChild parent slots = .ok scope after) : ∃ outer, slots.around? parent = some outer ∧
      scope = slots.scopes.size ∧ after = slots.opened (parent :: outer) := by
  cases opened : slots.around? parent with
  | none => simp [openChild_of_unopened opened] at granted
  | some outer =>
    rw [openChild_eq opened] at granted
    cases granted
    exact ⟨outer, rfl, rfl, rfl⟩

theorem around?_isSome_iff (slots : Slots) (scope : ScopeId) :
    (slots.around? scope).isSome ↔ scope < slots.scopes.size := by
  simp [around?]

/-- A new scope stands in the scopes that it is opened in, and the others stay where they are. -/
theorem around?_opened (slots : Slots) (outer : List ScopeId) (scope : ScopeId) :
    (slots.opened outer).around? scope =
      if scope = slots.scopes.size then some outer else slots.around? scope := by
  simp only [around?, opened, Array.getElem?_push]
  split <;> simp [Scope.empty]

theorem rows_opened (slots : Slots) (outer : List ScopeId) :
    (slots.opened outer).rows = slots.rows := by
  funext scope
  simp only [rows, opened, Array.getElem?_push]
  split
  · rename_i last
    subst last
    simp [Scope.empty]
  · rfl

theorem live_opened (slots : Slots) (outer : List ScopeId) (binding : Binding) :
    (slots.opened outer).Live binding ↔ slots.Live binding := by
  simp only [Live, rows_opened]
  rfl

namespace Consistent

variable {slots : Slots} {held : List Word}

theorem size_pos (consistent : slots.Consistent held) : 0 < slots.scopes.size :=
  (slots.around?_isSome_iff 0).mp (by simp [consistent.root])

/-- Opening a scope keeps an allocator consistent. -/
theorem opened_child (consistent : slots.Consistent held) {parent : ScopeId} {outer : List ScopeId}
    (parentOpened : slots.around? parent = some outer) :
    (slots.opened (parent :: outer)).Consistent held := by
  have sizePos := consistent.size_pos
  have below {scope : ScopeId} {around : List ScopeId} (isOpen : slots.around? scope = some around) :
      scope < slots.scopes.size := (slots.around?_isSome_iff scope).mp (by simp [isOpen])
  have stays {scope : ScopeId} {around : List ScopeId} (isOpen : slots.around? scope = some around) :
      (slots.opened (parent :: outer)).around? scope = some around := by
    rw [around?_opened, if_neg (Nat.ne_of_lt (below isOpen)), isOpen]
  have holders : (slots.opened (parent :: outer)).holder? = slots.holder? := by
    funext address
    simp only [holder?, Slots.opened, Array.getElem?_push, if_neg (Nat.ne_of_lt sizePos)]
  refine ⟨stays consistent.root, ?_, consistent.numbered, ?_, ?_, ?_, ?_, ?_,
    ⟨consistent.ranged.ascending, consistent.ranged.inside⟩, ?_, ?_, consistent.heldOnce⟩
  · intro scope around isOpen inner
    rw [around?_opened] at isOpen
    split at isOpen
    · rename_i last
      subst last
      cases isOpen
      exact ⟨parent, outer, below parentOpened, stays parentOpened, rfl⟩
    · obtain ⟨other, beyond, lower, otherOpened, rfl⟩ := consistent.nested scope around isOpen inner
      exact ⟨other, beyond, lower, stays otherOpened, rfl⟩
  · simp only [rows_opened, live_opened]
    exact consistent.rootRows
  · simp only [rows_opened, live_opened]
    exact consistent.ownRows
  · intro binding live
    obtain ⟨around, isOpen⟩ := Option.isSome_iff_exists.mp
      (consistent.opened binding ((slots.live_opened _ _).mp live))
    simp [stays isOpen]
  · simp only [live_opened]
    exact consistent.unique
  · simp only [live_opened, holders]
    exact consistent.holding
  · simp only [live_opened]
    exact consistent.used
  · simp only [live_opened]
    exact consistent.apart

/-- An acquired address is held. -/
theorem occupy (consistent : slots.Consistent held) {address : Word}
    (free : slots.free? = some address) : (slots.occupy address).Consistent (address :: held) := by
  obtain ⟨fresh, _, _⟩ := consistent.ranged.free?_eq_some free
  refine ⟨consistent.root, consistent.nested, consistent.numbered, consistent.rootRows,
    consistent.ownRows, consistent.opened, consistent.unique, consistent.holding,
    consistent.ranged.occupy free, ?_, ?_, ?_⟩
  · intro other
    simp only [Slots.occupy, mem_insertAscending, consistent.used, List.mem_cons]
    constructor
    · rintro (same | live | isHeld)
      · exact .inr (.inl same)
      · exact .inl live
      · exact .inr (.inr isHeld)
    · rintro (live | same | isHeld)
      · exact .inr (.inl live)
      · exact .inl same
      · exact .inr (.inr isHeld)
  · intro binding live member
    rcases List.mem_cons.mp member with same | isHeld
    · exact fresh (same ▸ (consistent.used _).mpr (.inl ⟨binding, live, rfl⟩))
    · exact consistent.apart binding live isHeld
  · exact List.nodup_cons.mpr
      ⟨fun isHeld => fresh ((consistent.used address).mpr (.inr isHeld)), consistent.heldOnce⟩

/-- A held address is given back. -/
theorem release (consistent : slots.Consistent held) {address : Word} (isHeld : address ∈ held) :
    (slots.release address).Consistent (held.erase address) := by
  refine ⟨consistent.root, consistent.nested, consistent.numbered, consistent.rootRows,
    consistent.ownRows, consistent.opened, consistent.unique, consistent.holding,
    consistent.ranged.release address, ?_, ?_, consistent.heldOnce.erase _⟩
  · intro other
    rw [Slots.release, consistent.ranged.ascending.nodup.mem_erase_iff, consistent.used,
      consistent.heldOnce.mem_erase_iff]
    constructor
    · rintro ⟨different, live | otherHeld⟩
      · exact .inl live
      · exact .inr ⟨different, otherHeld⟩
    · rintro (⟨binding, live, rfl⟩ | ⟨different, otherHeld⟩)
      · refine ⟨fun same => ?_, .inl ⟨binding, live, rfl⟩⟩
        exact consistent.apart binding live (same ▸ isHeld)
      · exact ⟨different, .inr otherHeld⟩
  · intro binding live member
    exact consistent.apart binding live (List.mem_of_mem_erase member)

end Consistent

section Bound

variable (slots : Slots) (binding : Binding)

theorem around?_bound : (slots.bound binding).around? = slots.around? := by
  simp only [bound]
  split
  · exact around?_enter _ _ _
  · exact (around?_enter _ _ _).trans (around?_enter _ _ _)

theorem made_bound : (slots.bound binding).made = slots.made.push binding := by
  simp only [bound]
  split <;> rfl

theorem occupied_bound :
    (slots.bound binding).occupied = (slots.occupy binding.address).occupied := by
  simp only [bound]
  split <;> rfl

theorem bounds_bound : (slots.bound binding).first = slots.first ∧
    (slots.bound binding).last = slots.last ∧ (slots.bound binding).screen = slots.screen := by
  simp only [bound]
  split <;> exact ⟨rfl, rfl, rfl⟩

variable {slots binding}

/-- A new binding is listed in its own scope and in the root. -/
theorem rows_bound (sizePos : 0 < slots.scopes.size)
    (originOpened : binding.origin < slots.scopes.size) (scope : ScopeId) :
    (slots.bound binding).rows scope =
      if scope = 0 ∨ scope = binding.origin then
        slots.rows scope ++ [(binding.name, binding.number)]
      else slots.rows scope := by
  have rootRows (other : ScopeId) : ((slots.occupy binding.address).bind 0 binding).rows other =
      if other = 0 then slots.rows other ++ [(binding.name, binding.number)] else slots.rows other :=
    rows_enter _ 0 binding sizePos other
  simp only [bound]
  split
  · rename_i root
    simp [rootRows, root]
  · rename_i inner
    have inside : binding.origin < ((slots.occupy binding.address).bind 0 binding).scopes.size := by
      simpa [bind, Slots.enter, Slots.occupy] using originOpened
    rw [rows_enter _ _ _ inside, rootRows]
    by_cases atRoot : scope = 0
    · simp [atRoot, Ne.symm inner]
    · simp [atRoot]

theorem holder?_bound (sizePos : 0 < slots.scopes.size) (address : Word) :
    (slots.bound binding).holder? address =
      if address = binding.address then some binding.number else slots.holder? address := by
  have rootHolder : ((slots.occupy binding.address).bind 0 binding).holder? address =
      if 0 = 0 ∧ address = binding.address then some binding.number else slots.holder? address :=
    holder?_enter _ 0 binding sizePos address
  simp only [true_and] at rootHolder
  simp only [bound]
  split
  · exact rootHolder
  · rename_i inner
    have inside : 0 < ((slots.occupy binding.address).bind 0 binding).scopes.size := by
      simpa [bind, Slots.enter, Slots.occupy] using sizePos
    rw [holder?_enter _ _ _ inside, if_neg (fun root => inner root.1), rootHolder]

end Bound

namespace Consistent

variable {slots : Slots} {held : List Word} {binding : Binding}

/-- A live variable was made before. -/
theorem number_lt (live : slots.Live binding) : binding.number < slots.made.size := by
  obtain ⟨bound, _⟩ := Array.getElem?_eq_some_iff.mp live.2
  exact bound

/-- A new variable is live, and so are all that were live before. -/
theorem live_bound (consistent : slots.Consistent held)
    (originOpened : binding.origin < slots.scopes.size) (next : binding.number = slots.made.size)
    {other : Binding} : (slots.bound binding).Live other ↔ other = binding ∨ slots.Live other := by
  simp only [Live, rows_bound consistent.size_pos originOpened, made_bound, true_or, ↓reduceIte,
    List.mem_append, List.mem_singleton, Prod.mk.injEq, Array.getElem?_push]
  constructor
  · rintro ⟨row, made⟩
    split at made
    · exact .inl (Option.some.inj made).symm
    · rename_i notNext
      rcases row with row | ⟨_, number⟩
      · exact .inr ⟨row, made⟩
      · exact absurd (number.trans next) notNext
  · rintro (rfl | live)
    · exact ⟨.inr ⟨rfl, rfl⟩, by simp [next]⟩
    · have before := Nat.ne_of_lt (number_lt live)
      exact ⟨.inl live.1, by rw [if_neg before]; exact live.2⟩

section Fields

variable (consistent : slots.Consistent held) (originOpened : binding.origin < slots.scopes.size)
  (next : binding.number = slots.made.size)

include consistent originOpened next

private theorem rootRows_bound {row : String × Nat} (member : row ∈ (slots.bound binding).rows 0) :
    ∃ other, (slots.bound binding).Live other ∧ row = (other.name, other.number) := by
  rw [rows_bound consistent.size_pos originOpened, if_pos (.inl rfl)] at member
  simp only [consistent.live_bound originOpened next]
  rcases List.mem_append.mp member with member | member
  · obtain ⟨other, live, same⟩ := consistent.rootRows row member
    exact ⟨other, .inr live, same⟩
  · exact ⟨binding, .inl rfl, List.mem_singleton.mp member⟩

/-- When a variable is made, each other scope lists its live bindings. -/
private theorem ownRows_bound {scope : ScopeId} (inner : scope ≠ 0) (row : String × Nat) :
    row ∈ (slots.bound binding).rows scope ↔ ∃ other, (slots.bound binding).Live other ∧
      other.origin = scope ∧ row = (other.name, other.number) := by
  rw [rows_bound consistent.size_pos originOpened]
  simp only [inner, false_or, consistent.live_bound originOpened next]
  constructor
  · intro member
    split at member
    · rename_i atOrigin
      rcases List.mem_append.mp member with member | member
      · obtain ⟨other, live, origin, same⟩ := (consistent.ownRows scope inner row).mp member
        exact ⟨other, .inr live, origin, same⟩
      · exact ⟨binding, .inl rfl, atOrigin.symm, List.mem_singleton.mp member⟩
    · obtain ⟨other, live, origin, same⟩ := (consistent.ownRows scope inner row).mp member
      exact ⟨other, .inr live, origin, same⟩
  · rintro ⟨other, rfl | live, origin, rfl⟩
    · rw [if_pos origin.symm]
      exact List.mem_append_right _ (List.mem_singleton_self _)
    · have member := (consistent.ownRows scope inner _).mpr ⟨other, live, origin, rfl⟩
      split
      · exact List.mem_append_left _ member
      · exact member

/-- When a variable is made that its scope does not have, names stay unique in each scope. -/
private theorem unique_bound (unseen : slots.live binding.origin binding.name = none) {one other : Binding}
    (oneLive : (slots.bound binding).Live one) (otherLive : (slots.bound binding).Live other)
    (name : one.name = other.name) (origin : one.origin = other.origin) : one = other := by
  have unlike {other : Binding} (live : slots.Live other) :
      ¬ (other.name = binding.name ∧ other.origin = binding.origin) := by
    rintro ⟨name, origin⟩
    rw [consistent.live_eq_some_iff.mpr ⟨live, origin, name⟩] at unseen
    cases unseen
  rw [consistent.live_bound originOpened next] at oneLive otherLive
  rcases oneLive with rfl | oneBefore <;> rcases otherLive with rfl | otherBefore
  · rfl
  · exact absurd ⟨name.symm, origin.symm⟩ (unlike otherBefore)
  · exact absurd ⟨name, origin⟩ (unlike oneBefore)
  · exact consistent.unique one other oneBefore otherBefore name origin

/-- When a variable is made at a free address, addresses are held by live bindings. -/
private theorem holding_bound (fresh : binding.address ∉ slots.occupied) (address : Word) (number : Nat) :
    (slots.bound binding).holder? address = some number ↔ ∃ other, (slots.bound binding).Live other ∧
      other.address = address ∧ other.number = number := by
  rw [holder?_bound consistent.size_pos]
  simp only [consistent.live_bound originOpened next]
  split
  · rename_i same
    subst same
    constructor
    · intro number
      exact ⟨binding, .inl rfl, rfl, Option.some.inj number⟩
    · rintro ⟨other, rfl | live, address, rfl⟩
      · rfl
      · exact absurd (address ▸ (consistent.used _).mpr (.inl ⟨other, live, rfl⟩)) fresh
  · rename_i different
    rw [consistent.holding]
    constructor
    · rintro ⟨other, live, address, number⟩
      exact ⟨other, .inr live, address, number⟩
    · rintro ⟨other, rfl | live, rfl, rfl⟩
      · exact absurd rfl different
      · exact ⟨other, live, rfl, rfl⟩

private theorem used_bound (address : Word) : address ∈ (slots.bound binding).occupied ↔
    (∃ other, (slots.bound binding).Live other ∧ other.address = address) ∨ address ∈ held := by
  rw [occupied_bound, Slots.occupy, mem_insertAscending, consistent.used]
  simp only [consistent.live_bound originOpened next]
  constructor
  · rintro (rfl | ⟨other, live, address⟩ | isHeld)
    · exact .inl ⟨binding, .inl rfl, rfl⟩
    · exact .inl ⟨other, .inr live, address⟩
    · exact .inr isHeld
  · rintro (⟨other, rfl | live, rfl⟩ | isHeld)
    · exact .inl rfl
    · exact .inr (.inl ⟨other, live, rfl⟩)
    · exact .inr (.inr isHeld)

end Fields

private theorem ranged_bound (consistent : slots.Consistent held) (free : slots.free? = some binding.address) :
    (slots.bound binding).Ranged := by
  have ranged := consistent.ranged.occupy free
  obtain ⟨first, last, _⟩ := slots.bounds_bound binding
  refine ⟨occupied_bound slots binding ▸ ranged.ascending, fun address member => ?_⟩
  rw [first, last]
  exact ranged.inside address (occupied_bound slots binding ▸ member)

/-- Binding a name that its scope does not have yet keeps the allocator consistent. -/
theorem bound (consistent : slots.Consistent held)
    (originOpened : binding.origin < slots.scopes.size) (next : binding.number = slots.made.size)
    (unseen : slots.live binding.origin binding.name = none)
    (free : slots.free? = some binding.address) : (slots.bound binding).Consistent held := by
  obtain ⟨fresh, _, _⟩ := consistent.ranged.free?_eq_some free
  have live {other : Binding} : (slots.bound binding).Live other ↔ other = binding ∨ slots.Live other :=
    consistent.live_bound originOpened next
  refine ⟨?_, ?_, ?_, fun _ => consistent.rootRows_bound originOpened next,
    fun _ => consistent.ownRows_bound originOpened next, ?_,
    fun _ _ => consistent.unique_bound originOpened next unseen,
    consistent.holding_bound originOpened next fresh, consistent.ranged_bound free,
    consistent.used_bound originOpened next, ?_, consistent.heldOnce⟩
  · rw [around?_bound]
    exact consistent.root
  · rw [around?_bound]
    exact consistent.nested
  · intro number other made
    rw [made_bound, Array.getElem?_push] at made
    split at made
    · rename_i last
      cases made
      exact next.trans last.symm
    · exact consistent.numbered number other made
  · intro other otherLive
    rw [around?_bound]
    rcases live.mp otherLive with rfl | otherLive
    · exact (slots.around?_isSome_iff _).mpr originOpened
    · exact consistent.opened other otherLive
  · intro other otherLive isHeld
    rcases live.mp otherLive with rfl | otherLive
    · exact fresh ((consistent.used _).mpr (.inr isHeld))
    · exact consistent.apart other otherLive isHeld

end Consistent

end Dcpu.Slots
