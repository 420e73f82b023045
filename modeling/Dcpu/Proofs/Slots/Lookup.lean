import Dcpu.Proofs.Slots.Tables

/-! # Looking names up

The invariant of the allocator ties the tables of all scopes, the variables and the addresses in use
together. Under it the tables show one map from scopes and names to variables, and looking a name up
finds the entry of the nearest scope outwards.
-/

namespace Dcpu.Slots

/-- A variable is live while the program's own tables list it. -/
def Live (slots : Slots) (binding : Binding) : Prop :=
  (binding.name, binding.number) ∈ slots.rows 0 ∧
    slots.made[binding.number]? = some binding

/-- The live variable that a scope made for a name. -/
def live (slots : Slots) (scope : ScopeId) (name : String) : Option Binding :=
  (slots.named 0 name).find? (·.origin = scope)

/-- The variable of a name as seen from a scope: that of the nearest scope outwards which has one. -/
def visible? (slots : Slots) (name : String) (scope : ScopeId) : Option Binding :=
  ((slots.around? scope).map (scope :: ·)).bind (·.findSome? (slots.live · name))

/-- The tables of an allocator that holds the given addresses for intermediate results agree with
each other, with the variables and with the addresses in use. -/
structure Consistent (slots : Slots) (held : List Word) : Prop where
  root : slots.around? 0 = some []
  nested : ∀ scope outer, slots.around? scope = some outer → scope ≠ 0 →
    ∃ parent beyond, parent < scope ∧ slots.around? parent = some beyond ∧ outer = parent :: beyond
  numbered : ∀ (number : Nat) binding,
    slots.made[number]? = some binding → binding.number = number
  rootRows : ∀ row ∈ slots.rows 0, ∃ binding, slots.Live binding ∧ row = (binding.name, binding.number)
  ownRows : ∀ scope, scope ≠ 0 → ∀ row, row ∈ slots.rows scope ↔
    ∃ binding, slots.Live binding ∧ binding.origin = scope ∧ row = (binding.name, binding.number)
  opened : ∀ binding, slots.Live binding → (slots.around? binding.origin).isSome
  unique : ∀ one other, slots.Live one → slots.Live other → one.name = other.name →
    one.origin = other.origin → one = other
  holding : ∀ address number, slots.holder? address = some number ↔
    ∃ binding, slots.Live binding ∧ binding.address = address ∧ binding.number = number
  ranged : slots.Ranged
  used : ∀ address, address ∈ slots.occupied ↔
    (∃ binding, slots.Live binding ∧ binding.address = address) ∨ address ∈ held
  apart : ∀ binding, slots.Live binding → binding.address ∉ held
  heldOnce : held.Nodup

theorem named_eq (slots : Slots) (scope : ScopeId) (name : String) :
    slots.named scope name = (slots.rows scope).filterMap fun (listed, number) =>
      if listed = name then slots.made[number]? else none := by
  simp only [named, rows]
  cases slots.scopes[scope]? <;> rfl

/-- What the tables of a scope answer is listed in them under the name. -/
theorem mem_named_of_candidate? {slots : Slots} {name : String} {scope origin : ScopeId}
    {binding : Binding} (found : slots.candidate? name scope origin = some binding) :
    binding ∈ slots.named scope name := by
  obtain near | ⟨_, far⟩ := Option.or_eq_some_iff.mp found
  · exact List.mem_of_find?_eq_some near
  · exact List.mem_reverse.mp (List.mem_of_find?_eq_some far)

/-- Where at most one member has a property, finding it does not depend on the order. -/
private theorem find?_eq_some_iff_of_unique {members : List Binding} {wanted : Binding → Bool}
    (unique : ∀ one ∈ members, ∀ other ∈ members, wanted one → wanted other → one = other)
    (binding : Binding) : members.find? wanted = some binding ↔ binding ∈ members ∧ wanted binding := by
  constructor
  · intro found
    exact ⟨List.mem_of_find?_eq_some found, List.find?_some found⟩
  · rintro ⟨member, satisfies⟩
    cases found : members.find? wanted with
    | none => exact absurd satisfies (List.find?_eq_none.mp found binding member)
    | some other =>
      rw [unique other (List.mem_of_find?_eq_some found) binding member (List.find?_some found) satisfies]

namespace Consistent

variable {slots : Slots} {held : List Word}

theorem live_iff (consistent : slots.Consistent held) {name : String} {number : Nat}
    {binding : Binding} (present : slots.made[number]? = some binding) :
    (name, number) ∈ slots.rows 0 ↔ slots.Live binding ∧ binding.name = name := by
  constructor
  · intro listed
    obtain ⟨other, live, row⟩ := consistent.rootRows _ listed
    obtain ⟨rfl, rfl⟩ := Prod.mk.inj row
    have same : other = binding := Option.some.inj (live.2.symm.trans present)
    subst same
    exact ⟨live, rfl⟩
  · rintro ⟨live, rfl⟩
    rw [← consistent.numbered number binding present]
    exact live.1

/-- The program's own scope lists all live variables, any other scope its own. -/
theorem mem_rows_iff (consistent : slots.Consistent held) {scope : ScopeId} {name : String}
    {number : Nat} {binding : Binding} (present : slots.made[number]? = some binding) :
    (name, number) ∈ slots.rows scope ↔
      slots.Live binding ∧ binding.name = name ∧ (scope = 0 ∨ binding.origin = scope) := by
  by_cases root : scope = 0
  · subst root
    simp [consistent.live_iff present]
  · rw [consistent.ownRows scope root]
    constructor
    · rintro ⟨other, live, origin, row⟩
      obtain ⟨rfl, rfl⟩ := Prod.mk.inj row
      have same : other = binding := Option.some.inj (live.2.symm.trans present)
      subst same
      exact ⟨live, rfl, .inr origin⟩
    · rintro ⟨live, rfl, atRoot | origin⟩
      · exact absurd atRoot root
      · exact ⟨binding, live, origin, by rw [consistent.numbered number binding present]⟩

/-- The bindings of a name listed in a scope are the live ones of the scope, or all live ones in the root. -/
theorem mem_named_iff (consistent : slots.Consistent held) {scope : ScopeId} {name : String}
    {binding : Binding} : binding ∈ slots.named scope name ↔
      slots.Live binding ∧ binding.name = name ∧ (scope = 0 ∨ binding.origin = scope) := by
  rw [named_eq, List.mem_filterMap]
  constructor
  · rintro ⟨⟨listed, number⟩, row, found⟩
    simp only [Option.ite_none_right_eq_some] at found
    obtain ⟨rfl, present⟩ := found
    exact (consistent.mem_rows_iff present).mp row
  · rintro ⟨live, rfl, reached⟩
    exact ⟨(binding.name, binding.number),
      (consistent.mem_rows_iff live.2).mpr ⟨live, rfl, reached⟩, by simp [live.2]⟩

/-- The map shows exactly the live variables. -/
theorem live_eq_some_iff (consistent : slots.Consistent held) {scope : ScopeId} {name : String}
    {binding : Binding} : slots.live scope name = some binding ↔
      slots.Live binding ∧ binding.origin = scope ∧ binding.name = name := by
  rw [live, find?_eq_some_iff_of_unique, consistent.mem_named_iff]
  · simp only [true_or, and_true, decide_eq_true_eq]
    tauto
  · intro one oneMember other otherMember oneOrigin otherOrigin
    obtain ⟨oneLive, oneName, _⟩ := consistent.mem_named_iff.mp oneMember
    obtain ⟨otherLive, otherName, _⟩ := consistent.mem_named_iff.mp otherMember
    exact consistent.unique one other oneLive otherLive (oneName.trans otherName.symm)
      ((of_decide_eq_true oneOrigin).trans (of_decide_eq_true otherOrigin).symm)

/-- Variables with one address are one. -/
theorem eq_of_address (consistent : slots.Consistent held) {one other : Binding} (live : slots.Live one)
    (otherLive : slots.Live other) (same : one.address = other.address) : one = other := by
  have holds := (consistent.holding one.address one.number).mpr ⟨one, live, rfl, rfl⟩
  have otherHolds := (consistent.holding one.address other.number).mpr ⟨other, otherLive, same.symm, rfl⟩
  have number : one.number = other.number := Option.some.inj (holds.symm.trans otherHolds)
  exact Option.some.inj (live.2.symm.trans (number ▸ otherLive.2))

/-- What the tables of a scope answer, by the map: the program's own scope also knows the variable
of the requester, any other scope only its own. -/
theorem candidate?_eq (consistent : slots.Consistent held) (name : String) (scope origin : ScopeId) :
    slots.candidate? name scope origin =
      if scope = 0 then (slots.live origin name).or (slots.live 0 name) else slots.live scope name := by
  have unique (wanted : ScopeId) : ∀ one ∈ slots.named scope name, ∀ other ∈ slots.named scope name,
      decide (one.origin = wanted) → decide (other.origin = wanted) → one = other := by
    intro one oneMember other otherMember oneOrigin otherOrigin
    obtain ⟨oneLive, oneName, _⟩ := consistent.mem_named_iff.mp oneMember
    obtain ⟨otherLive, otherName, _⟩ := consistent.mem_named_iff.mp otherMember
    exact consistent.unique one other oneLive otherLive (oneName.trans otherName.symm)
      ((of_decide_eq_true oneOrigin).trans (of_decide_eq_true otherOrigin).symm)
  have forward (wanted : ScopeId) (reached : scope = 0 ∨ wanted = scope) :
      (slots.named scope name).find? (·.origin = wanted) = slots.live wanted name := by
    ext binding
    rw [find?_eq_some_iff_of_unique (unique wanted), consistent.mem_named_iff,
      consistent.live_eq_some_iff]
    simp only [decide_eq_true_eq]
    constructor
    · rintro ⟨⟨live, named, _⟩, rfl⟩
      exact ⟨live, rfl, named⟩
    · rintro ⟨live, rfl, named⟩
      exact ⟨⟨live, named, reached⟩, rfl⟩
  have backward : (slots.named scope name).reverse.find? (·.origin = scope) = slots.live scope name := by
    ext binding
    rw [← forward scope (.inr rfl), find?_eq_some_iff_of_unique (unique scope),
      find?_eq_some_iff_of_unique (by simpa only [List.mem_reverse] using unique scope), List.mem_reverse]
  simp only [candidate?, backward]
  by_cases root : scope = 0
  · simp [root, ← forward origin (.inl root)]
  · simp only [root, ↓reduceIte]
    by_cases own : origin = scope
    · rw [forward origin (.inr own), own, Option.or_self]
    · have none : (slots.named scope name).find? (·.origin = origin) = none := by
        rw [List.find?_eq_none]
        intro binding member sameOrigin
        obtain ⟨_, _, atRoot | inScope⟩ := consistent.mem_named_iff.mp member
        · exact root atRoot
        · exact own ((of_decide_eq_true sameOrigin).symm.trans inScope)
      rw [none, Option.none_or]

/-- The scopes around a scope have lower numbers and were opened. -/
theorem around_lt (consistent : slots.Consistent held) {scope : ScopeId} {outer : List ScopeId}
    (opened : slots.around? scope = some outer) :
    ∀ other ∈ outer, other < scope ∧ (slots.around? other).isSome := by
  induction scope using Nat.strongRecOn generalizing outer with
  | ind scope ih =>
    by_cases root : scope = 0
    · subst root
      rw [consistent.root] at opened
      cases opened
      simp
    · obtain ⟨parent, beyond, below, parentOpened, rfl⟩ := consistent.nested scope outer opened root
      intro other member
      rcases List.mem_cons.mp member with rfl | member
      · exact ⟨below, by simp [parentOpened]⟩
      · obtain ⟨otherBelow, otherOpened⟩ := ih parent below parentOpened other member
        exact ⟨Nat.lt_trans otherBelow below, otherOpened⟩

theorem around_eq_nil_iff (consistent : slots.Consistent held) {scope : ScopeId}
    {outer : List ScopeId} (opened : slots.around? scope = some outer) : outer = [] ↔ scope = 0 := by
  constructor
  · rintro rfl
    by_contra inner
    obtain ⟨_, _, _, _, impossible⟩ := consistent.nested scope [] opened inner
    cases impossible
  · rintro rfl
    exact Option.some.inj (opened.symm.trans consistent.root)

/-- Every other scope is inside the program's own. -/
theorem zero_mem_around (consistent : slots.Consistent held) {scope : ScopeId} {outer : List ScopeId}
    (opened : slots.around? scope = some outer) (inner : scope ≠ 0) : 0 ∈ outer := by
  induction scope using Nat.strongRecOn generalizing outer with
  | ind scope ih =>
    obtain ⟨parent, beyond, below, parentOpened, rfl⟩ := consistent.nested scope outer opened inner
    by_cases root : parent = 0
    · simp [root]
    · exact List.mem_cons_of_mem _ (ih parent below parentOpened root)

end Consistent

end Dcpu.Slots
