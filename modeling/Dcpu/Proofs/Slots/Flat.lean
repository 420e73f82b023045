import Dcpu.Proofs.Slots.Consistency

/-! # Variables of the program's own scope

Once every name is bound in the program's own scope, opening and closing other scopes changes nothing
of what names mean: each scope sees the same variables at the same addresses.
-/

namespace Dcpu.Slots

/-- All variables belong to the program's own scope. -/
def Flat (slots : Slots) : Prop :=
  ∀ binding, slots.Live binding → binding.origin = 0

/-- A later allocator has the same variables, and the scopes that were open. -/
structure Keeps (slots after : Slots) : Prop where
  consistent : after.Consistent []
  bounds : after.first = slots.first ∧ after.last = slots.last ∧ after.screen = slots.screen
  live : ∀ binding, after.Live binding ↔ slots.Live binding
  opened : ∀ scope outer, slots.around? scope = some outer → after.around? scope = some outer

namespace Keeps

variable {slots middle after : Slots}

theorem refl (consistent : slots.Consistent []) : slots.Keeps slots :=
  ⟨consistent, ⟨rfl, rfl, rfl⟩, fun _ => Iff.rfl, fun _ _ opened => opened⟩

theorem trans (first : slots.Keeps middle) (second : middle.Keeps after) : slots.Keeps after := by
  obtain ⟨_, ⟨first₁, last₁, screen₁⟩, live₁, opened₁⟩ := first
  obtain ⟨consistent, ⟨first₂, last₂, screen₂⟩, live₂, opened₂⟩ := second
  exact ⟨consistent, ⟨first₂.trans first₁, last₂.trans last₁, screen₂.trans screen₁⟩,
    fun binding => (live₂ binding).trans (live₁ binding),
    fun scope outer isOpen => opened₂ scope outer (opened₁ scope outer isOpen)⟩

theorem flat (keeps : slots.Keeps after) (flat : slots.Flat) : after.Flat :=
  fun binding live => flat binding ((keeps.live binding).mp live)

/-- The same addresses are in use. -/
theorem occupied_iff (keeps : slots.Keeps after) (consistent : slots.Consistent []) (address : Word) :
    address ∈ after.occupied ↔ address ∈ slots.occupied := by
  simp only [keeps.consistent.used, consistent.used, keeps.live]

/-- The same variables are live for the same names. -/
theorem live_eq (keeps : slots.Keeps after) (consistent : slots.Consistent []) (scope : ScopeId)
    (name : String) : after.live scope name = slots.live scope name := by
  ext binding
  rw [keeps.consistent.live_eq_some_iff, consistent.live_eq_some_iff, keeps.live]

end Keeps

private theorem findSome?_eq_at_zero {α : Type} {find : ScopeId → Option α} {path : List ScopeId}
    (onlyRoot : ∀ scope, scope ≠ 0 → find scope = none) (member : 0 ∈ path) :
    path.findSome? find = find 0 := by
  induction path with
  | nil => cases member
  | cons scope path ih =>
    by_cases root : scope = 0
    · subst root
      cases found : find 0 with
      | some value => simp [found]
      | none =>
        have unfound : ∀ other ∈ path, find other = none := fun other _ => by
          by_cases otherRoot : other = 0
          · rw [otherRoot, found]
          · exact onlyRoot other otherRoot
        simpa [found] using unfound
    · rw [List.findSome?_cons, onlyRoot scope root]
      exact ih ((List.mem_cons.mp member).resolve_left (Ne.symm root))

namespace Consistent

variable {slots : Slots} {held : List Word}

/-- Every open scope sees the variables of the program's own scope and no others. -/
theorem visible?_of_flat (consistent : slots.Consistent held) (flat : slots.Flat) {scope : ScopeId}
    {outer : List ScopeId} (opened : slots.around? scope = some outer) (name : String) :
    slots.visible? name scope = slots.live 0 name := by
  rw [visible?_eq opened]
  refine findSome?_eq_at_zero ?_ ?_
  · intro other notRoot
    rw [Option.eq_none_iff_forall_ne_some]
    intro binding found
    obtain ⟨live, origin, _⟩ := consistent.live_eq_some_iff.mp found
    exact notRoot (origin.symm.trans (flat binding live))
  · by_cases root : scope = 0
    · exact root ▸ List.mem_cons_self ..
    · exact List.mem_cons_of_mem _ (consistent.zero_mem_around opened root)

end Consistent

/-- Opening a scope keeps the variables. -/
theorem Keeps.opened_scope {slots : Slots} {parent : ScopeId} {outer : List ScopeId}
    (consistent : slots.Consistent []) (parentOpened : slots.around? parent = some outer) :
    slots.Keeps (slots.opened (parent :: outer)) := by
  refine ⟨consistent.opened_child parentOpened, ⟨rfl, rfl, rfl⟩, slots.live_opened _, ?_⟩
  intro scope around isOpen
  have below : scope < slots.scopes.size := (slots.around?_isSome_iff scope).mp (by simp [isOpen])
  rw [around?_opened, if_neg (Nat.ne_of_lt below), isOpen]

/-- Opening a scope, and closing it after steps that keep the variables, keeps the variables. -/
theorem Keeps.inScope {slots inside middle after : Slots} {parent scope : ScopeId} {outer : List ScopeId}
    (consistent : slots.Consistent []) (flat : slots.Flat)
    (parentOpened : slots.around? parent = some outer)
    (opens : openChild parent slots = .ok scope inside) (runs : inside.Keeps middle)
    (closes : close scope middle = .ok () after) : slots.Keeps after := by
  rw [openChild_eq parentOpened] at opens
  cases opens
  have inner : slots.scopes.size ≠ 0 := Nat.pos_iff_ne_zero.mp consistent.size_pos
  have keeps := (opened_scope consistent parentOpened).trans runs
  have here : middle.around? slots.scopes.size = some (parent :: outer) :=
    runs.opened _ _ (by simp [around?_opened])
  obtain ⟨tables, present, outerEq⟩ := Option.map_eq_some_iff.mp here
  rw [close_eq present (by simp [outerEq])] at closes
  cases closes
  have still := keeps.consistent
  refine keeps.trans ⟨still.closed present inner, Consistent.bounds_closed .., ?_, ?_⟩
  · intro binding
    rw [still.live_closed present inner]
    constructor
    · exact And.left
    · intro live
      refine ⟨live, fun origin => inner ?_⟩
      rw [← origin]
      exact keeps.flat flat binding live
  · intro other around isOpen
    rw [Consistent.around?_closed, isOpen]

end Dcpu.Slots
