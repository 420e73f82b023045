import Dcpu.Proofs.Slots.Occupancy

/-! # What the tables of scopes show

Three views of the tables: the scopes around a scope, the rows of its table of names, and the
variable that holds an address in the program's own table. Each step of the allocator is described
by what it does to these views.
-/

namespace Dcpu

namespace Scope

private theorem lookup_entry (key address : Word) (number : Nat) (rest : List (Word × Nat)) :
    ((key, number) :: rest).lookup address =
      if address = key then some number else rest.lookup address := by
  rw [List.lookup_cons]
  by_cases same : address = key
  · simp [same]
  · simp [same, beq_eq_false_iff_ne.mpr same]

@[simp] theorem lookup_filter_ne (entries : List (Word × Nat)) (address other : Word) :
    (entries.filter (·.1 != address)).lookup other =
      if other = address then none else entries.lookup other := by
  induction entries with
  | nil => simp
  | cons entry rest ih =>
    obtain ⟨key, number⟩ := entry
    by_cases struck : key = address
    · subst struck
      simp only [List.filter_cons, bne_self_eq_false, Bool.false_eq_true, ↓reduceIte, ih, lookup_entry]
      split <;> rfl
    · simp only [List.filter_cons, bne_iff_ne, ne_eq, struck, not_false_eq_true, ↓reduceIte,
        lookup_entry, ih]
      by_cases wanted : other = key
      · simp [wanted, struck]
      · simp [wanted]

/-- A binding that is entered holds its address. -/
theorem lookup_enter (scope : Scope) (binding : Binding) (address : Word) :
    (scope.enter binding).byAddress.lookup address =
      if address = binding.address then some binding.number else scope.byAddress.lookup address := by
  simp only [enter, lookup_entry, lookup_filter_ne]
  split <;> rfl

/-- A binding that is struck no longer holds its address, and the others stay. -/
theorem lookup_strike (scope : Scope) (binding : Binding) (address : Word) :
    (scope.strike binding).byAddress.lookup address =
      if address = binding.address ∧ scope.holds binding then none
      else scope.byAddress.lookup address := by
  by_cases held : scope.holds binding <;> by_cases same : address = binding.address <;>
    simp [strike, held, same]

end Scope

namespace Slots

/-- The scopes around a scope, if it was opened. -/
def around? (slots : Slots) (scope : ScopeId) : Option (List ScopeId) :=
  slots.scopes[scope]?.map (·.outer)

def rows (slots : Slots) (scope : ScopeId) : List (String × Nat) :=
  (slots.scopes[scope]?.map (·.byName)).getD []

/-- The number of the variable that holds an address in the program's own table. -/
def holder? (slots : Slots) (address : Word) : Option Nat :=
  slots.scopes[0]?.bind (·.byAddress.lookup address)

section Occupation

variable (slots : Slots) (address : Word)

@[simp] theorem around?_occupy : (slots.occupy address).around? = slots.around? := rfl

@[simp] theorem rows_occupy : (slots.occupy address).rows = slots.rows := rfl

@[simp] theorem holder?_occupy : (slots.occupy address).holder? = slots.holder? := rfl

@[simp] theorem around?_release : (slots.release address).around? = slots.around? := rfl

@[simp] theorem rows_release : (slots.release address).rows = slots.rows := rfl

@[simp] theorem holder?_release : (slots.release address).holder? = slots.holder? := rfl

end Occupation

section Tables

variable (slots : Slots) (scope : ScopeId) (binding : Binding)

@[simp] theorem around?_enter : (slots.enter scope binding).around? = slots.around? := by
  funext other
  simp only [around?, enter, Array.getElem?_modify]
  split <;> simp [Scope.enter, Function.comp_def]

theorem rows_enter (opened : scope < slots.scopes.size) (other : ScopeId) :
    (slots.enter scope binding).rows other =
      if other = scope then slots.rows other ++ [(binding.name, binding.number)]
      else slots.rows other := by
  simp only [rows, enter, Array.getElem?_modify]
  by_cases same : scope = other
  · subst same
    simp [opened, Scope.enter]
  · simp [same, Ne.symm same]

/-- Only an entry in the root tells who holds an address. -/
theorem holder?_enter (opened : 0 < slots.scopes.size) (address : Word) :
    (slots.enter scope binding).holder? address =
      if scope = 0 ∧ address = binding.address then some binding.number
      else slots.holder? address := by
  simp only [holder?, enter, Array.getElem?_modify]
  by_cases root : scope = 0
  · simp [root, opened, Scope.lookup_enter]
  · simp [root]

@[simp] theorem around?_strike : (slots.strike scope binding).around? = slots.around? := by
  funext other
  simp only [around?, strike]
  split
  · rfl
  · split <;> simp only [release, Array.getElem?_modify] <;> split <;>
      simp [Scope.strike, Function.comp_def]

theorem rows_strike (other : ScopeId) :
    (slots.strike scope binding).rows other =
      if other = scope then (slots.rows other).filter (· != (binding.name, binding.number))
      else slots.rows other := by
  simp only [rows, strike]
  by_cases same : scope = other
  · subst same
    cases present : slots.scopes[scope]? with
    | none => simp [present]
    | some tables =>
      simp only
      split <;> simp [release, Array.getElem?_modify, present, Scope.strike]
  · cases present : slots.scopes[scope]? with
    | none => simp [Ne.symm same]
    | some tables =>
      simp only
      split <;> simp [release, Array.getElem?_modify, same, Ne.symm same]

/-- Only a binding that holds its address in the root gives it up there. -/
theorem holder?_strike (address : Word) :
    (slots.strike scope binding).holder? address =
      if scope = 0 ∧ address = binding.address ∧ slots.holder? address = some binding.number
        then none else slots.holder? address := by
  simp only [holder?, strike]
  cases present : slots.scopes[scope]? with
  | none =>
    by_cases root : scope = 0
    · subst root; simp [present]
    · simp [root]
  | some tables =>
    have kept (released : Slots) (same : released.scopes = slots.scopes.modify scope (·.strike binding)) :
        released.scopes[0]?.bind (fun scope => scope.byAddress.lookup address) =
          if scope = 0 ∧ address = binding.address ∧
            slots.scopes[0]?.bind (fun scope => scope.byAddress.lookup address) =
              some binding.number then none
          else slots.scopes[0]?.bind (fun scope => scope.byAddress.lookup address) := by
      rw [same, Array.getElem?_modify]
      by_cases root : scope = 0
      · subst root
        by_cases atAddress : address = binding.address
        · subst atAddress; simp [present, Scope.lookup_strike, Scope.holds]
        · simp [present, Scope.lookup_strike, atAddress]
      · simp [root]
    simp only
    split <;> exact kept _ rfl

/-- An address is given back when the program's own table strikes its holder out. -/
theorem occupied_strike (nested : ∀ outer, slots.around? scope = some outer → (outer = [] ↔ scope = 0)) :
    (slots.strike scope binding).occupied =
      if scope = 0 ∧ slots.holder? binding.address = some binding.number
        then slots.occupied.erase binding.address else slots.occupied := by
  simp only [strike]
  cases present : slots.scopes[scope]? with
  | none =>
    by_cases root : scope = 0
    · subst root; simp [holder?, present]
    · simp [root]
  | some tables =>
    have root := nested tables.outer (by simp [around?, present])
    by_cases atRoot : scope = 0
    · subst atRoot
      simp only [true_and, iff_true] at root ⊢
      by_cases held : tables.holds binding
      · simp [root, held, release, holder?, present, beq_iff_eq.mp held]
      · have other : tables.byAddress.lookup binding.address ≠ some binding.number := by
          simpa [Scope.holds] using held
        simp [held, holder?, present, other]
    · simp [atRoot, show tables.outer ≠ [] from fun none => atRoot (root.mp none)]

@[simp] theorem made_strike : (slots.strike scope binding).made = slots.made := by
  simp only [strike]
  split
  · rfl
  · split <;> rfl

theorem bounds_strike : (slots.strike scope binding).first = slots.first ∧
    (slots.strike scope binding).last = slots.last ∧
    (slots.strike scope binding).screen = slots.screen := by
  simp only [strike]
  split
  · simp
  · split <;> simp [release]

@[simp] theorem around?_clear : (slots.clear scope).around? = slots.around? := by
  funext other
  simp only [around?, clear, Array.getElem?_modify]
  split <;> simp [Scope.empty, Function.comp_def]

theorem rows_clear (other : ScopeId) :
    (slots.clear scope).rows other = if other = scope then [] else slots.rows other := by
  simp only [rows, clear, Array.getElem?_modify]
  by_cases same : scope = other
  · subst same; cases slots.scopes[scope]? <;> simp [Scope.empty]
  · simp [same, Ne.symm same]

theorem holder?_clear (inner : scope ≠ 0) : (slots.clear scope).holder? = slots.holder? := by
  funext address
  simp [holder?, clear, Array.getElem?_modify, inner]

end Tables

end Slots

end Dcpu
