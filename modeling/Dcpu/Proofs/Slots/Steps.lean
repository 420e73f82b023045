import Dcpu.Proofs.Effects
import Dcpu.Proofs.Slots.Lookup

/-! # What the steps of the allocator do

Each step on a consistent allocator is given by its answer and the allocator behind it. Resolving a
name that is seen from the scope answers with its variable and changes nothing; resolving any other
name makes a variable, which is listed for the program's own scope and for the asking one.
-/

namespace Dcpu.Slots

open Effects

theorem acquire_of_free {slots : Slots} {address : Word} (free : slots.free? = some address) :
    acquire slots = .ok address (slots.occupy address) := by
  simp [acquire, bind_apply, map_apply, free]

/-- With no address left no slot is taken, and nothing changes. -/
theorem acquire_of_full {slots : Slots} (full : slots.free? = none) :
    acquire slots = .error .memoryExhausted slots := by
  simp [acquire, bind_apply, full]

theorem tables_eq {slots : Slots} {scope : ScopeId} {outer : List ScopeId}
    (opened : slots.around? scope = some outer) :
    ∃ found, tables scope slots = .ok found slots ∧ slots.scopes[scope]? = some found ∧
      found.outer = outer := by
  obtain ⟨found, present, rfl⟩ := Option.map_eq_some_iff.mp opened
  exact ⟨found, by simp [tables, bind_apply, present], present, rfl⟩

theorem tables_of_unopened {slots : Slots} {scope : ScopeId} (unopened : slots.around? scope = none) :
    tables scope slots = .error (.unknownScope scope) slots := by
  simp [tables, bind_apply, Option.map_eq_none_iff.mp unopened]

/-- A name is looked up from a scope outwards. -/
theorem resolve_eq {slots : Slots} {scope : ScopeId} {outer : List ScopeId}
    (opened : slots.around? scope = some outer) (name : String) :
    resolve name scope slots = resolveFrom name scope scope outer slots := by
  obtain ⟨found, step, _, rfl⟩ := tables_eq opened
  simp [resolve, bind_apply, step]

/-- Each granted request is granted in one way only. -/
theorem of_acquire_eq_ok {slots after : Slots} {address : Word}
    (granted : acquire slots = .ok address after) :
    slots.free? = some address ∧ after = slots.occupy address := by
  cases free : slots.free? with
  | none => simp [acquire_of_full free] at granted
  | some lowest =>
    rw [acquire_of_free free] at granted
    cases granted
    exact ⟨rfl, rfl⟩

theorem of_resolve_eq_ok {slots after : Slots} {name : String} {scope : ScopeId} {binding : Binding}
    (granted : resolve name scope slots = .ok binding after) :
    ∃ outer, slots.around? scope = some outer ∧
      resolveFrom name scope scope outer slots = .ok binding after := by
  cases opened : slots.around? scope with
  | none => simp [resolve, bind_apply, tables_of_unopened opened] at granted
  | some outer => exact ⟨outer, rfl, resolve_eq opened name ▸ granted⟩

/-- In the program's own scope a name is found, or else a variable is made. -/
theorem of_resolveFrom_nil_eq_ok {slots after : Slots} {name : String} {origin scope : ScopeId}
    {binding : Binding} (granted : resolveFrom name origin scope [] slots = .ok binding after) :
    (slots.candidate? name scope origin = some binding ∧ after = slots) ∨
      ∃ address, slots.free? = some address ∧ binding = ⟨slots.made.size, name, address, origin⟩ ∧
        after = (slots.occupy address).bind scope binding := by
  cases seen : slots.candidate? name scope origin with
  | some found =>
    simp only [resolveFrom, bind_apply, get_apply, seen, pure_apply] at granted
    cases granted
    exact .inl ⟨rfl, rfl⟩
  | none =>
    simp only [resolveFrom, bind_apply, get_apply, seen] at granted
    cases ran : acquire slots with
    | error error middle => simp [ran] at granted
    | ok address middle =>
      obtain ⟨free, rfl⟩ := of_acquire_eq_ok ran
      simp only [ran, modify_apply, pure_apply] at granted
      cases granted
      exact .inr ⟨address, free, rfl, rfl⟩

/-- In any other scope a name is found, or else looked for in the scopes around; the variable is then listed
where it belongs. -/
theorem of_resolveFrom_cons_eq_ok {slots after : Slots} {name : String} {origin scope parent : ScopeId}
    {outer : List ScopeId} {binding : Binding}
    (granted : resolveFrom name origin scope (parent :: outer) slots = .ok binding after) :
    (slots.candidate? name scope origin = some binding ∧ after = slots) ∨
      ∃ middle, resolveFrom name origin parent outer slots = .ok binding middle ∧
        after = if binding.origin = scope then middle.enter scope binding else middle := by
  cases seen : slots.candidate? name scope origin with
  | some found =>
    simp only [resolveFrom, bind_apply, get_apply, seen, pure_apply] at granted
    cases granted
    exact .inl ⟨rfl, rfl⟩
  | none =>
    simp only [resolveFrom, bind_apply, get_apply, seen] at granted
    cases ran : resolveFrom name origin parent outer slots with
    | error error middle => simp [ran] at granted
    | ok found middle =>
      rw [ran] at granted
      by_cases own : found.origin = scope
      · simp only [own, ↓reduceIte, modify_apply, pure_apply, bind_apply] at granted
        cases granted
        exact .inr ⟨middle, rfl, (if_pos own).symm⟩
      · simp only [own, ↓reduceIte, pure_apply] at granted
        cases granted
        exact .inr ⟨after, rfl, (if_neg own).symm⟩

theorem visible?_eq {slots : Slots} {scope : ScopeId} {outer : List ScopeId}
    (opened : slots.around? scope = some outer) (name : String) :
    slots.visible? name scope = (scope :: outer).findSome? (slots.live · name) := by
  simp [visible?, opened]

/-- A variable that is seen is live, and belongs to the scope it is seen from or to one around it. -/
theorem Consistent.live_of_visible {slots : Slots} {held : List Word} (consistent : slots.Consistent held)
    {name : String} {scope : ScopeId} {binding : Binding}
    (seen : slots.visible? name scope = some binding) :
    slots.Live binding ∧ binding.name = name ∧
      ∃ outer, slots.around? scope = some outer ∧ binding.origin ∈ scope :: outer := by
  cases opened : slots.around? scope with
  | none => simp [visible?, opened] at seen
  | some outer =>
    rw [visible?_eq opened] at seen
    obtain ⟨origin, member, found⟩ := List.exists_of_findSome?_eq_some seen
    obtain ⟨live, rfl, sameName⟩ := consistent.live_eq_some_iff.mp found
    exact ⟨live, sameName, outer, rfl, member⟩

/-- A new variable: its address is taken into use, and it is listed for the program's own scope and
for the scope it is made for. -/
def bound (slots : Slots) (binding : Binding) : Slots :=
  let listed := (slots.occupy binding.address).bind 0 binding
  if binding.origin = 0 then listed else listed.enter binding.origin binding

namespace Consistent

variable {slots : Slots} {held : List Word} {name : String} {origin scope : ScopeId}
  {outer : List ScopeId}

/-- A name that is seen from a scope is found, and nothing changes. -/
private theorem resolveFrom_found (consistent : slots.Consistent held)
    (opened : slots.around? scope = some outer)
    (asking : origin = scope ∨ slots.live origin name = none) {binding : Binding}
    (found : (scope :: outer).findSome? (slots.live · name) = some binding) :
    resolveFrom name origin scope outer slots = .ok binding slots := by
  induction outer generalizing scope with
  | nil =>
    obtain rfl := (consistent.around_eq_nil_iff opened).mp rfl
    have own : slots.live 0 name = some binding := by simpa using found
    have candidate : slots.candidate? name 0 origin = some binding := by
      rw [consistent.candidate?_eq]
      rcases asking with rfl | unasked
      · simp [own]
      · simp [unasked, own]
    simp [resolveFrom, bind_apply, candidate]
  | cons parent rest ih =>
    have inner : scope ≠ 0 := fun root =>
      List.cons_ne_nil _ _ ((consistent.around_eq_nil_iff opened).mpr root)
    obtain ⟨_, _, _, parentOpened, same⟩ := consistent.nested scope _ opened inner
    cases same
    rw [List.findSome?_cons] at found
    cases own : slots.live scope name with
    | some other =>
      simp only [own, Option.some.injEq] at found
      subst found
      have candidate : slots.candidate? name scope origin = some other := by
        rw [consistent.candidate?_eq, if_neg inner, own]
      simp [resolveFrom, bind_apply, candidate]
    | none =>
      simp only [own] at found
      have candidate : slots.candidate? name scope origin = none := by
        rw [consistent.candidate?_eq, if_neg inner, own]
      have further : origin = parent ∨ slots.live origin name = none := by
        rcases asking with rfl | unasked
        · exact .inr own
        · exact .inr unasked
      have elsewhere : binding.origin ≠ scope := by
        obtain ⟨other, member, live⟩ := List.exists_of_findSome?_eq_some found
        rw [(consistent.live_eq_some_iff.mp live).2.1]
        exact Nat.ne_of_lt (consistent.around_lt opened other member).1
      simp [resolveFrom, bind_apply, candidate, ih parentOpened further found, elsewhere]

/-- A name that is seen from a scope is found there, and nothing changes. -/
theorem resolve_visible (consistent : slots.Consistent held) {binding : Binding}
    (found : slots.visible? name scope = some binding) :
    resolve name scope slots = .ok binding slots := by
  cases opened : slots.around? scope with
  | none => simp [visible?, opened] at found
  | some outer =>
    rw [visible?_eq opened] at found
    rw [resolve_eq opened]
    exact consistent.resolveFrom_found opened (.inl rfl) found

/-- A scope offers nothing for a name that neither it nor the asking scope has. -/
private theorem candidate?_of_unseen (consistent : slots.Consistent held)
    (unasked : slots.live origin name = none) (unseen : slots.live scope name = none) :
    slots.candidate? name scope origin = none := by
  rw [consistent.candidate?_eq]
  split
  · rename_i root
    subst root
    simp [unasked, unseen]
  · exact unseen

/-- A name that is not seen cannot be made with no address left. -/
private theorem resolveFrom_full (consistent : slots.Consistent held)
    (opened : slots.around? scope = some outer) (unasked : slots.live origin name = none)
    (unseen : (scope :: outer).findSome? (slots.live · name) = none) (full : slots.free? = none) :
    resolveFrom name origin scope outer slots = .error .memoryExhausted slots := by
  induction outer generalizing scope with
  | nil =>
    have candidate := consistent.candidate?_of_unseen unasked (by simpa using unseen)
    simp [resolveFrom, bind_apply, candidate, acquire_of_full full]
  | cons parent rest ih =>
    have inner : scope ≠ 0 := fun root =>
      List.cons_ne_nil _ _ ((consistent.around_eq_nil_iff opened).mpr root)
    obtain ⟨_, _, _, parentOpened, same⟩ := consistent.nested scope _ opened inner
    cases same
    simp only [List.findSome?_cons] at unseen
    cases own : slots.live scope name with
    | some other => simp [own] at unseen
    | none =>
      have candidate := consistent.candidate?_of_unseen unasked own
      simp only [own] at unseen
      simp [resolveFrom, bind_apply, candidate, ih parentOpened (by simpa [List.findSome?_cons] using unseen)]

/-- A name that is not seen is made in the asking scope at the address on offer. -/
private theorem resolveFrom_fresh (consistent : slots.Consistent held)
    (opened : slots.around? scope = some outer) (unasked : slots.live origin name = none)
    (unseen : (scope :: outer).findSome? (slots.live · name) = none) {address : Word}
    (free : slots.free? = some address) (elsewhere : origin ∉ scope :: outer) :
    resolveFrom name origin scope outer slots = .ok ⟨slots.made.size, name, address, origin⟩
      ((slots.occupy address).bind 0 ⟨slots.made.size, name, address, origin⟩) := by
  induction outer generalizing scope with
  | nil =>
    obtain rfl := (consistent.around_eq_nil_iff opened).mp rfl
    have candidate := consistent.candidate?_of_unseen unasked (by simpa using unseen)
    simp [resolveFrom, bind_apply, map_apply, candidate, acquire_of_free free, occupy]
  | cons parent rest ih =>
    have inner : scope ≠ 0 := fun root =>
      List.cons_ne_nil _ _ ((consistent.around_eq_nil_iff opened).mpr root)
    obtain ⟨_, _, _, parentOpened, same⟩ := consistent.nested scope _ opened inner
    cases same
    have notHere : origin ≠ scope := fun same => elsewhere (same ▸ List.mem_cons_self ..)
    have notBeyond : origin ∉ parent :: rest := fun member => elsewhere (List.mem_cons_of_mem _ member)
    simp only [List.findSome?_cons] at unseen
    cases own : slots.live scope name with
    | some other => simp [own] at unseen
    | none =>
      have candidate := consistent.candidate?_of_unseen unasked own
      simp only [own] at unseen
      have inside := ih parentOpened (by simpa [List.findSome?_cons] using unseen) notBeyond
      simp [resolveFrom, bind_apply, candidate, inside, notHere]

/-- A name that is not seen from a scope cannot be resolved there when no address is free. -/
theorem resolve_full (consistent : slots.Consistent held)
    (opened : slots.around? scope = some outer) (unseen : slots.visible? name scope = none)
    (full : slots.free? = none) : resolve name scope slots = .error .memoryExhausted slots := by
  rw [visible?_eq opened] at unseen
  rw [resolve_eq opened]
  exact consistent.resolveFrom_full opened (List.findSome?_eq_none_iff.mp unseen scope (by simp))
    unseen full

/-- A name that is not seen from a scope is bound for that scope at the lowest free address. -/
theorem resolve_fresh (consistent : slots.Consistent held)
    (opened : slots.around? scope = some outer) (unseen : slots.visible? name scope = none)
    {address : Word} (free : slots.free? = some address) :
    resolve name scope slots = .ok ⟨slots.made.size, name, address, scope⟩
      (slots.bound ⟨slots.made.size, name, address, scope⟩) := by
  rw [visible?_eq opened] at unseen
  rw [resolve_eq opened]
  have own : slots.live scope name = none := List.findSome?_eq_none_iff.mp unseen scope (by simp)
  have candidate := consistent.candidate?_of_unseen own own
  cases outer with
  | nil =>
    obtain rfl := (consistent.around_eq_nil_iff opened).mp rfl
    simp [resolveFrom, bind_apply, map_apply, candidate, acquire_of_free free, bound, occupy]
  | cons parent rest =>
    have inner : scope ≠ 0 := fun root =>
      List.cons_ne_nil _ _ ((consistent.around_eq_nil_iff opened).mpr root)
    obtain ⟨_, _, _, parentOpened, same⟩ := consistent.nested scope _ opened inner
    cases same
    have elsewhere : scope ∉ parent :: rest := fun member =>
      Nat.lt_irrefl _ (consistent.around_lt opened scope member).1
    have beyond : (parent :: rest).findSome? (slots.live · name) = none := by
      simpa [List.findSome?_cons, own] using unseen
    simp [resolveFrom, bind_apply, map_apply, candidate, bound, inner,
      consistent.resolveFrom_fresh parentOpened own beyond free elsewhere]

end Consistent

end Dcpu.Slots
