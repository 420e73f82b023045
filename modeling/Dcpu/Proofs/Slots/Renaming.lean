import Dcpu.Proofs.Slots.Relocation

/-! # The allocator under other names

Names serve the allocator only to be told apart. With every name replaced by another, different names by
different ones, it grants and refuses the same requests and gives out the same addresses.
-/

namespace Dcpu

open Effects

variable {rename : String → String}

def Binding.renamed (rename : String → String) (binding : Binding) : Binding :=
  { binding with name := rename binding.name }

namespace Scope

def renamed (rename : String → String) (scope : Scope) : Scope :=
  { scope with byName := scope.byName.map (Prod.map rename id) }

theorem enter_renamed (scope : Scope) (binding : Binding) :
    (scope.renamed rename).enter (binding.renamed rename) = (scope.enter binding).renamed rename := by
  simp [enter, renamed, Binding.renamed]

theorem strike_renamed (injective : Function.Injective rename) (scope : Scope) (binding : Binding) :
    (scope.renamed rename).strike (binding.renamed rename) = (scope.strike binding).renamed rename := by
  have rows : (scope.byName.map (Prod.map rename id)).filter (· != (rename binding.name, binding.number)) =
      (scope.byName.filter (· != (binding.name, binding.number))).map (Prod.map rename id) := by
    rw [List.filter_map]
    congr 2
    funext row
    simp [bne, Prod.ext_iff, injective.eq_iff]
  simp only [strike, renamed, Binding.renamed, rows]
  rfl

end Scope

namespace Slots

def renamed (rename : String → String) (slots : Slots) : Slots :=
  { slots with
    scopes := slots.scopes.map (Scope.renamed rename)
    made := slots.made.map (Binding.renamed rename) }

section Tables

variable (slots : Slots) (scope : ScopeId) (binding : Binding)

theorem getElem?_scopes_renamed :
    (slots.renamed rename).scopes[scope]? = slots.scopes[scope]?.map (Scope.renamed rename) :=
  Array.getElem?_map

theorem enter_renamed : (slots.renamed rename).enter scope (binding.renamed rename) =
    (slots.enter scope binding).renamed rename := by
  have entered := modify_scopes_map (Scope.renamed rename) (·.enter binding)
    (·.enter (binding.renamed rename)) fun tables => tables.enter_renamed binding
  simp only [enter, renamed, entered]

theorem bind_renamed : (slots.renamed rename).bind scope (binding.renamed rename) =
    (slots.bind scope binding).renamed rename := by
  rw [bind, bind, ← enter_renamed]
  simp only [renamed, Array.map_push]

theorem clear_renamed : (slots.renamed rename).clear scope = (slots.clear scope).renamed rename := by
  have emptied := modify_scopes_map (Scope.renamed rename) (.empty ·.outer) (.empty ·.outer) fun _ => rfl
  simp only [clear, renamed, emptied]

theorem strike_renamed (injective : Function.Injective rename) :
    (slots.renamed rename).strike scope (binding.renamed rename) =
      (slots.strike scope binding).renamed rename := by
  cases opened : slots.scopes[scope]? with
  | none => simp [strike, getElem?_scopes_renamed, opened]
  | some tables =>
    have struck := modify_scopes_map _ (·.strike binding) (·.strike (binding.renamed rename))
      fun tables => tables.strike_renamed injective binding
    simp only [strike, getElem?_scopes_renamed, opened, Option.map_some]
    change (if tables.holds binding && tables.outer.isEmpty then _ else _) = _
    split
    · simp only [renamed, struck]
      rfl
    · simp only [renamed, struck]

theorem strikeAll_renamed (injective : Function.Injective rename) (outer : List ScopeId)
    (closing : List Binding) :
    (slots.renamed rename).strikeAll outer (closing.map (Binding.renamed rename)) =
      (slots.strikeAll outer closing).renamed rename := by
  rw [strikeAll, strikeAll, List.foldl_map]
  apply List.foldl_hom
  intro slots binding
  apply List.foldl_hom
  intro slots scope
  exact slots.strike_renamed scope binding injective

theorem listed_renamed (tables : Scope) : (slots.renamed rename).listed (tables.renamed rename) =
    (slots.listed tables).map (Binding.renamed rename) := by
  simp only [listed, List.map_filterMap, renamed, Array.getElem?_map, Scope.renamed, List.filterMap_map]
  rfl

theorem closed_renamed (injective : Function.Injective rename) (tables : Scope) :
    (slots.renamed rename).closed scope (tables.renamed rename) =
      (slots.closed scope tables).renamed rename := by
  rw [closed, closed, listed_renamed, ← clear_renamed, ← strikeAll_renamed _ injective]
  rfl

theorem named_renamed (injective : Function.Injective rename) (name : String) :
    (slots.renamed rename).named scope (rename name) =
      (slots.named scope name).map (Binding.renamed rename) := by
  cases opened : slots.scopes[scope]? with
  | none => simp [named, getElem?_scopes_renamed, opened]
  | some tables =>
    simp only [named, getElem?_scopes_renamed, opened, Option.map_some, List.map_filterMap, Scope.renamed,
      List.filterMap_map]
    congr 1
    funext row
    simp only [Function.comp_apply, Prod.map_fst, Prod.map_snd, id, injective.eq_iff, renamed,
      Array.getElem?_map]
    split
    · rfl
    · rfl

/-- Looking for a name commutes with an injective renaming. -/
theorem candidate?_renamed (injective : Function.Injective rename) (name : String) (origin : ScopeId) :
    (slots.renamed rename).candidate? (rename name) scope origin =
      (slots.candidate? name scope origin).map (Binding.renamed rename) := by
  simp only [candidate?, named_renamed _ _ injective, ← List.map_reverse, List.find?_map, Option.map_or]
  rfl

end Tables

section Runs

/-- An allocator beside the same with other names. -/
def underNames (rename : String → String) : Pairing SlotError Slots where
  alike slots other := other = slots.renamed rename
  excused _ := False
  blame := id

theorem new_renamed (first last screen : Word) :
    (underNames rename).alike (new first last screen) (new first last screen) := by
  simp [underNames, new, renamed, Scope.renamed, Scope.empty]

theorem acquire_renamed : Follows (underNames rename) Eq acquire acquire := by
  rintro slots _ rfl
  cases free : slots.free? with
  | none =>
    rw [acquire_of_full free]
    exact .inr ⟨_, acquire_of_full free⟩
  | some address =>
    rw [acquire_of_free free]
    exact ⟨_, _, acquire_of_free free, rfl, rfl⟩

theorem tables_renamed (scope : ScopeId) : Follows (underNames rename)
    (fun tables other => other = tables.renamed rename) (tables scope) (tables scope) := by
  apply follows_bind follows_get
  rintro slots _ rfl
  rw [getElem?_scopes_renamed]
  cases slots.scopes[scope]? with
  | none => exact follows_throw (SlotError.unknownScope scope)
  | some tables => exact follows_pure rfl

theorem openChild_renamed (parent : ScopeId) :
    Follows (underNames rename) Eq (openChild parent) (openChild parent) := by
  apply follows_bind (tables_renamed parent)
  rintro around _ rfl
  apply follows_bind follows_get
  rintro slots _ rfl
  apply follows_then
  · apply follows_modify
    rintro slots _ rfl
    simp only [underNames, renamed, Array.map_push]
    rfl
  · exact follows_pure Array.size_map.symm

/-- A name is found at the same scope on the way outwards as the other name is, or else for both of them a
variable is made. -/
theorem resolveFrom_renamed (injective : Function.Injective rename) (name : String)
    (origin scope : ScopeId) (outer : List ScopeId) :
    Follows (underNames rename) (fun binding other => other = binding.renamed rename)
      (resolveFrom name origin scope outer) (resolveFrom (rename name) origin scope outer) := by
  induction outer generalizing scope with
  | nil =>
    apply follows_bind follows_get
    rintro slots _ rfl
    rw [candidate?_renamed _ _ injective]
    cases slots.candidate? name scope origin with
    | some binding => exact follows_pure rfl
    | none =>
      apply follows_bind acquire_renamed
      rintro address _ rfl
      apply follows_bind follows_get
      rintro slots _ rfl
      have size : (slots.renamed rename).made.size = slots.made.size := Array.size_map
      rw [size]
      apply follows_then
      · apply follows_modify
        rintro before _ rfl
        exact before.bind_renamed scope ⟨slots.made.size, name, address, origin⟩
      · exact follows_pure rfl
  | cons parent outer ih =>
    apply follows_bind follows_get
    rintro slots _ rfl
    rw [candidate?_renamed _ _ injective]
    cases slots.candidate? name scope origin with
    | some binding => exact follows_pure rfl
    | none =>
      apply follows_bind (ih parent)
      rintro binding _ rfl
      change Follows _ _ _ (if binding.origin = scope then _ else _)
      by_cases owner : binding.origin = scope
      · simp only [owner, ↓reduceIte]
        apply follows_then
        · apply follows_modify
          rintro slots _ rfl
          exact slots.enter_renamed scope binding
        · exact follows_pure rfl
      · simp only [owner, ↓reduceIte]
        exact follows_pure rfl

/-- A name and its new name are found or made at one address. -/
theorem resolve_renamed (injective : Function.Injective rename) (name : String) (scope : ScopeId) :
    Follows (underNames rename) (fun binding other => other = binding.renamed rename)
      (resolve name scope) (resolve (rename name) scope) := by
  apply follows_bind (tables_renamed scope)
  rintro tables _ rfl
  exact resolveFrom_renamed injective name scope scope tables.outer

theorem close_renamed (injective : Function.Injective rename) (scope : ScopeId) :
    Follows (underNames rename) (fun _ _ => True) (close scope) (close scope) := by
  apply follows_bind (tables_renamed scope)
  rintro tables _ rfl
  change Follows _ _ _ (if tables.outer = [] then _ else _)
  by_cases root : tables.outer = []
  · simp only [root, ↓reduceIte]
    exact follows_throw SlotError.rootClosed
  · simp only [root, ↓reduceIte]
    apply follows_modify
    rintro slots _ rfl
    exact slots.closed_renamed scope injective tables

end Runs

end Slots

end Dcpu
