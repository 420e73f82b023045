import Dcpu.Proofs.Slots.Consistency
import Dcpu.Slots.Request

/-! # Resolution is lexical

An allocator is reached by requests of any kind in any order, as long as an address is released only
while it is held. The variables of a reached allocator form a lexical map: a name is looked up in the
nearest scope outwards that has an entry for it, only resolving an unseen name adds an entry, and
only closing a scope takes entries away, namely its own.
-/

namespace Dcpu

def SlotReply.binding? : SlotReply → Option Binding
  | found binding => some binding
  | bound binding => some binding
  | _ => none

/-- The addresses held for intermediate results after the given replies, the last of which comes
first. -/
def heldBy : List SlotReply → List Word
  | [] => []
  | .acquired address :: earlier => address :: heldBy earlier
  | .released address :: earlier => (heldBy earlier).erase address
  | _ :: earlier => heldBy earlier

/-- An address may be released while it is held; all other requests are free. -/
def SlotRequest.Allowed (held : List Word) : SlotRequest → Prop
  | release address => address ∈ held
  | _ => True

/-- The entries of scopes for names: the number and the address of a variable. -/
abbrev Lexicon := ScopeId → String → Option (Nat × Word)

namespace Lexicon

/-- The entry for a name in the first of the given scopes that has one. -/
def nearest (lexicon : Lexicon) (path : List ScopeId) (name : String) : Option (Nat × Word) :=
  path.findSome? (lexicon · name)

def insert (lexicon : Lexicon) (scope : ScopeId) (name : String) (entry : Nat × Word) : Lexicon :=
  fun other wanted => if other = scope ∧ wanted = name then some entry else lexicon other wanted

def erase (lexicon : Lexicon) (scope : ScopeId) : Lexicon :=
  fun other wanted => if other = scope then none else lexicon other wanted

/-- The map after a reply: a variable that was bound is entered, and the entries of a closed scope
are gone. -/
def record (lexicon : Lexicon) : SlotReply → Lexicon
  | .bound binding => lexicon.insert binding.origin binding.name (binding.number, binding.address)
  | .closed scope => lexicon.erase scope
  | _ => lexicon

/-- The map that the given replies tell of, the last of which comes first. -/
def told (history : List SlotReply) : Lexicon :=
  history.foldr (fun reply lexicon => lexicon.record reply) fun _ _ => none

end Lexicon

namespace Slots

/-- The allocators reached from a new one, each with the replies of the requests that were granted
on the way, the last of them first. -/
inductive Reached (first last screen : Word) : List SlotReply → Slots → Prop where
  | new : Reached first last screen [] (.new first last screen)
  | granted {history : List SlotReply} {slots after : Slots} {request : SlotRequest}
      {reply : SlotReply} : Reached first last screen history slots →
      request.Allowed (heldBy history) → request.perform slots = .ok reply after →
      Reached first last screen (reply :: history) after
  | refused {history : List SlotReply} {slots after : Slots} {request : SlotRequest}
      {error : SlotError} : Reached first last screen history slots →
      request.perform slots = .error error after → Reached first last screen history after

/-- The scope and the scopes around it, from the nearest outwards. -/
def path? (slots : Slots) (scope : ScopeId) : Option (List ScopeId) :=
  (slots.around? scope).map (scope :: ·)

/-- The lexical map that the tables of an allocator show. -/
def lexicon (slots : Slots) : Lexicon :=
  fun scope name => (slots.live scope name).map fun binding => (binding.number, binding.address)

/-- The allocator answers as the lexical map tells and changes the map as a lexical map changes. -/
structure FollowsLexicon (history : List SlotReply) (slots : Slots) : Prop where
  /-- A name with an entry in the scope or around it is found, and nothing changes. -/
  found : ∀ name scope path entry, slots.path? scope = some path →
    slots.lexicon.nearest path name = some entry →
    ∃ binding, resolve name scope slots = .ok binding slots ∧
      (binding.number, binding.address) = entry
  /-- Any other name is bound for the scope, with a number that no variable had before, as long as
  an address of the range is free. -/
  bound : ∀ name scope path spare, slots.path? scope = some path →
    slots.lexicon.nearest path name = none →
    slots.first ≤ spare → spare ≤ slots.last → slots.isOccupied spare = false →
    ∃ binding after, resolve name scope slots = .ok binding after ∧ binding.origin = scope ∧
      (∀ earlier ∈ history.filterMap SlotReply.binding?, earlier.number ≠ binding.number) ∧
      after.lexicon = slots.lexicon.insert scope name (binding.number, binding.address)
  /-- Closing a scope takes its own entries away and no others. -/
  closed : ∀ scope path, slots.path? scope = some path → scope ≠ 0 →
    ∃ after, close scope slots = .ok () after ∧ after.lexicon = slots.lexicon.erase scope
  /-- A scope is opened right inside its parent, and keeps its place. -/
  opened : ∀ parent path, slots.path? parent = some path →
    ∃ scope after, openChild parent slots = .ok scope after ∧ slots.path? scope = none ∧
      after.path? scope = some (scope :: path) ∧
      ∀ other, other ≠ scope → after.path? other = slots.path? other
  /-- Opening scopes, acquiring addresses and releasing held ones keep the map. -/
  kept : ∀ request : SlotRequest, request.Allowed (heldBy history) →
    (∀ name scope, request ≠ .resolve name scope) → (∀ scope, request ≠ .close scope) →
    (slots.after request).lexicon = slots.lexicon
  /-- A refused request changes nothing. -/
  refused : ∀ (request : SlotRequest) error after,
    request.perform slots = .error error after → after = slots

section Lexicon

variable {slots after : Slots} {held heldAfter : List Word}

/-- The nearest entry of a name along the path of a scope is the binding seen there. -/
private theorem nearest_lexicon {scope : ScopeId} {path : List ScopeId}
    (opened : slots.path? scope = some path) (name : String) :
    slots.lexicon.nearest path name =
      (slots.visible? name scope).map fun binding => (binding.number, binding.address) := by
  obtain ⟨outer, around, rfl⟩ := Option.map_eq_some_iff.mp opened
  rw [visible?_eq around, List.map_findSome?]
  rfl

/-- The map depends only on which variables are live. -/
private theorem lexicon_congr (before : slots.Consistent held) (behind : after.Consistent heldAfter)
    (same : ∀ binding, after.Live binding ↔ slots.Live binding) : after.lexicon = slots.lexicon := by
  funext scope name
  have equal : after.live scope name = slots.live scope name := by
    ext binding
    rw [behind.live_eq_some_iff, before.live_eq_some_iff, same]
  simp only [lexicon, equal]

/-- Making a variable adds its entry to the lexicon. -/
private theorem lexicon_bound {binding : Binding} (before : slots.Consistent held)
    (behind : after.Consistent held)
    (live : ∀ other, after.Live other ↔ other = binding ∨ slots.Live other)
    (unseen : slots.live binding.origin binding.name = none) :
    after.lexicon =
      slots.lexicon.insert binding.origin binding.name (binding.number, binding.address) := by
  funext scope name
  simp only [Lexicon.insert]
  split
  · rename_i here
    obtain ⟨rfl, rfl⟩ := here
    have entry := behind.live_eq_some_iff.mpr ⟨(live binding).mpr (.inl rfl), rfl, rfl⟩
    simp only [lexicon, entry, Option.map_some]
  · rename_i elsewhere
    have equal : after.live scope name = slots.live scope name := by
      ext other
      rw [behind.live_eq_some_iff, before.live_eq_some_iff, live]
      constructor
      · rintro ⟨rfl | otherLive, rfl, rfl⟩
        · exact absurd ⟨rfl, rfl⟩ elsewhere
        · exact ⟨otherLive, rfl, rfl⟩
      · rintro ⟨otherLive, rfl, rfl⟩
        exact ⟨.inr otherLive, rfl, rfl⟩
    simp only [lexicon, equal]

/-- Closing a scope takes its entries out of the lexicon. -/
private theorem lexicon_closed {scope : ScopeId} (before : slots.Consistent held)
    (behind : after.Consistent held)
    (live : ∀ binding, after.Live binding ↔ slots.Live binding ∧ binding.origin ≠ scope) :
    after.lexicon = slots.lexicon.erase scope := by
  funext other name
  simp only [Lexicon.erase]
  split
  · rename_i same
    subst same
    have gone : after.live other name = none := by
      rw [Option.eq_none_iff_forall_ne_some]
      intro binding present
      obtain ⟨bindingLive, origin, _⟩ := behind.live_eq_some_iff.mp present
      exact ((live binding).mp bindingLive).2 origin
    simp only [lexicon, gone, Option.map_none]
  · rename_i different
    have equal : after.live other name = slots.live other name := by
      ext binding
      rw [behind.live_eq_some_iff, before.live_eq_some_iff, live]
      constructor
      · rintro ⟨⟨bindingLive, _⟩, rfl, rfl⟩
        exact ⟨bindingLive, rfl, rfl⟩
      · rintro ⟨bindingLive, rfl, rfl⟩
        exact ⟨⟨bindingLive, different⟩, rfl, rfl⟩
    simp only [lexicon, equal]

private theorem lexicon_new (first last screen : Word) :
    (new first last screen).lexicon = Lexicon.told [] := by
  funext scope name
  have unlisted : (new first last screen).live scope name = none := by
    rw [Option.eq_none_iff_forall_ne_some]
    intro binding present
    have live := ((consistent_new first last screen).live_eq_some_iff.mp present).1
    rcases live with ⟨row, made⟩
    simp [new] at made
  simp [lexicon, unlisted, Lexicon.told]

end Lexicon

section Perform

open Effects

variable {slots : Slots} {held : List Word}

/-- The addresses held after one more reply. -/
def heldThen (held : List Word) : SlotReply → List Word
  | .acquired address => address :: held
  | .released address => held.erase address
  | _ => held

private theorem heldBy_cons (reply : SlotReply) (history : List SlotReply) :
    heldBy (reply :: history) = heldThen (heldBy history) reply := by
  cases reply <;> rfl

/-- A granted request leaves the allocator consistent, its map changes as the reply tells, the variable told of is
among those made, and all variables made before stay so. -/
structure Grants (held : List Word) (slots : Slots) (reply : SlotReply) (after : Slots) : Prop where
  consistent : after.Consistent (heldThen held reply)
  recorded : after.lexicon = slots.lexicon.record reply
  tells : ∀ binding, reply.binding? = some binding → after.made[binding.number]? = some binding
  grows : ∀ (number : Nat) binding, slots.made[number]? = some binding → after.made[number]? = some binding

/-- A request is refused and changes nothing, or it is granted. -/
def Answers (held : List Word) (slots : Slots) (request : SlotRequest) : Prop :=
  (∃ error, request.perform slots = .error error slots) ∨
    ∃ reply after, request.perform slots = .ok reply after ∧ Grants held slots reply after

namespace Consistent

private theorem answers_openChild (consistent : slots.Consistent held) (parent : ScopeId) :
    Answers held slots (.openChild parent) := by
  cases parentOpened : slots.around? parent with
  | none =>
    exact .inl ⟨.unknownScope parent, by
      simp [SlotRequest.perform, map_apply, openChild_of_unopened parentOpened]⟩
  | some outer =>
    have behind := consistent.opened_child parentOpened
    exact .inr ⟨.opened slots.scopes.size parent, slots.opened (parent :: outer),
      by simp [SlotRequest.perform, map_apply, openChild_eq parentOpened], behind,
      lexicon_congr consistent behind (slots.live_opened _), by simp [SlotReply.binding?], fun _ _ made => made⟩

private theorem answers_close (consistent : slots.Consistent held) (scope : ScopeId) :
    Answers held slots (.close scope) := by
  cases present : slots.scopes[scope]? with
  | none =>
    have unopened : slots.around? scope = none := by simp [around?, present]
    exact .inl ⟨.unknownScope scope, by
      simp [SlotRequest.perform, bind_apply, close, tables_of_unopened unopened]⟩
  | some tables =>
    by_cases root : scope = 0
    · subst root
      exact .inl ⟨.rootClosed, by simp [SlotRequest.perform, map_apply, consistent.close_root]⟩
    · have opened : slots.around? scope = some tables.outer := by simp [around?, present]
      have inner : tables.outer ≠ [] := fun nil => root ((consistent.around_eq_nil_iff opened).mp nil)
      have behind := consistent.closed present root
      refine .inr ⟨.closed scope, slots.closed scope tables,
        by simp [SlotRequest.perform, map_apply, close_eq present inner], behind,
        lexicon_closed consistent behind (fun _ => consistent.live_closed present root),
        by simp [SlotReply.binding?], ?_⟩
      rw [Consistent.made_closed]
      exact fun _ _ made => made

/-- A name that is seen is found as it is. -/
private theorem answers_visible (consistent : slots.Consistent held) {name : String} {scope : ScopeId}
    {binding : Binding} (seen : slots.visible? name scope = some binding) :
    Answers held slots (.resolve name scope) := by
  have made : slots.made[binding.number]? = some binding := (consistent.live_of_visible seen).1.2
  have notNew : binding.number ≠ slots.made.size := Nat.ne_of_lt (Array.getElem?_eq_some_iff.mp made).1
  refine .inr ⟨.found binding, slots, ?_, consistent, rfl, ?_, fun _ _ made => made⟩
  · simp [SlotRequest.perform, bind_apply, map_apply, consistent.resolve_visible seen, notNew]
  · intro other same
    cases same
    exact made

/-- What binding an unseen name makes of the allocator. -/
private theorem grants_bound (consistent : slots.Consistent held) {name : String} {scope : ScopeId}
    {outer : List ScopeId} (opened : slots.around? scope = some outer) (unseen : slots.visible? name scope = none)
    {address : Word} (free : slots.free? = some address) :
    Grants held slots (.bound ⟨slots.made.size, name, address, scope⟩)
      (slots.bound ⟨slots.made.size, name, address, scope⟩) := by
  have absent : slots.live scope name = none := by
    rw [visible?_eq opened] at unseen
    exact List.findSome?_eq_none_iff.mp unseen scope (List.mem_cons_self ..)
  have inside : scope < slots.scopes.size := (slots.around?_isSome_iff scope).mp (by simp [opened])
  let binding : Binding := ⟨slots.made.size, name, address, scope⟩
  have behind : (slots.bound binding).Consistent held := consistent.bound inside rfl absent free
  have live (other : Binding) : (slots.bound binding).Live other ↔ other = binding ∨ slots.Live other :=
    consistent.live_bound inside rfl
  refine ⟨behind, lexicon_bound consistent behind live absent, ?_, ?_⟩
  · intro other same
    cases same
    simp [made_bound]
  · intro number other made
    have before := (Array.getElem?_eq_some_iff.mp made).1
    rw [made_bound, Array.getElem?_push, if_neg (Nat.ne_of_lt before)]
    exact made

/-- Looking up a name keeps the allocator consistent and is told by the reply. -/
private theorem answers_resolve (consistent : slots.Consistent held) (name : String) (scope : ScopeId) :
    Answers held slots (.resolve name scope) := by
  cases opened : slots.around? scope with
  | none =>
    exact .inl ⟨.unknownScope scope, by
      simp [SlotRequest.perform, bind_apply, resolve, tables_of_unopened opened]⟩
  | some outer =>
    cases seen : slots.visible? name scope with
    | some binding => exact consistent.answers_visible seen
    | none =>
      cases free : slots.free? with
      | none =>
        exact .inl ⟨.memoryExhausted, by
          simp [SlotRequest.perform, bind_apply, map_apply, consistent.resolve_full opened seen free]⟩
      | some address =>
        refine .inr ⟨_, _, ?_, consistent.grants_bound opened seen free⟩
        simp [SlotRequest.perform, bind_apply, map_apply, consistent.resolve_fresh opened seen free]

private theorem answers_acquire (consistent : slots.Consistent held) : Answers held slots .acquire := by
  cases free : slots.free? with
  | none => exact .inl ⟨.memoryExhausted, by simp [SlotRequest.perform, map_apply, acquire_of_full free]⟩
  | some address =>
    have behind := consistent.occupy free
    exact .inr ⟨.acquired address, slots.occupy address,
      by simp [SlotRequest.perform, map_apply, acquire_of_free free], behind,
      lexicon_congr consistent behind (fun _ => Iff.rfl), by simp [SlotReply.binding?], fun _ _ made => made⟩

/-- Giving back a slot that is held keeps the allocator consistent and is told by the reply. -/
private theorem answers_release (consistent : slots.Consistent held) {address : Word} (isHeld : address ∈ held) :
    Answers held slots (.release address) := by
  have behind := consistent.release isHeld
  exact .inr ⟨.released address, slots.release address, by simp [SlotRequest.perform, map_apply], behind,
    lexicon_congr consistent behind (fun _ => Iff.rfl), by simp [SlotReply.binding?], fun _ _ made => made⟩

end Consistent

/-- An allowed request is refused and changes nothing, or it is granted. -/
theorem Consistent.perform (consistent : slots.Consistent held) {request : SlotRequest}
    (allowed : request.Allowed held) : Answers held slots request := by
  cases request with
  | openChild parent => exact consistent.answers_openChild parent
  | close scope => exact consistent.answers_close scope
  | resolve name scope => exact consistent.answers_resolve name scope
  | acquire => exact consistent.answers_acquire
  | release address => exact consistent.answers_release allowed

/-- A refused request changes nothing, allowed or not. -/
theorem Consistent.eq_of_refused (consistent : slots.Consistent held) {request : SlotRequest}
    {error : SlotError} {after : Slots} (refusal : request.perform slots = .error error after) :
    after = slots := by
  have allowed : request.Allowed held := by
    cases request with
    | release address => simp [SlotRequest.perform, map_apply] at refusal
    | _ => trivial
  obtain ⟨_, unchanged⟩ | ⟨_, _, granted, _⟩ := consistent.perform allowed
  · rw [refusal] at unchanged
    cases unchanged
    rfl
  · rw [refusal] at granted
    cases granted

end Perform

namespace Reached

variable {first last screen : Word} {history : List SlotReply} {slots : Slots}

/-- A reached allocator is consistent, its map is the one the replies told of, and every variable
told of is among those made. -/
theorem consistent (reached : Reached first last screen history slots) :
    slots.Consistent (heldBy history) ∧ slots.lexicon = Lexicon.told history ∧
      ∀ binding ∈ history.filterMap SlotReply.binding?, slots.made[binding.number]? = some binding := by
  induction reached with
  | new => exact ⟨consistent_new first last screen, lexicon_new first last screen, by simp⟩
  | granted _ allowed step ih =>
    obtain ⟨consistent, mapped, told⟩ := ih
    obtain ⟨_, refusal⟩ | ⟨_, _, granted, behind, recorded, tells, grows⟩ := consistent.perform allowed
    · rw [step] at refusal
      cases refusal
    · rw [step] at granted
      cases granted
      refine ⟨heldBy_cons _ _ ▸ behind, by rw [recorded, mapped]; rfl, ?_⟩
      intro binding member
      rw [List.filterMap_cons] at member
      split at member
      · exact grows _ _ (told binding member)
      · rename_i tellsOf
        rcases List.mem_cons.mp member with rfl | member
        · exact tells binding tellsOf
        · exact grows _ _ (told binding member)
  | refused _ step ih =>
    obtain rfl := ih.1.eq_of_refused step
    exact ih

/-- In every reached allocator, whatever the order of requests, the map that the replies told of is
the map that resolution follows. -/
theorem resolution_is_lexical (reached : Reached first last screen history slots) :
    slots.lexicon = Lexicon.told history ∧ slots.FollowsLexicon history := by
  obtain ⟨consistent, mapped, told⟩ := reached.consistent
  refine ⟨mapped, ?_, ?_, ?_, ?_, ?_, ?_⟩
  · intro name scope path entry opened nearest
    rw [nearest_lexicon opened] at nearest
    obtain ⟨binding, seen, rfl⟩ := Option.map_eq_some_iff.mp nearest
    exact ⟨binding, consistent.resolve_visible seen, rfl⟩
  · intro name scope path spare opened nearest atLeast atMost notUsed
    rw [nearest_lexicon opened, Option.map_eq_none_iff] at nearest
    obtain ⟨outer, around, rfl⟩ := Option.map_eq_some_iff.mp opened
    cases free : slots.free? with
    | none =>
      have used := consistent.ranged.free?_eq_none_iff.mp free spare atLeast atMost
      simp [isOccupied, used] at notUsed
    | some address =>
      have grants := consistent.grants_bound around nearest free
      refine ⟨_, _, consistent.resolve_fresh around nearest free, rfl, ?_, grants.recorded⟩
      intro earlier member
      exact Nat.ne_of_lt (Array.getElem?_eq_some_iff.mp (told earlier member)).1
  · intro scope path opened inner
    obtain ⟨outer, around, rfl⟩ := Option.map_eq_some_iff.mp opened
    obtain ⟨tables, present, rfl⟩ := Option.map_eq_some_iff.mp around
    have nested : tables.outer ≠ [] := fun nil => inner ((consistent.around_eq_nil_iff around).mp nil)
    exact ⟨_, close_eq present nested, lexicon_closed consistent (consistent.closed present inner)
      (fun _ => consistent.live_closed present inner)⟩
  · intro parent path opened
    obtain ⟨outer, around, rfl⟩ := Option.map_eq_some_iff.mp opened
    refine ⟨_, _, openChild_eq around, ?_, ?_, ?_⟩
    · simp [path?, around?]
    · simp [path?, around?_opened]
    · intro other different
      simp [path?, around?_opened, different]
  · intro request allowed notResolve notClose
    cases request with
    | openChild parent =>
      cases parentOpened : slots.around? parent with
      | none => simp [after, SlotRequest.perform, Effects.map_apply, openChild_of_unopened parentOpened]
      | some outer =>
        simp only [after, SlotRequest.perform, openChild_eq parentOpened, Effects.bind_apply,
          Effects.pure_apply]
        exact lexicon_congr consistent (consistent.opened_child parentOpened) (slots.live_opened _)
    | close scope => exact absurd rfl (notClose scope)
    | resolve name scope => exact absurd rfl (notResolve name scope)
    | acquire =>
      cases free : slots.free? with
      | none => simp [after, SlotRequest.perform, Effects.map_apply, acquire_of_full free]
      | some address =>
        simp only [after, SlotRequest.perform, acquire_of_free free, Effects.bind_apply,
          Effects.pure_apply]
        exact lexicon_congr consistent (consistent.occupy free) (fun _ => Iff.rfl)
    | release address =>
      exact lexicon_congr consistent (consistent.release allowed) (fun _ => Iff.rfl)
  · intro request error after refusal
    exact consistent.eq_of_refused refusal

/-- A closed scope is used again while its old address is held for an intermediate result. -/
theorem resolution_is_lexical_in_reused_scope : ∃ history slots,
    Reached 0x2000 0x2002 0x8000 history slots ∧
    history = [.bound ⟨1, "x", 0x2001, 1⟩, .acquired 0x2000, .closed 1,
      .bound ⟨0, "x", 0x2000, 1⟩, .opened 1 0] ∧
    slots.lexicon = Lexicon.told history ∧ slots.FollowsLexicon history := by
  have opened := @granted 0x2000 0x2002 0x8000 _ _ _ (.openChild 0) _ .new trivial rfl
  have bound := @granted _ _ _ _ _ _ (.resolve "x" 1) _ opened trivial rfl
  have closed := @granted _ _ _ _ _ _ (.close 1) _ bound trivial rfl
  have acquired := @granted _ _ _ _ _ _ .acquire _ closed trivial rfl
  have reached := @granted _ _ _ _ _ _ (.resolve "x" 1) _ acquired trivial rfl
  exact ⟨_, _, reached, rfl, resolution_is_lexical reached⟩

end Reached

end Slots

end Dcpu
