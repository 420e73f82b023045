import Dcpu.Proofs.Slots.Accounting

/-! # Variables stay where they are

A name that was resolved is resolved to the same variable, at the same address, until the scope that the
variable was made for is closed. Whatever is asked in between, no variable of the same name comes between the
asking scope and that one: a scope in between sees the name, and so does not make it.
-/

namespace Dcpu

/-- Requests that are carried out one after the other, granted or refused, release only addresses that are
held at the time. -/
def SlotRequest.AllAllowed : List Word → Slots → List SlotRequest → Prop
  | _, _, [] => True
  | held, slots, request :: requests => request.Allowed held ∧
    match request.perform slots with
    | .ok reply after => AllAllowed (Slots.heldThen held reply) after requests
    | .error _ after => AllAllowed held after requests

namespace Slots

namespace Consistent

variable {slots : Slots} {held : List Word} {name : String} {scope : ScopeId} {binding : Binding}

/-- The scopes around a scope on the way out are those behind it. -/
theorem around_of_path (consistent : slots.Consistent held) {outer nearer farther : List ScopeId}
    {other : ScopeId} (opened : slots.around? scope = some outer)
    (path : scope :: outer = nearer ++ other :: farther) : slots.around? other = some farther := by
  induction nearer generalizing scope outer with
  | nil =>
    cases path
    exact opened
  | cons first nearer ih =>
    obtain ⟨rfl, behind⟩ := List.cons.inj path
    have inner : scope ≠ 0 := by
      intro root
      rw [(consistent.around_eq_nil_iff opened).mpr root] at behind
      cases nearer <;> cases behind
    obtain ⟨parent, beyond, _, parentOpened, rfl⟩ := consistent.nested scope outer opened inner
    exact ih parentOpened behind

/-- A variable is seen from a scope if it is live for a scope on the way out, and no nearer scope has a
variable of its name. -/
theorem visible?_eq_some_iff (consistent : slots.Consistent held) :
    slots.visible? name scope = some binding ↔ slots.Live binding ∧ binding.name = name ∧
      ∃ nearer farther, slots.path? scope = some (nearer ++ binding.origin :: farther) ∧
        ∀ other ∈ nearer, ∀ cover, slots.Live cover → cover.origin = other → cover.name ≠ name := by
  have unseen (other : ScopeId) : slots.live other name = none ↔
      ∀ cover, slots.Live cover → cover.origin = other → cover.name ≠ name := by
    rw [Option.eq_none_iff_forall_ne_some]
    simp only [ne_eq, consistent.live_eq_some_iff, not_and]
  cases opened : slots.around? scope with
  | none => simp [visible?, path?, opened]
  | some outer =>
    rw [visible?_eq opened, List.findSome?_eq_some_iff]
    simp only [consistent.live_eq_some_iff, unseen, path?, opened, Option.map_some, Option.some.injEq]
    constructor
    · rintro ⟨nearer, _, farther, path, ⟨live, rfl, named⟩, hidden⟩
      exact ⟨live, named, nearer, farther, path, hidden⟩
    · rintro ⟨live, named, nearer, farther, path, hidden⟩
      exact ⟨nearer, _, farther, path, ⟨live, rfl, named⟩, hidden⟩

/-- A name that is seen from a scope is seen from all scopes on the way to its variable's own. -/
theorem visible?_of_nearer (consistent : slots.Consistent held) {nearer farther : List ScopeId}
    (path : slots.path? scope = some (nearer ++ binding.origin :: farther)) (live : slots.Live binding)
    {between : ScopeId} (member : between ∈ nearer) :
    slots.visible? binding.name between ≠ none := by
  obtain ⟨outer, opened, path⟩ := Option.map_eq_some_iff.mp path
  obtain ⟨before, behind, rfl⟩ := List.append_of_mem member
  have around := @around_of_path _ _ _ consistent _ before (behind ++ binding.origin :: farther) between opened
    (by rw [path, List.append_assoc, List.cons_append])
  rw [visible?_eq around]
  intro unseen
  have hidden := List.findSome?_eq_none_iff.mp unseen binding.origin (by simp)
  rw [consistent.live_eq_some_iff.mpr ⟨live, rfl, rfl⟩] at hidden
  cases hidden

end Consistent

namespace Granted

variable {slots after : Slots} {held : List Word} {request : SlotRequest} {reply : SlotReply}

/-- Scopes that were opened keep their place. -/
theorem path? (granted : slots.Granted request reply after) {scope : ScopeId} {path : List ScopeId}
    (opened : slots.path? scope = some path) : after.path? scope = some path := by
  obtain ⟨outer, around, rfl⟩ := Option.map_eq_some_iff.mp opened
  have stays : after.around? scope = some outer := by
    cases granted with
    | opened =>
      have below : scope < slots.scopes.size := (slots.around?_isSome_iff scope).mp (by simp [around])
      rw [around?_opened, if_neg (Nat.ne_of_lt below), around]
    | closed => rw [Consistent.around?_closed, around]
    | bound => rw [around?_bound, around]
    | found | acquired | released => exact around
  simp [Slots.path?, stays]

/-- What is live after a request was live before, or is a variable that was made because its scope did
not see the name; and only closing its scope ends a variable. -/
theorem live (granted : slots.Granted request reply after) (consistent : slots.Consistent held) :
    (∀ binding, after.Live binding → slots.Live binding ∨
      slots.visible? binding.name binding.origin = none) ∧
    ∀ binding, slots.Live binding → request ≠ .close binding.origin → after.Live binding := by
  cases granted with
  | opened =>
    simp only [live_opened]
    exact ⟨fun _ => .inl, fun _ live _ => live⟩
  | closed present inner =>
    simp only [consistent.live_closed present inner]
    refine ⟨fun _ live => .inl live.1, fun binding live kept => ⟨live, ?_⟩⟩
    rintro rfl
    exact kept rfl
  | bound opened unseen free =>
    have inside := (slots.around?_isSome_iff _).mp (Option.isSome_of_eq_some opened)
    refine ⟨fun other live => ?_, fun other live _ => (consistent.live_bound inside rfl).mpr (.inr live)⟩
    obtain rfl | live := (consistent.live_bound inside rfl).mp live
    · exact .inr unseen
    · exact .inl live
  | found | acquired | released => exact ⟨fun _ => .inl, fun _ live _ => live⟩

/-- A variable that is seen stays so, unless its scope is closed. -/
theorem visible? (granted : slots.Granted request reply after) (consistent : slots.Consistent held)
    {heldAfter : List Word} (behind : after.Consistent heldAfter) {name : String} {scope : ScopeId}
    {binding : Binding} (seen : slots.visible? name scope = some binding)
    (kept : request ≠ .close binding.origin) : after.visible? name scope = some binding := by
  obtain ⟨live, rfl, nearer, farther, path, hidden⟩ := consistent.visible?_eq_some_iff.mp seen
  obtain ⟨made, stays⟩ := granted.live consistent
  refine behind.visible?_eq_some_iff.mpr ⟨stays binding live kept, rfl, nearer, farther, granted.path? path, ?_⟩
  rintro other member cover coverLive rfl sameName
  obtain before | unseen := made cover coverLive
  · exact hidden _ member cover before rfl sameName
  · rw [sameName] at unseen
    exact consistent.visible?_of_nearer path live member unseen

end Granted

/-- A variable that is seen stays so after any requests that do not close its scope. -/
theorem Consistent.visible?_performAll {slots : Slots} {held : List Word} (consistent : slots.Consistent held)
    {name : String} {scope : ScopeId} {binding : Binding} (seen : slots.visible? name scope = some binding)
    {requests : List SlotRequest} (allowed : SlotRequest.AllAllowed held slots requests)
    (kept : .close binding.origin ∉ requests) :
    (∃ heldAfter, (slots.performAll requests).Consistent heldAfter) ∧
      (slots.performAll requests).visible? name scope = some binding := by
  induction requests generalizing slots held with
  | nil => exact ⟨⟨held, consistent⟩, seen⟩
  | cons request requests ih =>
    obtain ⟨allowedNow, allowedLater⟩ := allowed
    obtain ⟨keptNow, keptLater⟩ := not_or.mp (List.mem_cons.not.mp kept)
    rw [performAll, List.foldl_cons, after]
    obtain ⟨error, refusal⟩ | ⟨reply, later, ran, behind, _⟩ := consistent.perform allowedNow
    · rw [refusal] at allowedLater ⊢
      exact ih consistent seen allowedLater keptLater
    · rw [ran] at allowedLater ⊢
      have stays := (consistent.granted ran).visible? consistent behind seen (Ne.symm keptNow)
      exact ih behind stays allowedLater keptLater

/-- What a name is resolved to is seen afterwards. -/
theorem Consistent.visible?_of_resolve {slots after : Slots} {held : List Word}
    (consistent : slots.Consistent held) {name : String} {scope : ScopeId} {binding : Binding}
    (resolved : resolve name scope slots = .ok binding after) :
    after.Consistent held ∧ after.visible? name scope = some binding := by
  cases opened : slots.around? scope with
  | none =>
    rw [resolve, Effects.bind_apply, tables_of_unopened opened] at resolved
    cases resolved
  | some outer =>
    cases seen : slots.visible? name scope with
    | some other =>
      rw [consistent.resolve_visible seen] at resolved
      cases resolved
      exact ⟨consistent, seen⟩
    | none =>
      cases free : slots.free? with
      | none =>
        rw [consistent.resolve_full opened seen free] at resolved
        cases resolved
      | some address =>
        rw [consistent.resolve_fresh opened seen free] at resolved
        cases resolved
        have inside : scope < slots.scopes.size := (slots.around?_isSome_iff scope).mp (by simp [opened])
        have unlisted : slots.live scope name = none := by
          rw [visible?_eq opened] at seen
          exact List.findSome?_eq_none_iff.mp seen scope (List.mem_cons_self ..)
        let binding : Binding := ⟨slots.made.size, name, address, scope⟩
        have behind : (slots.bound binding).Consistent held := consistent.bound inside rfl unlisted free
        refine ⟨behind, behind.visible?_eq_some_iff.mpr ⟨?_, rfl, [], outer, ?_, by simp⟩⟩
        · exact (consistent.live_bound inside rfl).mpr (.inl rfl)
        · simp [path?, around?_bound, opened]

namespace Reached

/-- Whatever is asked of a reached allocator, granted or refused, as long as only held addresses are released and
the scope of the variable is not closed: a name is resolved as before, even when no address is free. -/
theorem resolution_is_stable {first last screen : Word} {history : List SlotReply} {slots after : Slots}
    (reached : Reached first last screen history slots) {name : String} {scope : ScopeId} {binding : Binding}
    (resolved : resolve name scope slots = .ok binding after) {requests : List SlotRequest}
    (allowed : SlotRequest.AllAllowed (heldBy history) after requests)
    (kept : .close binding.origin ∉ requests) :
    resolve name scope (after.performAll requests) = .ok binding (after.performAll requests) := by
  obtain ⟨consistent, seen⟩ := reached.consistent.1.visible?_of_resolve resolved
  obtain ⟨⟨_, consistentThen⟩, stays⟩ := consistent.visible?_performAll seen allowed kept
  exact consistentThen.resolve_visible stays

/-- Between two times that the scope 2 asks for `x` of the scope 1, the range of two addresses is full,
requests for an address are refused, the asking scope is closed and a scope inside it asks, and the program's own
scope makes an `x` of its own. -/
def betweenResolutions : List SlotRequest :=
  [.acquire, .resolve "x" 0, .resolve "y" 2, .close 2, .close 0, .openChild 2, .resolve "x" 3,
    .release 0x2001, .resolve "x" 0]

theorem resolution_is_stable_in_full_range : ∃ history slots after,
    Reached 0x2000 0x2001 0x8000 history slots ∧
    resolve "x" 2 slots = .ok ⟨0, "x", 0x2000, 1⟩ after ∧
    (after.performAll betweenResolutions).free? = none ∧
    (after.performAll betweenResolutions).lexicon 0 "x" = some (1, 0x2001) ∧
    resolve "x" 2 (after.performAll betweenResolutions) =
      .ok ⟨0, "x", 0x2000, 1⟩ (after.performAll betweenResolutions) := by
  have opened := @granted 0x2000 0x2001 0x8000 _ _ _ (.openChild 0) _ .new trivial rfl
  have inside := @granted _ _ _ _ _ _ (.openChild 1) _ opened trivial rfl
  have reached := @granted _ _ _ _ _ _ (.resolve "x" 1) _ inside trivial rfl
  refine ⟨_, _, _, reached, rfl, rfl, rfl, resolution_is_stable reached rfl ?_ (by decide)⟩
  exact ⟨trivial, trivial, trivial, trivial, trivial, trivial, trivial, List.mem_singleton.mpr rfl, trivial,
    trivial⟩

end Reached

end Slots

end Dcpu
