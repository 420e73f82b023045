import Dcpu.Proofs.Slots.Lexical

/-! # Refused requests leave no trace

Here requests come in any order, and any address may be released, held or not. A refused request
leaves the whole allocator as it was. A release touches no table of names, so that a name which the
replies tell to be bound for a scope, or for one around it, is found there as long as it is bound.
-/

namespace Dcpu.Slots

open Effects

def answer (slots : Slots) (request : SlotRequest) : Except SlotError SlotReply :=
  match request.perform slots with
  | .ok reply _ => .ok reply
  | .error error _ => .error error

def answers (slots : Slots) : List SlotRequest → List (Except SlotError SlotReply)
  | [] => []
  | request :: requests => slots.answer request :: (slots.after request).answers requests

/-- The replies to those of the requests that are granted, the last of them first. -/
def granted (slots : Slots) (requests : List SlotRequest) : List SlotReply :=
  ((slots.answers requests).filterMap Except.toOption).reverse

section Refusal

/-- A step whose refusals leave the allocator as it was. -/
def Traceless (step : Alloc α) : Prop :=
  ∀ slots error after, step slots = .error error after → after = slots

theorem traceless_pure (value : α) : Traceless (pure value : Alloc α) := by
  intro slots error after refused
  cases refused

theorem traceless_throw (error : SlotError) : Traceless (throw error : Alloc α) := by
  intro slots _ after refused
  cases refused
  rfl

theorem traceless_get {next : Slots → Alloc α} (rest : ∀ seen, Traceless (next seen)) :
    Traceless (get >>= next) := by
  intro slots error after refused
  exact rest slots slots error after refused

/-- Behind the part that may be refused, nothing more is refused. -/
theorem traceless_first {first : Alloc α} {next : α → Alloc β} (traceless : Traceless first)
    (granted : ∀ value slots error after, next value slots ≠ .error error after) :
    Traceless (first >>= next) := by
  intro slots error after refused
  obtain refused | ⟨value, middle, _, refused⟩ := bind_eq_error_iff.mp refused
  · exact traceless slots error after refused
  · exact absurd refused (granted value middle error after)

theorem traceless_tables (scope : ScopeId) {next : Scope → Alloc α}
    (rest : ∀ tables, Traceless (next tables)) : Traceless (tables scope >>= next) := by
  intro slots error after refused
  cases opened : slots.around? scope with
  | none =>
    rw [bind_apply, tables_of_unopened opened] at refused
    cases refused
    rfl
  | some outer =>
    obtain ⟨tables, step, _⟩ := tables_eq opened
    rw [bind_apply, step] at refused
    exact rest tables slots error after refused

theorem traceless_acquire : Traceless acquire := by
  apply traceless_get
  intro seen
  split
  · exact traceless_throw _
  · intro slots error after refused
    simp [bind_apply] at refused

/-- Only the lack of a free address stops a resolution, before any table is touched. -/
theorem traceless_resolveFrom (name : String) (origin scope : ScopeId) (outer : List ScopeId) :
    Traceless (resolveFrom name origin scope outer) := by
  induction outer generalizing scope with
  | nil =>
    apply traceless_get
    intro seen
    split
    · exact traceless_pure _
    · apply traceless_first traceless_acquire
      intro address slots error after refused
      simp [bind_apply, map_apply] at refused
  | cons parent outer ih =>
    apply traceless_get
    intro seen
    split
    · exact traceless_pure _
    · apply traceless_first (ih parent)
      intro binding slots error after refused
      split at refused <;> simp [bind_apply] at refused

/-- A refused request changes nothing, in whatever state the allocator is. -/
theorem traceless_perform (request : SlotRequest) : Traceless request.perform := by
  cases request with
  | openChild parent =>
    refine traceless_first (traceless_tables parent fun around => traceless_get fun seen => ?_) ?_
    · intro slots error after refused
      simp [map_apply] at refused
    · intro scope slots error after refused
      cases refused
  | close scope =>
    refine traceless_first (traceless_tables scope fun around => ?_) ?_
    · split
      · exact traceless_first (traceless_throw _) fun _ _ _ _ refused => by cases refused
      · intro slots error after refused
        simp at refused
    · intro _ slots error after refused
      cases refused
  | resolve name scope =>
    apply traceless_get
    intro seen
    apply traceless_first
    · exact traceless_tables scope fun tables => traceless_resolveFrom name scope scope tables.outer
    · intro binding slots error after refused
      cases refused
  | acquire =>
    apply traceless_first traceless_acquire
    intro address slots error after refused
    cases refused
  | release address =>
    intro slots error after refused
    simp [SlotRequest.perform, bind_apply] at refused

theorem after_of_refused {slots : Slots} {request : SlotRequest} {error : SlotError}
    (refused : slots.answer request = .error error) : slots.after request = slots := by
  cases ran : request.perform slots with
  | ok reply behind => simp [answer, ran] at refused
  | error error behind => simpa [after, ran] using traceless_perform request slots error behind ran

end Refusal

/-- The tables of names agree with the variables: numbers tell the order of making, a row tells a
name and the number of its variable, and only the program's own table has rows for other scopes. -/
structure Indexed (slots : Slots) : Prop where
  root : slots.around? 0 = some []
  anchored : ∀ scope outer, slots.around? scope = some outer →
    (scope :: outer).getLast? = some 0 ∧ ∀ other ∈ scope :: outer, (slots.around? other).isSome
  numbered : ∀ (number : Nat) binding, slots.made[number]? = some binding → binding.number = number
  rowed : ∀ scope, ∀ row ∈ slots.rows scope, ∃ binding, slots.made[row.2]? = some binding ∧
    binding.name = row.1 ∧ (scope = 0 ∨ binding.origin = scope)

/-- Scopes keep their places, and variables and rows are only added. -/
structure GrowsTo (slots after : Slots) : Prop where
  around : after.around? = slots.around?
  made : ∀ (number : Nat) binding, slots.made[number]? = some binding → after.made[number]? = some binding
  rows : ∀ scope, ∀ row ∈ slots.rows scope, row ∈ after.rows scope

/-- The entries of a lexical map stand for variables listed in the tables of their scopes. -/
def Lists (slots : Slots) (lexicon : Lexicon) : Prop :=
  ∀ scope name number address, lexicon scope name = some (number, address) →
    slots.made[number]? = some ⟨number, name, address, scope⟩ ∧ (name, number) ∈ slots.rows scope

section Growth

variable {slots middle after : Slots} {scope : ScopeId} {binding : Binding}

theorem GrowsTo.refl (slots : Slots) : slots.GrowsTo slots :=
  ⟨rfl, fun _ _ made => made, fun _ _ row => row⟩

theorem GrowsTo.trans (one : slots.GrowsTo middle) (two : middle.GrowsTo after) : slots.GrowsTo after :=
  ⟨two.around.trans one.around,
    fun number binding made => two.made number binding (one.made number binding made),
    fun scope row member => two.rows scope row (one.rows scope row member)⟩

theorem growsTo_occupy (slots : Slots) (address : Word) : slots.GrowsTo (slots.occupy address) :=
  ⟨rfl, fun _ _ made => made, fun _ _ row => row⟩

theorem growsTo_enter (opened : scope < slots.scopes.size) : slots.GrowsTo (slots.enter scope binding) where
  around := slots.around?_enter scope binding
  made := fun _ _ made => made
  rows := by
    intro other row member
    rw [rows_enter _ _ _ opened]
    split
    · exact List.mem_append_left _ member
    · exact member

theorem mem_rows_enter (opened : scope < slots.scopes.size) :
    (binding.name, binding.number) ∈ (slots.enter scope binding).rows scope := by
  simp [rows_enter _ _ _ opened]

/-- What is listed stays so while tables grow. -/
theorem Lists.grow {lexicon : Lexicon} (lists : slots.Lists lexicon) (grows : slots.GrowsTo after) :
    after.Lists lexicon := by
  intro scope name number address entry
  obtain ⟨made, row⟩ := lists scope name number address entry
  exact ⟨grows.made _ _ made, grows.rows _ _ row⟩

end Growth

namespace Indexed

variable {slots : Slots} {scope : ScopeId} {binding : Binding}

theorem new (first last screen : Word) : (Slots.new first last screen).Indexed where
  root := rfl
  anchored := by
    intro scope outer opened
    obtain ⟨tables, present, rfl⟩ := Option.map_eq_some_iff.mp opened
    obtain ⟨inside, rfl⟩ := Array.getElem?_eq_some_iff.mp present
    obtain rfl : scope = 0 := Nat.lt_one_iff.mp inside
    simp [Slots.new, Scope.empty, around?]
  numbered := by simp [Slots.new]
  rowed := by simp [rows_new]

theorem occupy (indexed : slots.Indexed) (address : Word) : (slots.occupy address).Indexed :=
  ⟨indexed.root, indexed.anchored, indexed.numbered, indexed.rowed⟩

theorem release (indexed : slots.Indexed) (address : Word) : (slots.release address).Indexed :=
  ⟨indexed.root, indexed.anchored, indexed.numbered, indexed.rowed⟩

theorem opened (indexed : slots.Indexed) {parent : ScopeId} {outer : List ScopeId}
    (parentOpened : slots.around? parent = some outer) : (slots.opened (parent :: outer)).Indexed where
  root := by
    have inside : 0 < slots.scopes.size := (slots.around?_isSome_iff 0).mp (by simp [indexed.root])
    rw [around?_opened, if_neg (Nat.ne_of_lt inside)]
    exact indexed.root
  anchored := by
    intro scope around opened
    have kept (other : ScopeId) (open_ : (slots.around? other).isSome) :
        ((slots.opened (parent :: outer)).around? other).isSome := by
      rw [around?_opened]
      split
      · rfl
      · exact open_
    rw [around?_opened] at opened
    split at opened
    · rename_i last
      cases opened
      obtain ⟨ends, inside⟩ := indexed.anchored parent outer parentOpened
      refine ⟨by simpa using ends, List.forall_mem_cons.mpr ⟨?_, ?_⟩⟩
      · simp [around?_opened, last]
      · exact fun other member => kept other (inside other member)
    · obtain ⟨ends, inside⟩ := indexed.anchored scope around opened
      exact ⟨ends, fun other member => kept other (inside other member)⟩
  numbered := indexed.numbered
  rowed := by
    rw [rows_opened]
    exact indexed.rowed

theorem enter (indexed : slots.Indexed) (inside : scope < slots.scopes.size)
    (made : slots.made[binding.number]? = some binding) (own : scope = 0 ∨ binding.origin = scope) :
    (slots.enter scope binding).Indexed where
  root := by rw [around?_enter]; exact indexed.root
  anchored := by rw [around?_enter]; exact indexed.anchored
  numbered := indexed.numbered
  rowed := by
    intro other row member
    rw [rows_enter _ _ _ inside] at member
    split at member
    · rename_i same
      subst same
      rcases List.mem_append.mp member with member | member
      · exact indexed.rowed other row member
      · cases List.mem_singleton.mp member
        exact ⟨binding, made, rfl, own⟩
    · exact indexed.rowed other row member

/-- The allocator with one more variable, which no table lists yet. -/
theorem push (indexed : slots.Indexed) (number : binding.number = slots.made.size) :
    { slots with made := slots.made.push binding }.Indexed ∧
      slots.GrowsTo { slots with made := slots.made.push binding } := by
  have grows : slots.GrowsTo { slots with made := slots.made.push binding } := by
    refine ⟨rfl, ?_, fun _ _ row => row⟩
    intro index other made
    rw [Array.getElem?_push, if_neg (Nat.ne_of_lt (Array.getElem?_eq_some_iff.mp made).1)]
    exact made
  refine ⟨⟨indexed.root, indexed.anchored, ?_, ?_⟩, grows⟩
  · intro index other made
    rw [Array.getElem?_push] at made
    split at made
    · cases made
      rename_i last
      exact number.trans last.symm
    · exact indexed.numbered index other made
  · intro scope row member
    obtain ⟨other, made, rest⟩ := indexed.rowed scope row member
    exact ⟨other, grows.made _ _ made, rest⟩

/-- Closing a scope strikes only its own variables out. -/
theorem closed (indexed : slots.Indexed) {tables : Scope} (present : slots.scopes[scope]? = some tables)
    (inner : tables.outer ≠ []) : (slots.closed scope tables).Indexed ∧
      ∀ {lexicon : Lexicon}, slots.Lists lexicon →
        (slots.closed scope tables).Lists (lexicon.erase scope) := by
  have around := Consistent.around?_closed slots scope tables
  have made := Consistent.made_closed slots scope tables
  have opened : slots.around? scope = some tables.outer := by simp [around?, present]
  have notRoot : scope ≠ 0 := by
    rintro rfl
    exact inner (Option.some.inj (opened.symm.trans indexed.root))
  have rows (other : ScopeId) (row : String × Nat) : row ∈ (slots.closed scope tables).rows other ↔
      other ≠ scope ∧ row ∈ slots.rows other ∧ (other ∈ tables.outer →
        ∀ binding ∈ slots.listed tables, row ≠ (binding.name, binding.number)) := by
    rw [Slots.closed, rows_clear]
    split <;> simp [mem_rows_strikeAll, *]
  refine ⟨⟨around ▸ indexed.root, around ▸ indexed.anchored, made ▸ indexed.numbered, ?_⟩, ?_⟩
  · intro other row member
    rw [made]
    exact indexed.rowed other row ((rows other row).mp member).2.1
  · intro lexicon lists other name number address entry
    simp only [Lexicon.erase, Option.ite_none_left_eq_some] at entry
    obtain ⟨elsewhere, entry⟩ := entry
    obtain ⟨stands, row⟩ := lists other name number address entry
    refine ⟨made ▸ stands, (rows other _).mpr ⟨elsewhere, row, fun _ closing member same => elsewhere ?_⟩⟩
    -- a variable struck out is listed in the closed scope and so belongs to it
    obtain ⟨⟨listed, index⟩, listedRow, found⟩ := List.mem_filterMap.mp member
    have own : (listed, index) ∈ slots.rows scope := by simpa [Slots.rows, present] using listedRow
    obtain ⟨binding, bindingMade, _, root | origin⟩ := indexed.rowed scope _ own
    · exact absurd root notRoot
    · have number : number = index := (Prod.mk.inj same).2.trans (indexed.numbered _ _ found)
      subst number
      cases stands.symm.trans bindingMade
      exact origin

/-- What the tables of a scope answer is one of the variables, and has the name. -/
theorem of_candidate (indexed : slots.Indexed) {name : String} {origin : ScopeId}
    (found : slots.candidate? name scope origin = some binding) :
    slots.made[binding.number]? = some binding ∧ binding.name = name := by
  have member : binding ∈ slots.named scope name := mem_named_of_candidate? found
  rw [named_eq] at member
  obtain ⟨⟨listed, number⟩, row, made⟩ := List.mem_filterMap.mp member
  simp only [Option.ite_none_right_eq_some] at made
  obtain ⟨other, otherMade, sameName, _⟩ := indexed.rowed scope _ row
  cases made.2.symm.trans otherMade
  exact ⟨indexed.numbered _ _ made.2 ▸ made.2, sameName.trans made.1⟩

end Indexed

/-- A variable of the scope itself is answered to every scope that asks. -/
theorem candidate?_isSome {slots : Slots} {scope : ScopeId} {name : String} {number : Nat} {address : Word}
    (made : slots.made[number]? = some ⟨number, name, address, scope⟩)
    (row : (name, number) ∈ slots.rows scope) (origin : ScopeId) :
    (slots.candidate? name scope origin).isSome := by
  have member : ⟨number, name, address, scope⟩ ∈ slots.named scope name := by
    rw [named_eq, List.mem_filterMap]
    exact ⟨_, row, by simp [made]⟩
  rw [candidate?, Option.isSome_or, Bool.or_eq_true]
  exact .inr (List.find?_isSome.mpr ⟨_, List.mem_reverse.mpr member, by simp⟩)

/-- What a granted resolution leaves: the tables agree still, and a variable made on the way is
listed for the scope that asked. -/
structure Resolved (slots after : Slots) (origin scope : ScopeId) (binding : Binding) : Prop where
  indexed : after.Indexed
  grows : slots.GrowsTo after
  made : after.made[binding.number]? = some binding
  fresh : binding.number = slots.made.size → binding.origin = origin ∧
    (origin = scope → (binding.name, binding.number) ∈ after.rows scope)

section Resolution

variable {slots after : Slots} {name : String} {origin : ScopeId} {binding : Binding}

/-- A candidate that is found resolves the name, and nothing changes. -/
theorem resolved_of_candidate (indexed : slots.Indexed) {scope : ScopeId}
    (found : slots.candidate? name scope origin = some binding) :
    Resolved slots slots origin scope binding := by
  have made := (indexed.of_candidate found).1
  refine ⟨indexed, .refl slots, made, fun last => ?_⟩
  exact absurd last (Nat.ne_of_lt (Array.getElem?_eq_some_iff.mp made).1)

theorem resolved_of_resolveFrom (indexed : slots.Indexed) (scope : ScopeId) (outer : List ScopeId)
    (ends : (scope :: outer).getLast? = some 0)
    (opened : ∀ other ∈ scope :: outer, (slots.around? other).isSome)
    (granted : resolveFrom name origin scope outer slots = .ok binding after) :
    Resolved slots after origin scope binding := by
  induction outer generalizing scope binding after with
  | nil =>
    obtain rfl : scope = 0 := by simpa using ends
    obtain ⟨seen, rfl⟩ | ⟨address, _, rfl, rfl⟩ := of_resolveFrom_nil_eq_ok granted
    · exact resolved_of_candidate indexed seen
    · let binding : Binding := ⟨slots.made.size, name, address, origin⟩
      have root : 0 < (slots.occupy address).scopes.size :=
        (around?_isSome_iff _ 0).mp (opened 0 (List.mem_cons_self ..))
      obtain ⟨pushed, grows⟩ := (indexed.occupy address).push (show binding.number = _ from rfl)
      have made : ((slots.occupy address).made.push binding)[binding.number]? = some binding :=
        Array.getElem?_push_size
      exact ⟨pushed.enter root made (.inl rfl),
        ((growsTo_occupy slots address).trans grows).trans (growsTo_enter root), made,
        fun _ => ⟨rfl, fun _ => mem_rows_enter root⟩⟩
  | cons parent outer ih =>
    obtain ⟨seen, rfl⟩ | ⟨middle, inner, rfl⟩ := of_resolveFrom_cons_eq_ok granted
    · exact resolved_of_candidate indexed seen
    · have resolved := ih parent (by simpa using ends)
        (fun other member => opened other (List.mem_cons_of_mem _ member)) inner
      by_cases own : binding.origin = scope
      · have inside : scope < middle.scopes.size := by
          rw [← around?_isSome_iff, resolved.grows.around]
          exact opened scope (List.mem_cons_self ..)
        rw [if_pos own]
        exact ⟨resolved.indexed.enter inside resolved.made (.inr own),
          resolved.grows.trans (growsTo_enter inside), resolved.made,
          fun last => ⟨(resolved.fresh last).1, fun _ => mem_rows_enter inside⟩⟩
      · rw [if_neg own]
        exact ⟨resolved.indexed, resolved.grows, resolved.made,
          fun last => ⟨(resolved.fresh last).1,
            fun asked => absurd ((resolved.fresh last).1.trans asked) own⟩⟩

/-- A name that some table on the way outwards answers is resolved to a variable made before. -/
theorem resolveFrom_finds (indexed : slots.Indexed) (scope : ScopeId) (outer : List ScopeId)
    (answered : ∃ other ∈ scope :: outer, (slots.candidate? name other origin).isSome) :
    ∃ binding after, resolveFrom name origin scope outer slots = .ok binding after ∧
      slots.made[binding.number]? = some binding ∧ binding.name = name := by
  induction outer generalizing scope with
  | nil =>
    obtain ⟨other, member, answered⟩ := answered
    obtain rfl := List.mem_singleton.mp member
    obtain ⟨binding, found⟩ := Option.isSome_iff_exists.mp answered
    exact ⟨binding, slots, by simp [resolveFrom, bind_apply, found], indexed.of_candidate found⟩
  | cons parent outer ih =>
    cases seen : slots.candidate? name scope origin with
    | some binding =>
      exact ⟨binding, slots, by simp [resolveFrom, bind_apply, seen], indexed.of_candidate seen⟩
    | none =>
      have beyond : ∃ other ∈ parent :: outer, (slots.candidate? name other origin).isSome := by
        obtain ⟨other, member, answered⟩ := answered
        rcases List.mem_cons.mp member with rfl | member
        · simp [seen] at answered
        · exact ⟨other, member, answered⟩
      obtain ⟨binding, middle, inner, found⟩ := ih parent beyond
      by_cases own : binding.origin = scope
      · exact ⟨binding, middle.enter scope binding,
          by simp [resolveFrom, bind_apply, map_apply, seen, inner, own], found⟩
      · exact ⟨binding, middle, by simp [resolveFrom, bind_apply, seen, inner, own], found⟩

end Resolution

/-- A granted request keeps the tables in agreement, and with them the entries that its reply
tells of. -/
theorem Indexed.perform {slots after : Slots} (indexed : slots.Indexed) {lexicon : Lexicon}
    (lists : slots.Lists lexicon) {request : SlotRequest} {reply : SlotReply}
    (granted : request.perform slots = .ok reply after) :
    after.Indexed ∧ after.Lists (lexicon.record reply) := by
  cases request with
  | openChild parent =>
    obtain ⟨scope, behind, opens, rest⟩ := bind_eq_ok_iff.mp granted
    cases rest
    obtain ⟨outer, opened, _, rfl⟩ := of_openChild_eq_ok opens
    refine ⟨indexed.opened opened, ?_⟩
    intro scope name number address entry
    rw [rows_opened]
    exact lists scope name number address entry
  | close scope =>
    obtain ⟨_, behind, closes, rest⟩ := bind_eq_ok_iff.mp granted
    cases rest
    obtain ⟨tables, present, inner, rfl⟩ := of_close_eq_ok closes
    obtain ⟨stillIndexed, stillLists⟩ := indexed.closed present inner
    exact ⟨stillIndexed, stillLists lists⟩
  | resolve name scope =>
    obtain ⟨_, _, same, granted⟩ := bind_eq_ok_iff.mp granted
    cases same
    obtain ⟨binding, behind, resolves, rest⟩ := bind_eq_ok_iff.mp granted
    cases rest
    obtain ⟨outer, opened, ran⟩ := of_resolve_eq_ok resolves
    obtain ⟨ends, inside⟩ := indexed.anchored scope outer opened
    have resolved := resolved_of_resolveFrom indexed scope outer ends inside ran
    refine ⟨resolved.indexed, ?_⟩
    by_cases fresh : binding.number = slots.made.size
    · rw [if_pos fresh]
      intro other wanted number address entry
      simp only [Lexicon.record, Lexicon.insert] at entry
      split at entry
      · rename_i same
        obtain ⟨rfl, rfl⟩ := same
        cases entry
        obtain ⟨origin, row⟩ := resolved.fresh fresh
        exact ⟨resolved.made, origin ▸ row rfl⟩
      · exact lists.grow resolved.grows other wanted number address entry
    · rw [if_neg fresh]
      exact lists.grow resolved.grows
  | acquire =>
    obtain ⟨address, behind, acquires, rest⟩ := bind_eq_ok_iff.mp granted
    cases rest
    obtain ⟨_, rfl⟩ := of_acquire_eq_ok acquires
    exact ⟨indexed.occupy address, lists⟩
  | release address =>
    cases granted
    exact ⟨indexed.release address, lists⟩

theorem granted_cons (slots : Slots) (request : SlotRequest) (requests : List SlotRequest) :
    slots.granted (request :: requests) =
      (slots.after request).granted requests ++ (slots.answer request).toOption.toList := by
  cases replied : (slots.answer request).toOption <;> simp [granted, answers, replied]

/-- After any requests the tables agree, and list every variable that the replies tell to be
bound. -/
theorem indexed_performAll {slots : Slots} {past : List SlotReply} (indexed : slots.Indexed)
    (lists : slots.Lists (Lexicon.told past)) (requests : List SlotRequest) :
    (slots.performAll requests).Indexed ∧
      (slots.performAll requests).Lists (Lexicon.told (slots.granted requests ++ past)) := by
  induction requests generalizing slots past with
  | nil => exact ⟨indexed, lists⟩
  | cons request requests ih =>
    rw [granted_cons, List.append_assoc]
    cases ran : request.perform slots with
    | ok reply behind =>
      have replied : slots.answer request = .ok reply := by simp [answer, ran]
      have led : slots.after request = behind := by simp [after, ran]
      obtain ⟨stillIndexed, stillLists⟩ := indexed.perform lists ran
      rw [replied]
      exact ih (led ▸ stillIndexed) (led ▸ stillLists)
    | error error behind =>
      have refused : slots.answer request = .error error := by simp [answer, ran]
      have same : slots.after request = slots := after_of_refused refused
      rw [refused, performAll, List.foldl_cons, same]
      exact ih indexed lists

/-- Whatever was asked of an allocator before, a refused request leaves it as it is, and later
requests are answered as if the refused one had not been made. A name that is bound for a scope or
for one around it is never refused: it is found among the variables. -/
theorem refused_request_leaves_no_trace {first last screen : Word} {requests : List SlotRequest}
    {slots : Slots} (reached : (new first last screen).performAll requests = slots) :
    (∀ (request : SlotRequest) error after, request.perform slots = .error error after →
      after = slots ∧ ∀ later, slots.answers (request :: later) = .error error :: slots.answers later) ∧
    ∀ name scope path entry, slots.path? scope = some path →
      (Lexicon.told ((new first last screen).granted requests)).nearest path name = some entry →
      ∃ binding after, (SlotRequest.resolve name scope).perform slots = .ok (.found binding) after ∧
        binding.name = name := by
  refine ⟨?_, ?_⟩
  · intro request error after refused
    have answered : slots.answer request = .error error := by simp [answer, refused]
    refine ⟨traceless_perform request slots error after refused, fun later => ?_⟩
    rw [answers, answered, after_of_refused answered]
  · intro name scope path entry opened nearest
    have unlisted : (new first last screen).Lists (Lexicon.told []) := by
      intro _ _ _ _ entry
      cases entry
    obtain ⟨indexed, lists⟩ := indexed_performAll (Indexed.new first last screen) unlisted requests
    rw [reached, List.append_nil] at lists
    rw [reached] at indexed
    obtain ⟨outer, around, rfl⟩ := Option.map_eq_some_iff.mp opened
    obtain ⟨holder, member, entry⟩ := List.exists_of_findSome?_eq_some nearest
    obtain ⟨made, row⟩ := lists holder name _ _ entry
    have answered : (slots.candidate? name holder scope).isSome := candidate?_isSome made row scope
    obtain ⟨binding, after, resolved, found, sameName⟩ :=
      resolveFrom_finds indexed scope outer ⟨holder, member, answered⟩
    have old : binding.number ≠ slots.made.size := Nat.ne_of_lt (Array.getElem?_eq_some_iff.mp found).1
    exact ⟨binding, after, by
      simp [SlotRequest.perform, bind_apply, map_apply, resolve_eq around, resolved, old], sameName⟩

/-- The address of a variable is released although it is not held, then taken twice over; no address
is left for another name, and the variable is found from an inner scope. -/
theorem refused_request_leaves_no_trace_after_stray_release :
    let requests : List SlotRequest := [.resolve "x" 0, .openChild 0, .release 0x2000, .acquire]
    let slots := (new 0x2000 0x2000 0x8000).performAll requests
    (SlotRequest.resolve "y" 1).perform slots = .error .memoryExhausted slots ∧
      slots.answers [.resolve "y" 1, .close 1] = .error .memoryExhausted :: slots.answers [.close 1] ∧
      ∃ binding after, (SlotRequest.resolve "x" 1).perform slots = .ok (.found binding) after ∧
        binding.name = "x" := by
  intro requests slots
  have refused : (SlotRequest.resolve "y" 1).perform slots = .error .memoryExhausted slots := rfl
  obtain ⟨unchanged, found⟩ :=
    refused_request_leaves_no_trace (show (new 0x2000 0x2000 0x8000).performAll requests = slots from rfl)
  exact ⟨refused, (unchanged _ _ _ refused).2 [.close 1], found "x" 1 [1, 0] (0, 0x2000) rfl rfl⟩

end Dcpu.Slots
