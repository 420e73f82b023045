import Dcpu.Codegen.Event
import Dcpu.Machine.Image
import Dcpu.Proofs.Codegen.Mentions
import Dcpu.Slots.Basic
import Mathlib.Data.List.Nodup
import Mathlib.Tactic.Common

/-! # What the trail of a compilation says about addresses

The events of a compilation tell at every moment which scopes are open, which slots are held for
intermediate results and which variables are live. A ledger keeps account of this. As long as events
are permitted by the ledger they are entered into, no address has two holders, a variable keeps its address
until its scope is closed, and the addresses in a line are slots that are held, or one address that stands for
a name.
-/

namespace Dcpu

def Operand.place? : Operand → Option Word
  | .memory word => some word
  | .address word => some word
  | _ => none

def Line.places : Line → List Word
  | .label _ => []
  | .instruction body => body.operands.filterMap Operand.place?

@[simp] theorem Line.places_label (name : String) : (Line.label name).places = [] := rfl

@[simp] theorem Line.places_basic (op : Opcode) (b a : Operand) :
    (Line.basic op b a).places = [b, a].filterMap Operand.place? := rfl

@[simp] theorem Line.places_set (b a : Operand) :
    (Line.set b a).places = [b, a].filterMap Operand.place? := rfl

@[simp] theorem Line.places_jump (name : String) : (Line.jump name).places = [] := rfl

@[simp] theorem Line.places_jsr (name : String) : (Line.jsr name).places = [] := rfl

@[simp] theorem Line.places_ret : Line.ret.places = [] := rfl

@[simp] theorem Operand.place?_memory (word : Word) : (Operand.memory word).place? = some word := rfl

@[simp] theorem Operand.place?_a : Operand.a.place? = none := rfl

@[simp] theorem Operand.place?_atA : Operand.atA.place? = none := rfl

@[simp] theorem Operand.place?_literal (word : Word) : (Operand.literal word).place? = none := rfl

@[simp] theorem Want.place?_operand (want : Want) (word : Word) : (want.operand word).place? = some word := by
  cases want <;> rfl

/-- What an address is in use for: an intermediate result, or the variable of a number. -/
inductive Holder where
  | intermediate
  | bound (number : Nat)
deriving DecidableEq, Repr

/-- The account of a trail: the range of variables and the address of the screen, the open scopes from
the innermost outwards, the number of scopes opened so far, the slots held for intermediate results,
the live variables, and the number of variables made so far. -/
structure Ledger where
  first : Word
  last : Word
  screen : Word
  path : List ScopeId
  scopes : Nat
  held : List Word
  live : List Binding
  made : Nat
deriving DecidableEq, Repr

/-- A line loads the value or the address of a variable for one of the given names. The name is that of the
variable, or that of the screen if the screen has the address of the variable. -/
def Binding.NamedBy (binding : Binding) (screen : Word) (mentions : List Mention) (line : Line) : Prop :=
  ∃ mention ∈ mentions,
    (mention.name = binding.name ∨ Slots.isScreen mention.name = true ∧ binding.address = screen) ∧
    line = .set .a (mention.want.operand binding.address)

namespace Ledger

def addresses (ledger : Ledger) : List Word :=
  ledger.held ++ ledger.live.map Binding.address

def holder? (ledger : Ledger) (address : Word) : Option Holder :=
  if address ∈ ledger.held then some .intermediate
  else (ledger.live.find? (·.address = address)).map (.bound ·.number)

/-- An address of the range is not in use. -/
def IsFree (ledger : Ledger) (address : Word) : Prop :=
  (ledger.first ≤ address ∧ address ≤ ledger.last) ∧ address ∉ ledger.addresses

def note (ledger : Ledger) : Event → Ledger
  | .opened scope _ => { ledger with path := scope :: ledger.path, scopes := ledger.scopes + 1 }
  | .closed scope =>
    { ledger with path := ledger.path.tail, live := ledger.live.filter (·.origin ≠ scope) }
  | .acquired address => { ledger with held := address :: ledger.held }
  | .released address => { ledger with held := ledger.held.erase address }
  | .bound name address origin =>
    { ledger with
      live := ⟨ledger.made, name, address, origin⟩ :: ledger.live
      made := ledger.made + 1 }
  | _ => ledger

def replay (ledger : Ledger) (events : List Event) : Ledger :=
  events.foldl note ledger

/-- What the addresses in a line stand for, where the given names may occur: for slots that are held, or in the
line of a name for the screen or for a live variable of that name. -/
inductive Explains (ledger : Ledger) (mentions : List Mention) : Line → Prop where
  | slots {line : Line} : (∀ address ∈ line.places, address ∈ ledger.held) → ledger.Explains mentions line
  | screen {mention : Mention} : mention ∈ mentions → Slots.isScreen mention.name = true →
      ledger.Explains mentions (.set .a (mention.want.operand ledger.screen))
  | bound {mention : Mention} {binding : Binding} : mention ∈ mentions →
      Slots.isScreen mention.name = false → binding ∈ ledger.live → binding.name = mention.name →
      ledger.Explains mentions (.set .a (mention.want.operand binding.address))

/-- What may happen: scopes are numbered in the order of their opening and closed from the innermost
outwards, addresses are free when they are taken, variables are made for the innermost scope, and
the addresses in lines stand for slots that are held or for names. -/
def Permits (ledger : Ledger) : Event → Prop
  | .opened scope parent => scope = ledger.scopes ∧ ∃ outer, ledger.path = parent :: outer
  | .closed scope => ∃ outer, ledger.path = scope :: outer
  | .acquired address => ledger.IsFree address
  | .released address => address ∈ ledger.held
  | .bound _ address origin => ledger.IsFree address ∧ ∃ outer, ledger.path = origin :: outer
  | .emitted line => ∃ mentions, ledger.Explains mentions line
  | _ => True

/-- All events may happen, one after the other. -/
def Lawful (ledger : Ledger) : List Event → Prop
  | [] => True
  | event :: events => ledger.Permits event ∧ (ledger.note event).Lawful events

@[simp] theorem replay_nil (ledger : Ledger) : ledger.replay [] = ledger := rfl

@[simp] theorem replay_cons (ledger : Ledger) (event : Event) (events : List Event) :
    ledger.replay (event :: events) = (ledger.note event).replay events := rfl

@[simp] theorem replay_append (ledger : Ledger) (events more : List Event) :
    ledger.replay (events ++ more) = (ledger.replay events).replay more :=
  List.foldl_append

/-- Events are lawful exactly when the first are, and the others are behind them. -/
theorem lawful_append {ledger : Ledger} {events more : List Event} :
    ledger.Lawful (events ++ more) ↔ ledger.Lawful events ∧ (ledger.replay events).Lawful more := by
  induction events generalizing ledger with
  | nil => simp [Lawful]
  | cons event events ih => simp [Lawful, ih, and_assoc]

/-- Every line stands for what the given names and the slots that are held account for. -/
def Spells (ledger : Ledger) (mentions : List Mention) : List Event → Prop
  | [] => True
  | event :: events => (∀ line ∈ event.line?, ledger.Explains mentions line) ∧
      (ledger.note event).Spells mentions events

section Spells

variable {ledger : Ledger} {mentions others : List Mention} {line : Line} {events more : List Event}

theorem Explains.mono (explains : ledger.Explains mentions line) (wider : mentions ⊆ others) :
    ledger.Explains others line := by
  cases explains with
  | slots held => exact .slots held
  | screen member isScreen => exact .screen (wider member) isScreen
  | bound member ordinary isLive named => exact .bound (wider member) ordinary isLive named

/-- The addresses in a line are in use, or that of the screen. -/
theorem Explains.mem_addresses (explains : ledger.Explains mentions line) {address : Word}
    (names : address ∈ line.places) : address = ledger.screen ∨ address ∈ ledger.addresses := by
  cases explains with
  | slots held => exact .inr (List.mem_append_left _ (held address names))
  | screen => exact .inl (by simpa [eq_comm] using names)
  | @bound _ binding _ _ isLive _ =>
    obtain rfl : binding.address = address := by simpa using names
    exact .inr (List.mem_append_right _ (List.mem_map_of_mem isLive))

/-- Events spell their lines exactly when the first do, and the others do behind them. -/
theorem spells_append :
    ledger.Spells mentions (events ++ more) ↔
      ledger.Spells mentions events ∧ (ledger.replay events).Spells mentions more := by
  induction events generalizing ledger with
  | nil => simp [Spells]
  | cons event events ih => simp [Spells, ih, and_assoc]

theorem Spells.mono (spells : ledger.Spells mentions events) (wider : mentions ⊆ others) :
    ledger.Spells others events := by
  induction events generalizing ledger with
  | nil => trivial
  | cons event events ih => exact ⟨fun line member => (spells.1 line member).mono wider, ih spells.2⟩

/-- Each line is explained by the ledger of its moment. -/
theorem Spells.explains {past : List Event} (spells : ledger.Spells mentions events)
    (moment : past ++ [.emitted line] <+: events) : (ledger.replay past).Explains mentions line := by
  obtain ⟨later, rfl⟩ := moment
  rw [List.append_assoc, spells_append] at spells
  exact spells.2.1 line rfl

end Spells

/-- No address has two holders and all are in the range, open scopes have higher numbers inwards, and
variables are told apart by their numbers and belong to open scopes. -/
structure Sound (ledger : Ledger) : Prop where
  apart : ledger.addresses.Nodup
  inside : ∀ address ∈ ledger.addresses, ledger.first ≤ address ∧ address ≤ ledger.last
  descending : ledger.path.Pairwise (· > ·)
  opened : ∀ scope ∈ ledger.path, scope < ledger.scopes
  enclosed : ∀ binding ∈ ledger.live, binding.origin ∈ ledger.path
  numbered : ∀ binding ∈ ledger.live, binding.number < ledger.made
  distinct : ∀ one ∈ ledger.live, ∀ other ∈ ledger.live, one.number = other.number → one = other

namespace Sound

variable {ledger : Ledger} {event : Event} {events : List Event}

private theorem note_opened (sound : ledger.Sound) {parent : ScopeId} :
    (ledger.note (.opened ledger.scopes parent)).Sound := by
  refine ⟨sound.apart, sound.inside, List.pairwise_cons.mpr ⟨sound.opened, sound.descending⟩, ?_, ?_,
    sound.numbered, sound.distinct⟩
  · intro scope member
    change scope < ledger.scopes + 1
    obtain rfl | member := List.mem_cons.mp member
    · exact Nat.lt_succ_self _
    · exact Nat.lt_succ_of_lt (sound.opened scope member)
  · intro binding member
    exact List.mem_cons_of_mem _ (sound.enclosed binding member)

private theorem note_closed (sound : ledger.Sound) {scope : ScopeId} {outer : List ScopeId}
    (path : ledger.path = scope :: outer) : (ledger.note (.closed scope)).Sound := by
  have tail : (ledger.note (.closed scope)).path = outer := by simp [note, path]
  have kept {binding : Binding} (member : binding ∈ (ledger.note (.closed scope)).live) :
      binding ∈ ledger.live ∧ binding.origin ≠ scope := by simpa [note] using member
  have descending := path ▸ sound.descending
  have fewer : (ledger.note (.closed scope)).addresses.Sublist ledger.addresses :=
    (List.Sublist.refl _).append (List.filter_sublist.map _)
  refine ⟨List.Nodup.sublist fewer sound.apart, ?_, ?_, ?_, ?_, ?_, ?_⟩
  · intro address member
    exact sound.inside address (fewer.subset member)
  · rw [tail]
    exact (List.pairwise_cons.mp descending).2
  · intro other member
    apply sound.opened other
    rw [path]
    exact List.mem_cons_of_mem _ (tail ▸ member)
  · intro binding member
    obtain ⟨isLive, elsewhere⟩ := kept member
    have enclosed := sound.enclosed binding isLive
    rw [path] at enclosed
    rw [tail]
    exact (List.mem_cons.mp enclosed).resolve_left elsewhere
  · intro binding member
    exact sound.numbered binding (kept member).1
  · intro one oneMember other otherMember
    exact sound.distinct one (kept oneMember).1 other (kept otherMember).1

/-- A sound ledger stays sound when a variable is made at a free address. -/
private theorem note_bound (sound : ledger.Sound) {name : String} {address : Word} {origin : ScopeId}
    {outer : List ScopeId} (free : ledger.IsFree address) (path : ledger.path = origin :: outer) :
    (ledger.note (.bound name address origin)).Sound := by
  have younger : ∀ binding ∈ ledger.live, binding.number ≠ ledger.made := fun binding member =>
    Nat.ne_of_lt (sound.numbered binding member)
  have swapped : (ledger.note (.bound name address origin)).addresses.Perm
      (address :: ledger.addresses) := List.perm_middle
  refine ⟨?_, ?_, sound.descending, sound.opened, ?_, ?_, ?_⟩
  · exact swapped.nodup_iff.mpr (List.nodup_cons.mpr ⟨free.2, sound.apart⟩)
  · intro other member
    obtain rfl | member := List.mem_cons.mp (swapped.subset member)
    · exact free.1
    · exact sound.inside other member
  · intro binding member
    obtain rfl | member := List.mem_cons.mp member
    · exact path.symm ▸ List.mem_cons_self ..
    · exact sound.enclosed binding member
  · intro binding member
    change binding.number < ledger.made + 1
    obtain rfl | member := List.mem_cons.mp member
    · exact Nat.lt_succ_self _
    · exact Nat.lt_succ_of_lt (sound.numbered binding member)
  · intro one oneMember other otherMember same
    obtain rfl | oneMember := List.mem_cons.mp oneMember
    · obtain rfl | otherMember := List.mem_cons.mp otherMember
      · rfl
      · exact absurd same.symm (younger other otherMember)
    · obtain rfl | otherMember := List.mem_cons.mp otherMember
      · exact absurd same (younger one oneMember)
      · exact sound.distinct one oneMember other otherMember same

/-- A permitted event leaves the ledger sound. -/
theorem note (sound : ledger.Sound) (permitted : ledger.Permits event) : (ledger.note event).Sound := by
  cases event with
  | opened scope parent =>
    obtain ⟨rfl, _⟩ := permitted
    exact sound.note_opened
  | closed scope =>
    obtain ⟨outer, path⟩ := permitted
    exact sound.note_closed path
  | acquired address =>
    refine ⟨List.nodup_cons.mpr ⟨permitted.2, sound.apart⟩, ?_, sound.descending, sound.opened,
      sound.enclosed, sound.numbered, sound.distinct⟩
    intro other member
    obtain rfl | member := List.mem_cons.mp member
    · exact permitted.1
    · exact sound.inside other member
  | released address =>
    have fewer : (ledger.note (.released address)).addresses.Sublist ledger.addresses :=
      List.erase_sublist.append (List.Sublist.refl _)
    exact ⟨List.Nodup.sublist fewer sound.apart, fun other member => sound.inside other (fewer.subset member),
      sound.descending, sound.opened, sound.enclosed, sound.numbered, sound.distinct⟩
  | bound name address origin =>
    obtain ⟨free, outer, path⟩ := permitted
    exact sound.note_bound free path
  | _ => exact sound

/-- Lawful events leave the ledger sound. -/
theorem replay (sound : ledger.Sound) (lawful : ledger.Lawful events) : (ledger.replay events).Sound := by
  induction events generalizing ledger with
  | nil => exact sound
  | cons event events ih => exact ih (sound.note lawful.1) lawful.2

/-- The address of a live variable is in use for the variable. -/
theorem holder?_live (sound : ledger.Sound) {binding : Binding} (member : binding ∈ ledger.live) :
    ledger.holder? binding.address = some (.bound binding.number) := by
  obtain ⟨_, once, disjoint⟩ := List.nodup_append.mp sound.apart
  have notHeld : binding.address ∉ ledger.held := fun held =>
    disjoint _ held _ (List.mem_map_of_mem member) rfl
  have found : ledger.live.find? (·.address = binding.address) = some binding := by
    cases search : ledger.live.find? (·.address = binding.address) with
    | none => simpa using List.find?_eq_none.mp search binding member
    | some other =>
      have same : other.address = binding.address := by simpa using List.find?_some search
      rw [List.inj_on_of_nodup_map once (List.mem_of_find?_eq_some search) member same]
  simp [holder?, notHeld, found]

/-- A line with the address of a live variable is that of the variable's name, and no slot's. -/
theorem namedBy_of_live (sound : ledger.Sound) {binding : Binding} (isLive : binding ∈ ledger.live)
    {mentions : List Mention} {line : Line} (explains : ledger.Explains mentions line)
    (names : binding.address ∈ line.places) : binding.NamedBy ledger.screen mentions line := by
  obtain ⟨_, once, disjoint⟩ := List.nodup_append.mp sound.apart
  cases explains with
  | slots held => exact absurd rfl (disjoint _ (held _ names) _ (List.mem_map_of_mem isLive))
  | @screen mention member isScreen =>
    have same : ledger.screen = binding.address := by simpa using names
    exact ⟨mention, member, .inr ⟨isScreen, same.symm⟩, same ▸ rfl⟩
  | @bound mention other member _ otherLive named =>
    have same : other.address = binding.address := by simpa using names
    obtain rfl := List.inj_on_of_nodup_map once otherLive isLive same
    exact ⟨mention, member, .inl named.symm, rfl⟩

end Sound

variable {ledger : Ledger} {events : List Event} {binding : Binding}

/-- The range and the screen stay. -/
theorem bounds_replay (ledger : Ledger) (events : List Event) :
    (ledger.replay events).first = ledger.first ∧ (ledger.replay events).last = ledger.last ∧
      (ledger.replay events).screen = ledger.screen := by
  induction events generalizing ledger with
  | nil => exact ⟨rfl, rfl, rfl⟩
  | cons event events ih =>
    rw [replay_cons]
    cases event <;> exact ih _

/-- A variable stays until its scope is closed. -/
theorem mem_live_replay (member : binding ∈ ledger.live) (isOpen : .closed binding.origin ∉ events) :
    binding ∈ (ledger.replay events).live := by
  induction events generalizing ledger with
  | nil => exact member
  | cons event events ih =>
    rw [List.mem_cons, not_or] at isOpen
    obtain ⟨otherEvent, isOpen⟩ := isOpen
    apply ih _ isOpen
    cases event with
    | closed scope =>
      have elsewhere : binding.origin ≠ scope := fun same => otherEvent (by rw [same])
      simpa [note, elsewhere] using member
    | bound name address origin => exact List.mem_cons_of_mem _ member
    | _ => exact member

/-- A variable that is live later was live before, or it was made in between and is younger. -/
theorem mem_live_of_replay (member : binding ∈ (ledger.replay events).live) :
    binding ∈ ledger.live ∨
      ledger.made ≤ binding.number ∧ .bound binding.name binding.address binding.origin ∈ events := by
  induction events generalizing ledger with
  | nil => exact .inl member
  | cons event events ih =>
    obtain isLive | ⟨younger, made⟩ := ih member
    · cases event with
      | closed scope => exact .inl (List.mem_of_mem_filter isLive)
      | bound name address origin =>
        obtain rfl | isLive := List.mem_cons.mp isLive
        · exact .inr ⟨Nat.le_refl _, List.mem_cons_self ..⟩
        · exact .inl isLive
      | _ => exact .inl isLive
    · refine .inr ⟨?_, List.mem_cons_of_mem _ made⟩
      cases event with
      | bound name address origin => exact Nat.le_of_succ_le younger
      | _ => exact younger

/-- A variable that is live later was live before if its scope got none in between. -/
theorem mem_live_of_unbound (member : binding ∈ (ledger.replay events).live)
    (unbound : ∀ name address, .bound name address binding.origin ∉ events) : binding ∈ ledger.live := by
  obtain isLive | ⟨_, made⟩ := mem_live_of_replay member
  · exact isLive
  · exact absurd made (unbound _ _)

/-- While a scope stays open, those around it stay open too and get no variables. -/
theorem Sound.untouched_around {extra outer : List ScopeId} {inner : ScopeId} (sound : ledger.Sound)
    (lawful : ledger.Lawful events) (path : ledger.path = extra ++ inner :: outer)
    (isOpen : .closed inner ∉ events) {scope : ScopeId} (around : scope ∈ outer) :
    .closed scope ∉ events ∧ ∀ name address, .bound name address scope ∉ events := by
  induction events generalizing ledger extra with
  | nil => simp
  | cons event events ih =>
    obtain ⟨permitted, lawful⟩ := lawful
    rw [List.mem_cons, not_or] at isOpen
    -- what lies inwards of the open scope has a higher number, so it is not the scope in question
    have below {other : ScopeId} {beyond : List ScopeId} (innermost : ledger.path = other :: beyond) :
        other ≠ scope := by
      have descending := innermost ▸ sound.descending
      cases extra with
      | nil =>
        cases path.symm.trans innermost
        exact Nat.ne_of_gt ((List.pairwise_cons.mp descending).1 scope around)
      | cons first extra =>
        cases path.symm.trans innermost
        exact Nat.ne_of_gt ((List.pairwise_cons.mp descending).1 scope (by simp [around]))
    have step : .closed scope ≠ event ∧ (∀ name address, .bound name address scope ≠ event) ∧
        ∃ extra, (ledger.note event).path = extra ++ inner :: outer := by
      cases event with
      | opened other parent => exact ⟨nofun, nofun, other :: extra, by simp [Ledger.note, path]⟩
      | closed other =>
        obtain ⟨beyond, innermost⟩ := permitted
        refine ⟨by simpa using (below innermost).symm, nofun, ?_⟩
        rw [path] at innermost
        cases extra with
        | nil =>
          cases innermost
          exact absurd rfl isOpen.1
        | cons first extra => exact ⟨extra, by simp [Ledger.note, path]⟩
      | bound name address origin =>
        obtain ⟨_, beyond, innermost⟩ := permitted
        have elsewhere := (below innermost).symm
        exact ⟨nofun, by simp [elsewhere], extra, path⟩
      | _ => exact ⟨nofun, nofun, extra, path⟩
    obtain ⟨notClosed, notBound, extra, path⟩ := step
    obtain ⟨staysOpen, getsNone⟩ := ih (sound.note permitted) lawful path isOpen.2
    refine ⟨?_, fun name address => ?_⟩
    · rw [List.mem_cons, not_or]
      exact ⟨notClosed, staysOpen⟩
    · rw [List.mem_cons, not_or]
      exact ⟨notBound name address, getsNone name address⟩

end Ledger

end Dcpu
