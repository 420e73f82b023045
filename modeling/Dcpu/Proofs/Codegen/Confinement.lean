import Dcpu.Proofs.Codegen.Accounts
import Dcpu.Proofs.Codegen.Relocation

/-! # Code stays within its memory

The code of a program names addresses of the range of variables and the address of the screen, and no
others. It writes to named addresses of the range only; any other write goes to an address that was computed.
The address of the screen comes from nowhere but the screen's own name: the lines with this address are, one
for one, those of the names of the screen in the program.
-/

namespace Dcpu

open Source Effects Gen

def Settings.Has (settings : Settings) (address : Word) : Prop :=
  settings.first ≤ address ∧ address ≤ settings.last

namespace Slots

/-- The allocator has the range and the screen of the settings, and all variables are in the range. -/
structure Within (settings : Settings) (slots : Slots) : Prop where
  first : slots.first = settings.first
  last : slots.last = settings.last
  screen : slots.screen = settings.screen
  made : ∀ binding ∈ slots.made, settings.Has binding.address

variable {settings : Settings} {slots after : Slots}

theorem within_new (settings : Settings) :
    (new settings.first settings.last settings.screen).Within settings :=
  ⟨rfl, rfl, rfl, by simp [new]⟩

namespace Within

theorem free (within : slots.Within settings) {address : Word} (free : slots.free? = some address) :
    settings.Has address := by
  have low := le_firstGap slots.first.toNat slots.occupied
  simp only [free?, Option.ite_none_right_eq_some, Option.some.injEq] at free
  obtain ⟨high, rfl⟩ := free
  have value := UInt16.toNat_ofNat_of_lt' (Nat.lt_of_le_of_lt high slots.last.toNat_lt)
  rw [Settings.Has, ← within.first, ← within.last, UInt16.le_iff_toNat_le, UInt16.le_iff_toNat_le, value]
  exact ⟨low, high⟩

theorem bind (within : slots.Within settings) {binding : Binding} (has : settings.Has binding.address)
    (scope : ScopeId) : (slots.bind scope binding).Within settings := by
  refine ⟨within.first, within.last, within.screen, ?_⟩
  intro other member
  obtain member | rfl := Array.mem_push.mp member
  · exact within.made other member
  · exact has

/-- The address of a name that is looked up from a scope lies in the range, whether the name is found or made. -/
theorem resolveFrom (within : slots.Within settings) {name : String} {origin scope : ScopeId}
    {outer : List ScopeId} {binding : Binding}
    (resolved : Slots.resolveFrom name origin scope outer slots = .ok binding after) :
    after.Within settings ∧ settings.Has binding.address := by
  induction outer generalizing scope binding after with
  | nil =>
    obtain ⟨seen, rfl⟩ | ⟨address, free, rfl, rfl⟩ := of_resolveFrom_nil_eq_ok resolved
    · exact ⟨within, within.made _ (mem_made_of_candidate? seen)⟩
    · have occupied : (slots.occupy address).Within settings :=
        ⟨within.first, within.last, within.screen, within.made⟩
      exact ⟨occupied.bind (within.free free) scope, within.free free⟩
  | cons parent outer ih =>
    obtain ⟨seen, rfl⟩ | ⟨middle, inner, rfl⟩ := of_resolveFrom_cons_eq_ok resolved
    · exact ⟨within, within.made _ (mem_made_of_candidate? seen)⟩
    · obtain ⟨still, has⟩ := ih inner
      split
      · exact ⟨⟨still.first, still.last, still.screen, still.made⟩, has⟩
      · exact ⟨still, has⟩

theorem resolve (within : slots.Within settings) {name : String} {scope : ScopeId} {binding : Binding}
    (resolved : Slots.resolve name scope slots = .ok binding after) :
    after.Within settings ∧ settings.Has binding.address := by
  obtain ⟨outer, _, ran⟩ := of_resolve_eq_ok resolved
  exact within.resolveFrom ran

theorem openChild (within : slots.Within settings) {parent scope : ScopeId}
    (opens : Slots.openChild parent slots = .ok scope after) : after.Within settings := by
  obtain ⟨_, _, _, rfl⟩ := of_openChild_eq_ok opens
  exact ⟨within.first, within.last, within.screen, within.made⟩

theorem close (within : slots.Within settings) {scope : ScopeId}
    (closes : Slots.close scope slots = .ok () after) : after.Within settings := by
  obtain ⟨tables, _, _, rfl⟩ := of_close_eq_ok closes
  obtain ⟨first, last, screen⟩ := Consistent.bounds_closed slots scope tables
  exact ⟨first.trans within.first, last.trans within.last, screen.trans within.screen,
    (Consistent.made_closed slots scope tables).symm ▸ within.made⟩

end Within

end Slots

/-- Whether the only write that a line makes to an address in a register is that of a word in memory to the
address in register `a`. -/
def Line.storesFromMemory : Line → Bool
  | .instruction (.basic .set (.indirect .a) (.memory _)) => true
  | .instruction (.basic _ (.indirect _) _) => false
  | _ => true

/-- A store through a register copies a slot to where register A points. -/
theorem Line.of_storesFromMemory {op : Opcode} {register : Register} {source : Operand}
    (stores : (Line.instruction (.basic op (.indirect register) source)).storesFromMemory = true) :
    op = .set ∧ register = .a ∧ ∃ slot, source = .memory slot := by
  rw [storesFromMemory.eq_def] at stores
  split at stores
  · rename_i slot same
    cases same
    exact ⟨rfl, rfl, slot, rfl⟩
  · cases stores
  · rename_i others
    exact absurd rfl (others op register source)

/-- A line that names addresses of the range of variables only. -/
structure Line.Tame (settings : Settings) (line : Line) : Prop where
  places : ∀ place ∈ line.places, settings.Has place
  stores : line.storesFromMemory = true

/-- The address of a name: that of the screen, or one of the range. -/
def Settings.Places (settings : Settings) (name : String) (address : Word) : Prop :=
  if Slots.isScreen name then address = settings.screen else settings.Has address

/-- Code with a line for each of the given names, in their order, among lines that name addresses of the range
only. -/
inductive Listing.Confined (settings : Settings) : List Mention → Listing → Prop where
  | nil : Confined settings [] []
  | tame {line mentions code} : line.Tame settings → Confined settings mentions code →
      Confined settings mentions (line :: code)
  | named {mention address mentions code} : settings.Places mention.name address →
      Confined settings mentions code →
      Confined settings (mention :: mentions) (.set .a (mention.want.operand address) :: code)

namespace Listing.Confined

variable {settings : Settings} {mentions more : List Mention} {code rest : Listing}

theorem append (confined : Confined settings mentions code) (behind : Confined settings more rest) :
    Confined settings (mentions ++ more) (code ++ rest) := by
  induction confined with
  | nil => exact behind
  | tame isTame _ ih => exact .tame isTame ih
  | named isPlaced _ ih => exact .named isPlaced ih

/-- Every line is of a name or names addresses of the range only. -/
theorem mem (confined : Confined settings mentions code) {line : Line} (member : line ∈ code) :
    line.Tame settings ∨ ∃ mention ∈ mentions, ∃ address, settings.Places mention.name address ∧
      line = .set .a (mention.want.operand address) := by
  induction confined with
  | nil => cases member
  | tame isTame _ ih =>
    obtain rfl | member := List.mem_cons.mp member
    · exact .inl isTame
    · exact ih member
  | named isPlaced _ ih =>
    obtain rfl | member := List.mem_cons.mp member
    · exact .inr ⟨_, List.mem_cons_self .., _, isPlaced, rfl⟩
    · obtain isTame | ⟨mention, isMention, found⟩ := ih member
      · exact .inl isTame
      · exact .inr ⟨mention, List.mem_cons_of_mem _ isMention, found⟩

/-- The lines with the address of the screen are those of the screen's names. -/
theorem screens (confined : Confined settings mentions code) (outside : ¬ settings.Has settings.screen) :
    code.filter (·.places.contains settings.screen) =
      (mentions.filter (Slots.isScreen ·.name)).map
        fun mention => .set .a (mention.want.operand settings.screen) := by
  induction confined with
  | nil => rfl
  | @tame line _ _ isTame _ ih =>
    have elsewhere : ¬ line.places.contains settings.screen := by
      simpa using fun member => outside (isTame.places _ member)
    rw [List.filter_cons, if_neg elsewhere, ih]
  | @named mention address _ _ isPlaced _ ih =>
    have places : (Line.set .a (mention.want.operand address)).places = [address] := by
      cases mention.want <;> rfl
    rw [List.filter_cons, List.filter_cons, places]
    rw [Settings.Places] at isPlaced
    split at isPlaced
    · rename_i screen
      subst isPlaced
      rw [if_pos (by simp), if_pos screen, List.map_cons, ih]
    · rename_i ordinary
      have elsewhere : address ≠ settings.screen := by
        rintro rfl
        exact outside isPlaced
      rw [if_neg (by simpa using elsewhere.symm), if_neg ordinary, ih]

end Listing.Confined

namespace Gen

variable {settings : Settings} {α β : Type} {mentions more : List Mention}

/-- Steps that succeed keep the allocator within its range, and emit a line for each of the given names among
lines that name addresses of the range only. -/
def Confines (settings : Settings) (mentions : List Mention) (steps : Gen α) : Prop :=
  ∀ ⦃state value after⦄, state.context.slots.Within settings → steps state = .ok value after →
    after.context.slots.Within settings ∧
      ∃ code, after.listing = state.listing ++ code ∧ Listing.Confined settings mentions code

/-- Steps that leave the allocator and the listing alone are confined, and mention no names. -/
theorem confines_silent {steps : Gen α} (silent : ∀ ⦃state value after⦄, steps state = .ok value after →
    after.context.slots = state.context.slots ∧ after.listing = state.listing) :
    Confines settings [] steps := by
  intro state value after within ran
  obtain ⟨slots, listing⟩ := silent ran
  exact ⟨slots ▸ within, [], by simp [listing], .nil⟩

theorem confines_pure (value : α) : Confines settings [] (pure value : Gen α) :=
  confines_silent fun _ _ _ ran => by
    cases ran
    exact ⟨rfl, rfl⟩

theorem confines_get : Confines settings [] (get : Gen Emission) :=
  confines_silent fun _ _ _ ran => by
    cases ran
    exact ⟨rfl, rfl⟩

theorem confines_nextTag (stem : String) : Confines settings [] (nextTag stem) :=
  confines_silent fun _ _ _ ran => by
    cases ran
    exact ⟨rfl, rfl⟩

theorem confines_record {event : Event} (silent : event.line? = none) : Confines settings [] (record event) :=
  confines_silent fun state _ _ ran => by
    cases ran
    exact ⟨rfl, (state.listing_noted event).trans (by simp [silent])⟩

theorem confines_throw (error : CompileError) : Confines settings mentions (throw error : Gen α) := by
  intro state value after _ ran
  cases ran

theorem confines_emit {line : Line} (tame : line.Tame settings) : Confines settings [] (emit line) := by
  intro state value after within ran
  cases ran
  exact ⟨within, [line], state.listing_noted _, .tame tame .nil⟩

/-- Code of two steps has the lines of the first and then those of the second. -/
theorem confines_bind {first : Gen α} {next : α → Gen β} (confines : Confines settings mentions first)
    (behind : ∀ value, Confines settings more (next value)) :
    Confines settings (mentions ++ more) (first >>= next) := by
  intro state result after within ran
  obtain ⟨value, middle, ranFirst, ranNext⟩ := bind_eq_ok_iff.mp ran
  obtain ⟨within, code, emitted, confined⟩ := confines within ranFirst
  obtain ⟨within, rest, emittedNext, confinedNext⟩ := behind value within ranNext
  exact ⟨within, code ++ rest, by rw [emittedNext, emitted, List.append_assoc],
    confined.append confinedNext⟩

/-- A sequence whose first part has no names. -/
theorem confines_then {first : Gen α} {next : α → Gen β} (confines : Confines settings [] first)
    (behind : ∀ value, Confines settings mentions (next value)) :
    Confines settings mentions (first >>= next) :=
  confines_bind confines behind

/-- A sequence whose second part has no names. -/
theorem confines_before {first : Gen α} {next : α → Gen β} (confines : Confines settings mentions first)
    (behind : ∀ value, Confines settings [] (next value)) :
    Confines settings mentions (first >>= next) := by
  have both := confines_bind confines behind
  rwa [List.append_nil] at both

/-- A slot for an intermediate result is in the range. -/
theorem confines_withScratch {position : Position} {body : Word → Gen Unit}
    (confines : ∀ slot, settings.Has slot → Confines settings mentions (body slot)) :
    Confines settings mentions (withScratch position body) := by
  intro state value after within ran
  obtain ⟨slot, middle, free, bodyRan, rfl⟩ := withScratch_eq_ok_iff.mp ran
  have held : (state.holding slot).context.slots.Within settings :=
    ⟨within.first, within.last, within.screen, within.made⟩
  obtain ⟨within, code, emitted, confined⟩ := confines slot (within.free free) held bodyRan
  exact ⟨⟨within.first, within.last, within.screen, within.made⟩, code, by simpa using emitted, confined⟩

theorem confines_inScope {parent : ScopeId} {position : Position} {body : ScopeId → Gen Unit}
    (confines : ∀ scope, Confines settings mentions (body scope)) :
    Confines settings mentions (inScope parent position body) := by
  intro state value after within ran
  obtain ⟨scope, slots, middle, behind, opens, bodyRan, closes, rfl⟩ := inScope_eq_ok_iff.mp ran
  have opened : ((state.withSlots slots).noted (.opened scope parent)).context.slots.Within settings :=
    within.openChild opens
  obtain ⟨within, code, emitted, confined⟩ := confines scope opened bodyRan
  refine ⟨within.close closes, code, ?_, confined⟩
  simpa [Emission.listing_noted, Event.line?] using emitted

/-- The line of a name has the address of the screen exactly when the name is the screen's. -/
theorem confines_access (want : Want) (name : String) (scope : ScopeId) (position : Position) :
    Confines settings [⟨want, name⟩] (access want name scope position) := by
  intro state value after within ran
  obtain ⟨address, middle, found, ran⟩ := bind_eq_ok_iff.mp ran
  cases ran
  have placed : middle.context.slots.Within settings ∧ middle.listing = state.listing ∧
      settings.Places name address := by
    rw [Settings.Places]
    obtain ⟨screen, rfl, rfl⟩ | ⟨plain, binding, slots, resolved, rfl, same⟩ := addressOf_eq_ok found
    · exact ⟨within, rfl, by rw [if_pos screen, within.screen]⟩
    · obtain ⟨still, has⟩ := within.resolve resolved
      rw [if_neg (by simp [plain])]
      obtain rfl | rfl := same
      · exact ⟨still, rfl, has⟩
      · exact ⟨still, ((state.withSlots slots).listing_noted _).trans (List.append_nil _), has⟩
  obtain ⟨still, listing, placed⟩ := placed
  refine ⟨still, [.set .a (want.operand address)], ?_, .named placed .nil⟩
  rw [← listing]
  exact middle.listing_noted _

end Gen

/-- A plain line names its slots only, and stores the word of one. -/
theorem Line.tame_of_isPlain {settings : Settings} {line : Line} {slots : List Word}
    (isPlain : line.isPlain slots.length = true) (has : ∀ slot ∈ slots, settings.Has slot) :
    (line.readdressed (Plan.slotAt slots)).Tame settings := by
  refine ⟨fun place member => has place (Line.places_of_isPlain isPlain place member), ?_⟩
  obtain ⟨op, b, a, rfl, plainB, _, stores⟩ := Line.of_isPlain isPlain
  cases b with
  | indirect register =>
    cases register with
    | a =>
      obtain ⟨rfl, number, rfl⟩ := stores rfl
      rfl
    | _ => cases plainB
  | _ => cases op <;> rfl

section Trees

variable {settings : Settings} (routines : List String)

private theorem callCode_confines (name : String) (position : Position) :
    Confines settings [] (callCode routines name position) := by
  rw [callCode]
  split
  · exact confines_emit ⟨by simp, rfl⟩
  · split
    · apply confines_then confines_get
      intro state
      dsimp only
      split
      · exact confines_then (confines_record rfl) fun _ => confines_emit ⟨by simp, rfl⟩
      · exact confines_emit ⟨by simp, rfl⟩
    · exact confines_throw _

/-- A plan with slots of the range stays within the range and has a line for each of its names. -/
theorem Plan.confines {slots : List Word} {plan : Plan} (scope : ScopeId) (tag : String)
    (isPlain : plan.isPlain slots.length = true) (has : ∀ slot ∈ slots, settings.Has slot) :
    Confines settings plan.mentions (plan.code routines scope slots tag) := by
  induction plan generalizing slots scope tag with
  | nothing => exact confines_pure _
  | noAddress | unsupported => exact confines_throw _
  | plain line => exact confines_emit (Line.tame_of_isPlain isPlain has)
  | jump | label | ret => exact confines_emit ⟨by simp, rfl⟩
  | connective => exact confines_record rfl
  | entry name position => exact confines_then (confines_record rfl) fun _ => confines_emit ⟨by simp, rfl⟩
  | access want name position => exact confines_access want name scope position
  | call name position => exact callCode_confines routines name position
  | both first second firstConfines secondConfines =>
    obtain ⟨firstPlain, secondPlain⟩ := Bool.and_eq_true_iff.mp isPlain
    exact confines_bind (firstConfines scope tag firstPlain has) fun _ =>
      secondConfines scope tag secondPlain has
  | keeping position body confines =>
    apply confines_withScratch
    intro slot hasSlot
    exact confines scope tag isPlain (List.forall_mem_cons.mpr ⟨hasSlot, has⟩)
  | inside position body confines =>
    apply confines_inScope
    intro inner
    exact confines inner tag isPlain has
  | tagged stem body confines =>
    apply confines_then (confines_nextTag stem)
    intro drawn
    exact confines scope drawn isPlain has

/-- The code of a block stays within the range and has a line for each name. -/
theorem blockCode_confines (scope : ScopeId) (statements : List Stmt) :
    Confines settings (mentionsIn statements) (blockCode routines scope statements) := by
  rw [← code_blockPlan routines scope [] "", ← mentions_blockPlan]
  exact Plan.confines routines scope "" (isPlain_blockPlan 0 statements) (List.forall_mem_nil _)

theorem registerRoutines_confines (known : List String) (definitions : List (String × Position)) :
    Confines settings [] (registerRoutines known definitions) := by
  induction definitions generalizing known with
  | nil => exact confines_pure _
  | cons definition definitions ih =>
    obtain ⟨name, position⟩ := definition
    have rest : Confines settings [] (if known.contains name then do
        record (.redefined name position)
        registerRoutines known definitions
      else registerRoutines (known ++ [name]) definitions) := by
      split
      · exact confines_then (confines_record rfl) fun _ => ih known
      · exact ih (known ++ [name])
    simp only [registerRoutines]
    split
    · exact confines_then (confines_throw _) fun _ => rest
    · exact rest

end Trees

/-- A program has a line for each name it mentions, among lines that name addresses of the range only. -/
theorem programCode_confines {settings : Settings} (haltLoop : Bool) (program : Program) :
    Confines settings (mentionsIn program) (programCode haltLoop program) := by
  apply confines_then (registerRoutines_confines _ _)
  intro routines
  apply confines_then (confines_record rfl)
  intro _
  apply confines_before (blockCode_confines routines 0 program)
  intro _
  split
  · apply confines_then (confines_record rfl)
    intro _
    exact confines_then (confines_emit ⟨by simp, rfl⟩) fun _ => confines_emit ⟨by simp, rfl⟩
  · exact confines_pure _

/-- Code names only addresses of the range of variables and the screen. An instruction with a named address as
its destination has one of the range, and one with an address in a register is a store of a word of the
range. The lines with the address of the screen are those of the names of the screen, each in its place. -/
theorem compiled_code_is_confined {settings : Settings} {program : Program} {listing : Listing}
    (compiled : (compileProgram settings program).result = .ok listing) :
    (∀ line ∈ listing, ∀ place ∈ line.places,
      (settings.first ≤ place ∧ place ≤ settings.last) ∨ place = settings.screen) ∧
    (∀ op place source, .instruction (.basic op (.memory place) source) ∈ listing →
      (settings.first ≤ place ∧ place ≤ settings.last) ∧ place ≠ settings.screen) ∧
    (∀ op register source, .instruction (.basic op (.indirect register) source) ∈ listing →
      op = .set ∧ register = .a ∧
        ∃ slot, source = .memory slot ∧ settings.first ≤ slot ∧ slot ≤ settings.last) ∧
    listing.filter (·.places.contains settings.screen) =
      ((mentionsIn program).filter (Slots.isScreen ·.name)).map
        fun mention => .set .a (mention.want.operand settings.screen) := by
  have outside : ¬ settings.Has settings.screen := by
    cases valid : settings.validate with
    | error error => simp [compileProgram, valid] at compiled
    | ok => exact (Settings.validate_eq_ok_iff.mp valid).2
  obtain ⟨after, ran, rfl, _⟩ := compileProgram_eq_ok compiled
  obtain ⟨_, code, emitted, confined⟩ :=
    programCode_confines settings.haltLoop program (Slots.within_new settings) ran
  obtain rfl : after.listing = code := emitted
  refine ⟨?_, ?_, ?_, confined.screens outside⟩
  · intro line member place isPlace
    obtain isTame | ⟨mention, _, address, isPlaced, rfl⟩ := confined.mem member
    · exact .inl (isTame.places place isPlace)
    · obtain rfl : address = place := by simpa using isPlace
      rw [Settings.Places] at isPlaced
      split at isPlaced
      · exact .inr isPlaced
      · exact .inl isPlaced
  · intro op place source member
    obtain isTame | ⟨mention, _, address, _, impossible⟩ := confined.mem member
    · have has : settings.Has place := isTame.places place (by simp [Line.places, Instruction.operands])
      exact ⟨has, fun screen => outside (screen ▸ has)⟩
    · cases impossible
  · intro op register source member
    obtain ⟨places, stores⟩ | ⟨mention, _, address, _, impossible⟩ := confined.mem member
    · obtain ⟨rfl, rfl, slot, rfl⟩ := Line.of_storesFromMemory stores
      exact ⟨rfl, rfl, slot, rfl, places slot (by simp [Line.places, Instruction.operands])⟩
    · cases impossible

/-- A program that reads the screen under one spelling of its name and writes it under another. -/
def screenCopy : Program :=
  [.assign ⟨1, 11⟩ [.index ⟨1, 7⟩ (.name ⟨1, 1⟩ "screen") (.name ⟨1, 8⟩ "x")] (.name ⟨1, 13⟩ "SCREEN")]

theorem compiled_code_is_confined_screenCopy : ∃ listing,
    (compileProgram {} screenCopy).result = .ok listing ∧
      listing.filter (·.places.contains 0x8000) = [.set .a (.memory 0x8000), .set .a (.address 0x8000)] ∧
      .set .atA (.memory 0x2000) ∈ listing ∧ .set (.memory 0x2002) .a ∈ listing ∧
      ∀ line ∈ listing, ∀ place ∈ line.places,
        ((0x2000 : Word) ≤ place ∧ place ≤ 0x7000) ∨ place = 0x8000 := by
  have compiled : (compileProgram {} screenCopy).result =
      .ok [.set .a (.memory 0x8000), .set (.memory 0x2000) .a, .set .a (.memory 0x2001),
        .set (.memory 0x2002) .a, .set .a (.address 0x8000), .basic .add .a (.memory 0x2002),
        .set .atA (.memory 0x2000), .label "end", .jump "end"] := by decide +kernel
  obtain ⟨places, _, _, screens⟩ := compiled_code_is_confined compiled
  exact ⟨_, compiled, screens.trans (by decide), by decide, by decide, places⟩

end Dcpu
