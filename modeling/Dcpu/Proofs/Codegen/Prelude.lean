import Dcpu.Proofs.Codegen.StatementMeaning

/-! # Giving numbers to variables first

A program may begin with assignments of numbers to its variables. Each of them may bind one more name
in the program's own scope, and the code of all statements behind them finds the names bound.
-/

namespace Dcpu

open Source Effects Gen

namespace Slots

/-- What is seen in the program's own scope is what is live there. -/
theorem Consistent.visible?_root {slots : Slots} {held : List Word} (consistent : slots.Consistent held)
    (name : String) : slots.visible? name 0 = slots.live 0 name := by
  simp [visible?_eq consistent.root]

/-- A later allocator may have one variable more, of the given name and of the program's own scope. -/
structure Admits (slots after : Slots) (name : String) : Prop where
  flat : after.Flat
  bounds : after.first = slots.first ∧ after.last = slots.last ∧ after.screen = slots.screen
  others : ∀ other, other ≠ name → after.visible? other 0 = slots.visible? other 0
  stays : ∀ other, (slots.visible? other 0).isSome → (after.visible? other 0).isSome

theorem Admits.refl {slots : Slots} (flat : slots.Flat) (name : String) : slots.Admits slots name :=
  ⟨flat, ⟨rfl, rfl, rfl⟩, fun _ _ => rfl, fun _ seen => seen⟩

/-- A new variable of the program's own scope is the only one more. -/
theorem admits_bound {slots : Slots} {held : List Word} (consistent : slots.Consistent held)
    (flat : slots.Flat) {name : String} {address : Word} (unseen : slots.live 0 name = none)
    (free : slots.free? = some address) :
    (slots.bound ⟨slots.made.size, name, address, 0⟩).Consistent held ∧
      slots.Admits (slots.bound ⟨slots.made.size, name, address, 0⟩) name ∧
      (slots.bound ⟨slots.made.size, name, address, 0⟩).visible? name 0 =
        some ⟨slots.made.size, name, address, 0⟩ := by
  let binding : Binding := ⟨slots.made.size, name, address, 0⟩
  have bound : (slots.bound binding).Consistent held :=
    consistent.bound consistent.size_pos rfl unseen free
  have live (other : Binding) : (slots.bound binding).Live other ↔ other = binding ∨ slots.Live other :=
    consistent.live_bound consistent.size_pos rfl
  have others : ∀ other, other ≠ name →
      (slots.bound binding).visible? other 0 = slots.visible? other 0 := by
    intro other different
    ext found
    rw [bound.visible?_root, consistent.visible?_root, bound.live_eq_some_iff,
      consistent.live_eq_some_iff, live]
    constructor
    · rintro ⟨rfl | isLive, origin, named⟩
      · exact absurd named.symm different
      · exact ⟨isLive, origin, named⟩
    · rintro ⟨isLive, rest⟩
      exact ⟨.inr isLive, rest⟩
  have seen : (slots.bound binding).visible? name 0 = some binding := by
    rw [bound.visible?_root, bound.live_eq_some_iff, live]
    exact ⟨.inl rfl, rfl, rfl⟩
  refine ⟨bound, ⟨?_, slots.bounds_bound binding, others, ?_⟩, seen⟩
  · intro other isLive
    rcases (live other).mp isLive with rfl | isLive
    · rfl
    · exact flat other isLive
  · intro other isSeen
    by_cases same : other = name
    · rw [same, seen]
      rfl
    · rwa [others other same]

end Slots

/-- Asking for the address of a name admits the name. -/
theorem addressOf_admits {name : String} {position : Position} {state after : Emission}
    {held : List Word} {address : Word} (ran : addressOf name 0 position state = .ok address after)
    (consistent : state.context.slots.Consistent held) (flat : state.context.slots.Flat) :
    after.context.slots.Consistent held ∧
      state.context.slots.Admits after.context.slots name ∧
      (after.context.slots.layout 0).address? name = some address ∧
      after.context.tags = state.context.tags ∧ after.held = state.held ∧
      after.listing = state.listing := by
  by_cases screen : Slots.isScreen name = true
  · rw [addressOf_screen screen] at ran
    cases ran
    exact ⟨consistent, .refl flat name, by simp [Layout.address?, screen, Slots.layout], rfl, rfl, rfl⟩
  have plain := Bool.eq_false_iff.mpr screen
  cases seen : state.context.slots.visible? name 0 with
  | some binding =>
    rw [addressOf_visible plain position consistent seen] at ran
    cases ran
    exact ⟨consistent, .refl flat name, by simp [Layout.address?, plain, Slots.layout, seen], rfl, rfl, rfl⟩
  | none =>
    cases free : state.context.slots.free? with
    | none =>
      rw [addressOf_full plain position consistent consistent.root seen free] at ran
      cases ran
    | some fresh =>
      rw [addressOf_fresh plain position consistent consistent.root seen free] at ran
      cases ran
      obtain ⟨bound, admits, found⟩ :=
        Slots.admits_bound consistent flat (consistent.visible?_root name ▸ seen) free
      refine ⟨bound, admits, ?_, rfl, rfl, ?_⟩
      · simp [Layout.address?, plain, Slots.layout, Emission.withSlots, found]
      · simp [Emission.listing_noted, Event.line?]

/-- What is emitted for giving a number to a variable is the code of the assignment, where the
variable has its address. -/
theorem initialise_emits {routines : List String} {position namePosition numberPosition : Position}
    {name : String} {value : Word} {state after : Emission}
    (ran : stmtCode routines 0 (.assign position [.name namePosition name] (.number numberPosition value))
      state = .ok () after)
    (consistent : state.context.slots.Consistent []) (flat : state.context.slots.Flat) :
    ∃ code, StmtCode (after.context.slots.layout 0) (· ∈ after.context.slots.occupied)
        (.assign position [.name namePosition name] (.number numberPosition value))
        state.context.tags after.context.tags code ∧
      after.context.slots.Consistent [] ∧ state.context.slots.Admits after.context.slots name ∧
      after.context.slots.Knows 0 [name] ∧ after.listing = state.listing ++ code := by
  simp only [stmtCode, exprCode, targetsCode] at ran
  obtain ⟨_, _, loaded, rest⟩ := bind_eq_ok_iff.mp ran
  rw [emit_apply] at loaded
  cases loaded
  obtain ⟨slot, middle, free, bodyRan, rfl⟩ := withScratch_eq_ok_iff.mp rest
  obtain ⟨_, _, kept, rest⟩ := bind_eq_ok_iff.mp bodyRan
  rw [emit_apply] at kept
  cases kept
  obtain ⟨_, _, targetRan, rest⟩ := bind_eq_ok_iff.mp rest
  obtain ⟨address, located, addressed, pointed⟩ := bind_eq_ok_iff.mp targetRan
  rw [emit_apply] at pointed
  cases pointed
  obtain ⟨_, _, stored, rest⟩ := bind_eq_ok_iff.mp rest
  rw [emit_apply] at stored
  cases stored
  cases rest
  have free : state.context.slots.free? = some slot := free
  have taken := consistent.occupy free
  obtain ⟨still, admits, found, tags, _, listing⟩ := addressOf_admits addressed taken flat
  have released : (located.context.slots.release slot).Consistent [] := by
    simpa using still.release (List.mem_cons_self ..)
  have spare : (located.context.slots.layout 0).Spare (· ∈ (located.context.slots.release slot).occupied)
      slot := by
    obtain ⟨_, inside, _⟩ := consistent.ranged.free?_eq_some free
    refine ⟨?_, ?_⟩
    · obtain ⟨first, last, _⟩ := admits.bounds
      simp only [Layout.InRange, Slots.layout, first, last]
      exact inside
    · intro isUsed
      obtain ⟨binding, live, rfl⟩ | none := (released.used slot).mp isUsed
      · exact still.apart binding live (List.mem_cons_self ..)
      · cases none
  have tags : located.context.tags = state.context.tags := tags
  have isCode : StmtCode (located.context.slots.layout 0)
      (· ∈ (located.context.slots.release slot).occupied)
      (.assign position [.name namePosition name] (.number numberPosition value)) state.context.tags
      located.context.tags [.set .a (.literal value), .set (.memory slot) .a, .set .a (.address address),
        .set .atA (.memory slot)] := by
    rw [tags]
    exact .assign .number spare (.cons (.name found) .nil)
  refine ⟨_, isCode, released, ⟨admits.flat, admits.bounds, admits.others, admits.stays⟩, ?_, ?_⟩
  · intro other member plain
    rw [List.mem_singleton.mp member] at plain ⊢
    simp only [Layout.address?, plain, Slots.layout] at found
    exact Option.isSome_iff_exists.mpr (Option.map_eq_some_iff.mp found |>.imp fun _ => And.left)
  · simp [Emission.listing_noted, Event.line?, listing, Want.operand]

/-- The range and the screen of an allocator are those of the settings. -/
def Slots.Fits (slots : Slots) (settings : Settings) : Prop :=
  slots.first = settings.first ∧ slots.last = settings.last ∧ slots.screen = settings.screen

/-- The variables of the program's own scope have addresses of their own. -/
theorem Slots.Consistent.houses {slots : Slots} (consistent : slots.Consistent []) {settings : Settings}
    (fits : slots.Fits settings) : (slots.layout 0).Houses settings (· ∈ slots.occupied) := by
  obtain ⟨first, last, screen⟩ := fits
  have live {name : String} {address : Word} (home : (slots.layout 0).home? name = some address) :
      ∃ binding, slots.Live binding ∧ binding.name = name ∧ binding.address = address := by
    obtain ⟨binding, seen, rfl⟩ := Option.map_eq_some_iff.mp home
    obtain ⟨isLive, named, _⟩ := consistent.live_of_visible seen
    exact ⟨binding, isLive, named, rfl⟩
  refine ⟨screen, ?_, ?_, ?_⟩
  · intro address
    simp [Layout.InRange, Slots.layout, Settings.inRange, first, last]
  · intro name address _ home
    obtain ⟨binding, isLive, _, rfl⟩ := live home
    have isUsed := (consistent.used binding.address).mpr (.inl ⟨binding, isLive, rfl⟩)
    exact ⟨isUsed, consistent.ranged.inside _ isUsed⟩
  · intro name other address _ _ home otherHome
    obtain ⟨binding, isLive, rfl, rfl⟩ := live home
    obtain ⟨otherBinding, otherLive, rfl, sameAddress⟩ := live otherHome
    rw [consistent.eq_of_address isLive otherLive sameAddress.symm]

/-- The steps from one state to another have emitted code for statements of the program's own scope,
which runs them; every name of the statements has its address afterwards. -/
structure Emission.Performs (settings : Settings) (state : Emission) (statements : List Stmt)
    (code : Listing) (after : Emission) : Prop where
  listing : after.listing = state.listing ++ code
  labelled : ∀ outside, code.Labelled outside state.context.tags after.context.tags
  consistent : after.context.slots.Consistent []
  fits : after.context.slots.Fits settings
  stays : ∀ name, (state.context.slots.visible? name 0).isSome →
    (after.context.slots.visible? name 0).isSome
  known : after.context.slots.Knows 0 (namesOfBlock statements)
  simulates : ∀ (image : Image) (rounds start : Nat) (world : World) (point : Point),
    image.Holds start code → start + code.span ≤ 65535 → point.pc = start →
    (state.context.slots.layout 0).Agrees settings world point.memory →
    (after.context.slots.layout 0).Achieves settings image point (start + code.span) rounds
      (runAll settings rounds statements world)

/-- Statements whose names all have addresses already. -/
private theorem performs_of_known {settings : Settings} {routines : List String} {statements : List Stmt}
    {state after : Emission} (ran : blockCode routines 0 statements state = .ok () after)
    (consistent : state.context.slots.Consistent []) (flat : state.context.slots.Flat)
    (fits : state.context.slots.Fits settings) (structured : blockStructured statements = true)
    (known : state.context.slots.Knows 0 (namesOfBlock statements)) :
    ∃ code, state.Performs settings statements code after := by
  have serves : state.context.slots.Serves state 0 :=
    ⟨flat, consistent, .refl consistent, by simp [consistent.root]⟩
  obtain ⟨code, isCode, extends'⟩ := blockCode_emits routines 0 statements ran serves structured known
  have later := serves.later extends'.keeps
  have visible (name : String) :
      after.context.slots.visible? name 0 = state.context.slots.visible? name 0 := by
    rw [extends'.keeps.consistent.visible?_root, consistent.visible?_root,
      extends'.keeps.live_eq consistent]
  obtain ⟨first, last, screen⟩ := extends'.keeps.bounds
  refine ⟨code, extends'.listing, isCode.labelled, extends'.keeps.consistent, ?_, ?_,
    later.knows known, ?_⟩
  · exact ⟨first.trans fits.1, last.trans fits.2.1, screen.trans fits.2.2⟩
  · intro name seen
    rwa [visible]
  · intro image rounds start world point holds small stands agrees
    rw [later.layout_eq]
    exact isCode.simulates (consistent.houses fits) start world point holds small stands agrees

/-- A memory that agrees with a world does so where a name is new, but for the value of the name,
which makes no difference to an assignment to it. -/
private theorem Slots.Admits.agrees {settings : Settings} {slots after : Slots} {name : String}
    (admits : slots.Admits after name) {world : World} {memory : Memory}
    (agrees : (slots.layout 0).Agrees settings world memory) (position : Position) :
    ∃ before, (after.layout 0).Agrees settings before memory ∧ ∀ word,
      assignAll settings word [.name position name] before =
        assignAll settings word [.name position name] world := by
  have others : ∀ other address, other ≠ name → Slots.isScreen other = false →
      (after.layout 0).home? other = some address → memory.read address = world.store other := by
    intro other address different plain home
    simp only [Slots.layout, admits.others other different] at home
    exact agrees.named other address plain home
  by_cases screen : Slots.isScreen name = true
  · refine ⟨world, ⟨?_, agrees.words⟩, fun _ => rfl⟩
    intro other address plain home
    refine others other address ?_ plain home
    rintro rfl
    rw [plain] at screen
    cases screen
  · let stored := ((after.layout 0).home? name).elim 0 memory.read
    refine ⟨⟨fun other => if other = name then stored else world.store other, world.words⟩,
      ⟨?_, agrees.words⟩, ?_⟩
    · intro other address plain home
      by_cases same : other = name
      · subst same
        simp [stored, home]
      · simpa [same] using others other address same plain home
    · intro word
      have assigns (world : World) : assignAll settings word [.name position name] world =
          .ok { world with store := fun other => if other = name then word else world.store other } := by
        simp only [assignAll, Expr.place, Sight.placeOf, screen]
        rfl
      rw [assigns, assigns]
      congr 2
      funext other
      by_cases same : other = name <;> simp [same]

/-- Statements of the program's own scope whose names have addresses or are given numbers first. -/
theorem blockCode_performs {settings : Settings} {routines : List String} {statements : List Stmt}
    {state after : Emission} (ran : blockCode routines 0 statements state = .ok () after)
    (consistent : state.context.slots.Consistent []) (flat : state.context.slots.Flat)
    (fits : state.context.slots.Fits settings) (structured : blockStructured statements = true)
    (covered : ∀ name ∈ namesOfBlock statements, Slots.isScreen name = false →
      (state.context.slots.visible? name 0).isSome ∨ name ∈ initialisedNames statements) :
    ∃ code, state.Performs settings statements code after := by
  induction statements generalizing state with
  | nil => exact performs_of_known ran consistent flat fits structured (by simp [Slots.Knows, namesOfBlock])
  | cons statement statements ih =>
    cases initialised : statement.initialised? with
    | none =>
      refine performs_of_known ran consistent flat fits structured fun name member plain => ?_
      simpa [initialisedNames, initialised] using covered name member plain
    | some name =>
      obtain ⟨position, namePosition, numberPosition, value, rfl⟩ :
          ∃ position namePosition numberPosition value,
            statement = .assign position [.name namePosition name] (.number numberPosition value) := by
        unfold Stmt.initialised? at initialised
        split at initialised
        · cases initialised
          exact ⟨_, _, _, _, rfl⟩
        · cases initialised
      simp only [blockCode] at ran
      obtain ⟨_, middle, firstRan, restRan⟩ := bind_eq_ok_iff.mp ran
      obtain ⟨firstCode, isFirst, middleConsistent, admits, nameKnown, firstListing⟩ :=
        initialise_emits firstRan consistent flat
      obtain ⟨first, last, screen⟩ := admits.bounds
      have middleFits : middle.context.slots.Fits settings :=
        ⟨first.trans fits.1, last.trans fits.2.1, screen.trans fits.2.2⟩
      have restCovered : ∀ other ∈ namesOfBlock statements, Slots.isScreen other = false →
          (middle.context.slots.visible? other 0).isSome ∨ other ∈ initialisedNames statements := by
        intro other member plain
        obtain seen | given := covered other (List.mem_append_right _ member) plain
        · exact .inl (admits.stays other seen)
        · simp only [initialisedNames, initialised, List.mem_cons] at given
          refine given.imp_left ?_
          rintro rfl
          exact nameKnown _ (List.mem_singleton_self _) plain
      obtain ⟨restCode, performs⟩ := ih restRan middleConsistent admits.flat middleFits
        (Bool.and_eq_true_iff.mp structured).2 restCovered
      refine ⟨firstCode ++ restCode, ?_, ?_, performs.consistent, performs.fits, ?_, ?_, ?_⟩
      · rw [performs.listing, firstListing, List.append_assoc]
      · exact fun outside => (isFirst.labelled outside).append (performs.labelled outside)
      · exact fun other seen => performs.stays other (admits.stays other seen)
      · refine Slots.knows_append.mpr ⟨?_, performs.known⟩
        intro other member plain
        have named : other ∈ [name] := by simpa [Stmt.names, namesOfAll, Expr.names] using member
        exact performs.stays other (nameKnown other named plain)
      · intro image rounds start world point holds small stands agrees
        rw [Image.holds_append] at holds
        rw [Listing.span_append, ← Nat.add_assoc] at small ⊢
        obtain ⟨before, agreesBefore, same⟩ := admits.agrees agrees namePosition
        have houses := middleConsistent.houses middleFits
        have runs : (middle.context.slots.layout 0).Achieves settings image point _ rounds _ :=
          isFirst.simulates houses start before point holds.1 (by omega) stands agreesBefore
        have sameRun : ∀ world, Stmt.run settings rounds
            (.assign position [.name namePosition name] (.number numberPosition value)) world =
              assignAll settings value [.name namePosition name] world := fun _ => by
          simp only [Stmt.run]
          rfl
        rw [sameRun, same, ← sameRun] at runs
        simp only [runAll]
        refine runs.bind fun world behind _ pc agreesBehind => ?_
        exact performs.simulates image rounds _ world behind holds.2 small pc agreesBehind

end Dcpu
