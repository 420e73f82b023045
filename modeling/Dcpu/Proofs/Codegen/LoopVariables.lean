import Dcpu.Proofs.Codegen.Bindings
import Dcpu.Proofs.Codegen.Blocks
import Dcpu.Proofs.Codegen.Phases

/-! # Variables that outlive the rounds of a loop

The code of a loop is emitted once and runs in rounds. A variable of the scope around the loop, or of one further
out, has to keep its value from one round to the next. Once such a variable is made, every line of the loop that
names its address is the line of its name, and none has the address for an intermediate result. So the value
changes only where the variable is assigned to, as long as no routine is called and no subscript hits its address.
A variable that the test of the loop is first to name comes too late for the part of the test before it: slots put
there on its address are filled again in every round.
-/

namespace Dcpu

open Source Effects Gen

section Runs

variable (context : Context) (program : Program) (routines : List String)

/-- A loop of a program stands in a scope, with a test and with the statements of its rounds. Its code was emitted
between two states, with a state between them at which the code of the test was complete. -/
inductive LoopEmitted : ScopeId → Expr → List Stmt → Emission → Emission → Emission → Prop where
  | whileLoop {scope : ScopeId} {position : Position} {test : Expr} {body statements : List Stmt}
      {before tested after : Emission} {tag : String} :
      Begins context program routines scope (.whileLoop position test body :: statements) before →
      loopHead routines scope test before = .ok tag tested →
      loopCode routines scope position test (fun inner => blockCode routines inner body) before =
        .ok () after →
      LoopEmitted scope test body before tested after
  | forLoop {scope : ScopeId} {position : Position} {init step : Stmt} {test : Expr}
      {body statements : List Stmt} {state before tested after : Emission} {tag : String} :
      Begins context program routines scope (.forLoop position init test step body :: statements) state →
      stmtCode routines scope init state = .ok () before →
      loopHead routines scope test before = .ok tag tested →
      loopCode routines scope position test (fun inner => do
          blockCode routines inner body
          stmtCode routines inner step) before = .ok () after →
      LoopEmitted scope test (body ++ [step]) before tested after

end Runs

/-- A variable of the scope that a loop stands in, or of one further out, is live at a moment of the loop's code. -/
structure SeenInLoop (context : Context) (scope : ScopeId) (before after : Emission) (binding : Binding)
    (seen : List Event) : Prop where
  begun : before.trail.toList <+: seen
  unfinished : seen <+: after.trail.toList
  isLive : binding ∈ (context.ledgerAt seen).live
  outlives : ∃ outer, before.context.slots.around? scope = some outer ∧ binding.origin ∈ scope :: outer

/-- The head of a loop binds the names of the test. -/
theorem loopHead_names (routines : List String) (needed : List Word) (scope : ScopeId) (test : Expr) :
    Names needed scope test.names (test.mentions .value) (loopHead routines scope test) := by
  apply names_bind (names_nextTag _)
  intro tag
  apply names_bind (names_emit (by simp))
  intro _
  apply names_andThen (exprCode_names routines needed scope .value test)
  intro _
  apply names_bind (names_emitAll (by simp [unlessHolds]))
  intro _
  exact names_pure _

/-- Nothing behind the test of a loop binds a name for the scope that the loop stands in. -/
theorem behindTest_names (routines : List String) (needed : List Word) (scope : ScopeId) (position : Position)
    (tag : String) (rounds : List Stmt) : Names needed scope [] (mentionsIn rounds) (do
      inScope scope position fun inner => blockCode routines inner rounds
      emit (.jump (Tag.start tag))
      emit (.label (Tag.ending tag)) : Gen Unit) := by
  apply names_andThen (names_inScope fun inner => blockCode_names routines needed inner rounds)
  intro _
  apply names_bind (names_emit (by simp))
  intro _
  exact names_emit (by simp)

variable {context : Context} {program : Program} {routines : List String} {scope : ScopeId} {test : Expr}
  {rounds : List Stmt} {before tested after : Emission}

namespace LoopEmitted

/-- Both kinds of loops put the code of a test before the code of their rounds. -/
private theorem loopCode_eq (consistent : context.slots.Consistent [])
    (emitted : LoopEmitted context program routines scope test rounds before tested after) :
    before.Accounted context scope ∧ ∃ position tag, loopHead routines scope test before = .ok tag tested ∧
      loopCode routines scope position test (fun inner => blockCode routines inner rounds) before =
        .ok () after := by
  cases emitted with
  | whileLoop begins tests ran => exact ⟨begins.accounted consistent, _, _, tests, ran⟩
  | forLoop begins starts tests ran =>
    simp only [← blockCode_singleton, ← blockCode_append] at ran
    exact ⟨(begins.accounted consistent).ran (stmtCode_keeps routines [] scope _) starts, _, _, tests, ran⟩

/-- What a loop leaves is a part of what the compilation leaves. -/
private theorem trail_within (consistent : context.slots.Consistent [])
    (emitted : LoopEmitted context program routines scope test rounds before tested after) (haltLoop : Bool) :
    after.trail.toList <+: (context.compile haltLoop program).trail.toList := by
  cases emitted with
  | whileLoop begins _ ran =>
    refine (begins.next ?_).trail_within consistent haltLoop
    simp only [stmtCode]
    exact ran
  | forLoop begins starts _ ran =>
    refine (begins.next ?_).trail_within consistent haltLoop
    simp only [stmtCode]
    exact bind_eq_ok_iff.mpr ⟨(), before, starts, ran⟩

/-- What the code of a loop leaves, parted where the code of the test is complete: no variable of the loop's scope
is made behind the test, and the lines are explained by the names of the loop. -/
private theorem records (consistent : context.slots.Consistent []) (sound : (Ledger.start context.slots).Sound)
    (emitted : LoopEmitted context program routines scope test rounds before tested after) :
    before.Accounted context scope ∧ ∃ head rest,
      before.Records (context.ledgerAt before.trail.toList) scope (head ++ rest) after ∧
      (∀ name address, .bound name address scope ∉ rest) ∧
      (context.ledgerAt before.trail.toList).Spells (test.mentions .value ++ mentionsIn rounds) (head ++ rest) ∧
      tested.trail.toList = before.trail.toList ++ head := by
  obtain ⟨accounted, position, tag, tests, ran⟩ := emitted.loopCode_eq consistent
  have soundThere := accounted.sound sound
  obtain ⟨head, records, binds⟩ :=
    loopHead_names routines [] scope test _ before soundThere accounted.mirrors (by simp)
  rw [after_of_ok tests] at records
  obtain ⟨_, _, same, ranRest⟩ := bind_eq_ok_iff.mp ran
  cases tests.symm.trans same
  obtain ⟨rest, further, bindsRest⟩ := behindTest_names routines [] scope position tag rounds _ tested
    (soundThere.replay records.lawful) records.mirrors (by simp)
  rw [after_of_ok ranRest] at further
  refine ⟨accounted, head, rest, records.trans further, fun name address made => ?_, ?_, records.trail⟩
  · cases (bindsRest.only name address made).1
  · exact Ledger.spells_append.mpr ⟨binds.spells.mono (List.subset_append_left ..),
      bindsRest.spells.mono (List.subset_append_right ..)⟩

end LoopEmitted

/-- When a variable that is seen in a loop is live, with moments counted from the loop's beginning. -/
private theorem live_settled {ledger : Ledger} {outer : List ScopeId} {head rest seen moment : List Event}
    {binding : Binding} (sound : ledger.Sound) (path : ledger.path = scope :: outer)
    (records : before.Records ledger scope (head ++ rest) after)
    (unbound : ∀ name address, .bound name address scope ∉ rest) (outlives : binding.origin ∈ scope :: outer)
    (seenWithin : seen <+: head ++ rest) (isLive : binding ∈ (ledger.replay seen).live)
    (within : moment <+: head ++ rest)
    (settled : seen <+: moment ∨ head <+: moment ∨ binding.origin ≠ scope) :
    binding ∈ (ledger.replay moment).live := by
  have isOpen : binding.origin ∈ ledger.path := path ▸ outlives
  by_cases own : binding.origin = scope
  · obtain later | behindTest | further := settled
    · exact records.live_later isOpen later within isLive
    · obtain early | ⟨between, rfl⟩ :=
        List.prefix_or_prefix_of_prefix seenWithin (List.prefix_append head rest)
      · exact records.live_later isOpen (early.trans behindTest) within isLive
      · apply records.live_later isOpen behindTest within
        rw [Ledger.replay_append] at isLive
        apply Ledger.mem_live_of_unbound isLive
        intro name address made
        have inRest := (List.prefix_append_right_inj head).mp seenWithin
        exact unbound name address (inRest.subset (own ▸ made))
    · exact absurd own further
  · -- a scope further out gets no variables while the loop's own scope is open
    apply records.live_later isOpen List.nil_prefix within
    apply Ledger.mem_live_of_unbound isLive
    intro name address made
    have staysOpen := records.inside scope (path ▸ List.mem_cons_self ..)
    have innermost : ledger.path = [] ++ scope :: outer := path
    have untouched := sound.untouched_around records.lawful innermost staysOpen
      ((List.mem_cons.mp outlives).resolve_left own)
    exact untouched.2 name address (seenWithin.subset made)

/-- Lines in the range of the loop's instructions were emitted at moments of the loop. -/
private theorem exists_moment {events : List Event} {listing : Listing} {image : Image}
    (trail : after.trail.toList = before.trail.toList ++ events) (emitted : after.listing <+: listing)
    (loaded : Image.load listing = .ok image) {index : Nat} (behind : before.listing.span ≤ index)
    (ahead : index < after.listing.span) {body : Instruction} (fetched : image.instructions[index]? = some body) :
    ∃ past, past ++ [.emitted (.instruction body)] <+: events := by
  have code : after.listing = before.listing ++ events.filterMap Event.line? := by
    rw [Emission.listing, listingOf, trail, List.filterMap_append]
    rfl
  obtain ⟨more, rfl⟩ := emitted
  rw [code] at loaded ahead
  have member := Image.mem_of_span loaded rfl behind ahead fetched
  obtain ⟨event, isEvent, isLine⟩ := List.mem_filterMap.mp member
  obtain ⟨past, later, rfl⟩ := List.append_of_mem isEvent
  cases event with
  | emitted line =>
    cases isLine
    exact ⟨past, later, by simp⟩
  | _ => cases isLine

section Seen

variable {settings : Settings} {binding : Binding} {seen : List Event} (reached : context.Reached settings)
  (emitted : LoopEmitted context program routines scope test rounds before tested after)
  (isSeen : SeenInLoop context scope before after binding seen)

include reached emitted isSeen

/-- Once a variable that is seen in a loop is made, its address is in use for it, and the lines that name the
address are those of its name. -/
private theorem LoopEmitted.named {moment : List Event} (begun : before.trail.toList <+: moment)
    (unfinished : moment <+: after.trail.toList)
    (settled : seen <+: moment ∨ tested.trail.toList <+: moment ∨ binding.origin ≠ scope) :
    (context.ledgerAt moment).holder? binding.address = some (.bound binding.number) ∧
      ∀ line, moment ++ [.emitted line] <+: after.trail.toList → binding.address ∈ line.places →
        binding.NamedBy context.slots.screen (test.mentions .value ++ mentionsIn rounds) line := by
  obtain ⟨accounted, head, rest, records, unbound, spells, testedTrail⟩ :=
    emitted.records reached.flat.1 reached.sound
  have sound := accounted.sound reached.sound
  obtain ⟨_, found, path⟩ := accounted.mirrors.path
  obtain ⟨⟨sinceSeen, rfl⟩, seenWithin, isLive, outer, isOpen, outlives⟩ := isSeen
  cases isOpen.symm.trans found
  obtain ⟨since, rfl⟩ := begun
  rw [records.trail, List.prefix_append_right_inj] at seenWithin unfinished
  rw [testedTrail, List.prefix_append_right_inj, List.prefix_append_right_inj] at settled
  rw [Context.ledgerAt_append] at isLive ⊢
  have live := live_settled sound path records unbound outlives seenWithin isLive unfinished settled
  obtain ⟨later, whole⟩ := unfinished
  have soundThere := sound.replay (Ledger.lawful_append.mp (whole.symm ▸ records.lawful)).1
  refine ⟨soundThere.holder?_live live, fun line emits names => ?_⟩
  rw [records.trail, List.append_assoc, List.prefix_append_right_inj] at emits
  have screen : ((context.ledgerAt before.trail.toList).replay since).screen = context.slots.screen := by
    rw [← Context.ledgerAt_append]
    exact (Ledger.bounds_replay _ _).2.2
  exact screen ▸ soundThere.namedBy_of_live live (spells.explains emits) names

/-- A run in a loop that spares a variable leaves its value, if no line before the variable is made has its
address. -/
private theorem LoopEmitted.read_eq {haltLoop : Bool}
    (unused : ∀ past line, before.trail.toList <+: past → past ++ [.emitted line] <+: seen →
      binding.address ∉ line.places) {listing : Listing} {image : Image}
    (compiled : (context.compile haltLoop program).result = .ok listing) (short : listing.span < 65536)
    (loaded : Image.load listing = .ok image) {earlier later : Machine} (aims : image.Aims earlier)
    (run : image.Sparing before.listing.span after.listing.span binding.address earlier later) :
    later.memory.read binding.address = earlier.memory.read binding.address := by
  obtain ⟨final, _, rfl, _, trail⟩ := Context.compile_eq_ok compiled
  have within : after.listing <+: final.listing := by
    have inCompilation := emitted.trail_within reached.flat.1 haltLoop
    rw [trail] at inCompilation
    exact inCompilation.filterMap Event.line?
  obtain ⟨_, head, rest, records, _⟩ := emitted.records reached.flat.1 reached.sound
  refine run.read_eq (Context.compile_along compiled) loaded short aims ?_
  rintro index body behind ahead fetched op a rfl
  obtain ⟨past, emits⟩ := exists_moment records.trail within loaded behind ahead fetched
  have emits : before.trail.toList ++ past ++ [.emitted (.basic op (.memory binding.address) a)] <+:
      after.trail.toList := by
    rw [records.trail, List.append_assoc]
    exact (List.prefix_append_right_inj _).mpr emits
  have begun : before.trail.toList <+: before.trail.toList ++ past := List.prefix_append ..
  have names : binding.address ∈ (Line.basic op (.memory binding.address) a).places := by simp
  obtain early | late := List.prefix_or_prefix_of_prefix emits isSeen.unfinished
  · exact unused _ _ begun early names
  · obtain same | settled := List.prefix_concat_iff.mp late
    · exact unused _ _ begun (same ▸ List.prefix_refl _) names
    · have unfinished := (List.prefix_append ..).trans emits
      obtain ⟨_, _, _, loads⟩ := (emitted.named reached isSeen begun unfinished (.inl settled)).2 _ emits names
      cases loads

end Seen

/-- A variable of the scope that a loop stands in, or of one further out, is seen at a moment of the loop's code.
From that moment on to the end of the loop, everywhere behind the code of the test, and throughout the loop if its
scope is one further out, the address of the variable is in use for it, and every line of the loop that names the
address loads the value or the address of the variable for a name in the loop. If no line of the loop names the
address before, then the value stays in every run of the loop's code without calls and returns in which nothing is
stored at the address, neither for the variable's name nor through a subscript. -/
theorem loop_keeps_outer_variables {settings : Settings} {haltLoop : Bool} {binding : Binding} {seen : List Event}
    (reached : context.Reached settings)
    (emitted : LoopEmitted context program routines scope test rounds before tested after)
    (isSeen : SeenInLoop context scope before after binding seen) :
    (∀ moment, before.trail.toList <+: moment → moment <+: after.trail.toList →
      (seen <+: moment ∨ tested.trail.toList <+: moment ∨ binding.origin ≠ scope) →
      moment <+: (context.compile haltLoop program).trail.toList ∧
      (context.ledgerAt moment).holder? binding.address = some (.bound binding.number) ∧
      ∀ line, moment ++ [.emitted line] <+: after.trail.toList → binding.address ∈ line.places →
        binding.NamedBy context.slots.screen (test.mentions .value ++ mentionsIn rounds) line) ∧
    ((∀ past line, before.trail.toList <+: past → past ++ [.emitted line] <+: seen →
        binding.address ∉ line.places) →
      ∀ listing image, (context.compile haltLoop program).result = .ok listing → listing.span < 65536 →
        Image.load listing = .ok image → ∀ earlier later, image.Aims earlier →
        image.Sparing before.listing.span after.listing.span binding.address earlier later →
        later.memory.read binding.address = earlier.memory.read binding.address) := by
  refine ⟨fun moment begun unfinished settled => ⟨?_, emitted.named reached isSeen begun unfinished settled⟩, ?_⟩
  · exact unfinished.trans (emitted.trail_within reached.flat.1 haltLoop)
  · intro unused listing image compiled short loaded earlier later aims run
    exact emitted.read_eq reached isSeen unused compiled short loaded aims run

/-- A `while` loop whose code is made without failure. -/
private theorem LoopEmitted.of_succeeds {position : Position} {statements : List Stmt}
    (begins : Begins context program routines scope (.whileLoop position test rounds :: statements) before)
    (succeeds : (stmtCode routines scope (.whileLoop position test rounds)).succeeds before = true) :
    LoopEmitted context program routines scope test rounds before ((loopHead routines scope test).after before)
      ((stmtCode routines scope (.whileLoop position test rounds)).after before) := by
  have ran := Gen.ran_of_succeeds succeeds
  simp only [stmtCode] at ran ⊢
  obtain ⟨_, _, tests, _⟩ := bind_eq_ok_iff.mp ran
  rw [after_of_ok tests]
  exact .whileLoop begins tests ran

/-- Count one up, in each round of a loop. -/
def countOn : List Stmt :=
  let counter := Expr.name default "x"
  [.assign default [counter] (.binary default .add counter (.number default 1))]

def belowThree : Expr :=
  .compare default (.number default 3) [(.greater, .name default "x")]

/-- Count up to three. -/
def countUp : Program :=
  [ .assign default [.name default "x"] (.number default 0), .whileLoop default belowThree countOn ]

def countUpBinding : Binding := ⟨0, "x", 0x2001, 0⟩

def countUpCode : Listing :=
  [ .set .a (.literal 0),
    .set (.memory 0x2000) .a,
    .set .a (.address 0x2001),
    .set .atA (.memory 0x2000),
    .label "loop1start",
    .set .a (.literal 3),
    .set (.memory 0x2000) .a,
    .set .a (.memory 0x2001),
    .set (.memory 0x2002) .a,
    .set .a (.literal 0),
    .basic .ifg (.memory 0x2000) (.memory 0x2002),
    .set .a (.literal 1),
    .basic .ifn .a (.literal 1),
    .jump "loop1end",
    .set .a (.memory 0x2001),
    .set (.memory 0x2000) .a,
    .set .a (.literal 1),
    .basic .add (.memory 0x2000) .a,
    .set .a (.memory 0x2000),
    .set (.memory 0x2000) .a,
    .set .a (.address 0x2001),
    .set .atA (.memory 0x2000),
    .jump "loop1start",
    .label "loop1end",
    .label "end",
    .jump "end" ]

def countUpImage : Image :=
  ⟨countUpCode.instructions.toArray, [("end", 22), ("loop1end", 22), ("loop1start", 4)]⟩

/-- A machine that has counted to one and is about to begin the next round. -/
def countedToOne : Machine :=
  { Machine.start with pc := 21, memory := Memory.empty.write countUpBinding.address 1 }

private theorem countUp_emitted : ∃ before tested after,
    LoopEmitted (.new {}) countUp [] 0 belowThree countOn before tested after ∧
    before.listing.span = 4 ∧ after.listing.span = 22 ∧
    before.trail.toList = after.trail.toList.take 8 ∧ before.context.slots.around? 0 = some [] ∧
    after.trail.toList = ((Context.new {}).compile true countUp).trail.toList.take 38 := by
  have starts : (stmtCode [] 0 (countUp.head (by decide))).succeeds
      ((Emission.start (.new {})).noted (.registered [])) = true := by decide +kernel
  have begins : Begins (.new {}) countUp [] 0 countUp.tail _ := .next (.program rfl) (Gen.ran_of_succeeds starts)
  have emitted := LoopEmitted.of_succeeds begins (by decide +kernel)
  refine ⟨_, _, _, emitted, ?_, ?_, ?_, ?_, ?_⟩ <;> decide +kernel

/-- The loop leaves the address of the counter to the counter, and the counter is still one where the next round
adds to it. -/
theorem loop_keeps_counter : ∃ before tested after later,
    LoopEmitted (.new {}) countUp [] 0 belowThree countOn before tested after ∧
    SeenInLoop (.new {}) 0 before after countUpBinding before.trail.toList ∧
    after.trail.toList.take 32 <+: ((Context.new {}).compile true countUp).trail.toList ∧
    ((Context.new {}).ledgerAt (after.trail.toList.take 32)).holder? countUpBinding.address =
      some (.bound countUpBinding.number) ∧
    after.trail.toList.take 32 ++ [.emitted (.set .a (.address countUpBinding.address))] <+: after.trail.toList ∧
    countUpBinding.NamedBy 0x8000 (belowThree.mentions .value ++ mentionsIn countOn)
      (.set .a (.address countUpBinding.address)) ∧
    ((Context.new {}).compile true countUp).result = .ok countUpCode ∧ Image.load countUpCode = .ok countUpImage ∧
    countUpImage.Sparing before.listing.span after.listing.span countUpBinding.address countedToOne later ∧
    later.pc = 20 ∧ later.memory.read countUpBinding.address = 1 := by
  obtain ⟨before, tested, after, emitted, first, stop, begins, isOpen, within⟩ := countUp_emitted
  have isSeen : SeenInLoop (.new {}) 0 before after countUpBinding before.trail.toList := by
    refine ⟨List.prefix_refl _, ?_, ?_, [], isOpen, List.mem_singleton_self 0⟩
    · rw [begins]
      exact List.take_prefix ..
    · rw [begins, within]
      decide +kernel
  have compiled : ((Context.new {}).compile true countUp).result = .ok countUpCode := by decide +kernel
  have loaded : Image.load countUpCode = .ok countUpImage := by decide +kernel
  have emits : after.trail.toList.take 32 ++ [.emitted (.set .a (.address countUpBinding.address))] <+:
      after.trail.toList := by
    rw [within]
    decide +kernel
  have begun : before.trail.toList <+: after.trail.toList.take 32 := by
    rw [begins]
    exact List.take_prefix_take_left (by decide)
  have runs : (countUpImage.sparing? 4 22 countUpBinding.address 16 countedToOne).map Machine.pc = some 20 := by
    decide +kernel
  obtain ⟨later, run, pc⟩ := Option.map_eq_some_iff.mp runs
  have run := Image.sparing_of_sparing? run
  rw [← first, ← stop] at run
  obtain ⟨lines, values⟩ := loop_keeps_outer_variables .new emitted isSeen
  obtain ⟨isPast, holder, named⟩ := lines _ begun (List.take_prefix ..) (.inl begun)
  refine ⟨before, tested, after, later, emitted, isSeen, isPast, holder, emits, named _ emits (by decide), compiled,
    loaded, run, pc, ?_⟩
  have unused : ∀ past line, before.trail.toList <+: past → past ++ [.emitted line] <+: before.trail.toList →
      countUpBinding.address ∉ line.places := by
    intro past line isPast emits
    have longer := isPast.length_le
    have shorter := emits.length_le
    rw [List.length_append, List.length_singleton] at shorter
    omega
  have aims : countUpImage.Aims countedToOne := by
    intro body found isStore
    cases found
    cases isStore
  rw [values unused _ _ compiled (by decide) loaded _ _ aims run]
  decide +kernel

/-- Count up in a loop whose test names the counter behind other operands. -/
def lateCounter : Program :=
  let literal (value : Word) := Expr.number default value
  let sum := Expr.binary default .add
  [ .whileLoop default
      (.compare default (sum (literal 1) (sum (literal 2) (sum (literal 3) (literal 4))))
        [(.greater, .name default "x")])
      countOn ]

def lateCounterBinding : Binding := ⟨0, "x", 0x2002, 0⟩

/-- A machine that has counted to one and is at the beginning of the loop. -/
def lateCountedToOne : Machine :=
  { Machine.start with memory := Memory.empty.write lateCounterBinding.address 1 }

/-- The test itself fills the address of the counter with an intermediate result, in every round, and the counter
is lost. -/
theorem loop_test_fills_late_counter : ∃ test before tested after listing image later,
    (compileProgram {} lateCounter).result = .ok listing ∧ Image.load listing = .ok image ∧
    LoopEmitted (.new {}) lateCounter [] 0 test countOn before tested after ∧
    lateCounterBinding ∈ ((Context.new {}).ledgerAt after.trail.toList).live ∧
    before.trail.toList <+: after.trail.toList.take 10 ∧
    after.trail[10]? = some (.emitted (.set (.memory lateCounterBinding.address) .a)) ∧
    ((Context.new {}).ledgerAt (after.trail.toList.take 10)).holder? lateCounterBinding.address =
      some .intermediate ∧
    image.Sparing before.listing.span after.listing.span lateCounterBinding.address lateCountedToOne later ∧
    later.memory.read lateCounterBinding.address = 3 := by
  have begins : Begins (.new {}) lateCounter [] 0 lateCounter
      ((Emission.start (.new {})).noted (.registered [])) := .program rfl
  have emitted := LoopEmitted.of_succeeds begins (by decide +kernel)
  have runs : ((compileProgram {} lateCounter).result.toOption.bind fun listing =>
      (Image.load listing).toOption.bind fun image =>
        (image.sparing? 0 30 lateCounterBinding.address 6 lateCountedToOne).map fun later =>
          later.memory.read lateCounterBinding.address) = some 3 := by decide +kernel
  have ok_of_toOption {ε α : Type} {result : Except ε α} {value : α} (some : result.toOption = some value) :
      result = .ok value := by
    cases result <;> cases some
    rfl
  obtain ⟨listing, compiled, runs⟩ := Option.bind_eq_some_iff.mp runs
  obtain ⟨image, loaded, runs⟩ := Option.bind_eq_some_iff.mp runs
  obtain ⟨later, run, read⟩ := Option.map_eq_some_iff.mp runs
  have first : ((Emission.start (.new {})).noted (.registered [])).listing.span = 0 := rfl
  have stop : ((stmtCode [] 0 (lateCounter.head (by decide))).after
      ((Emission.start (.new {})).noted (.registered []))).listing.span = 30 := by decide +kernel
  refine ⟨_, _, _, _, listing, image, later, ok_of_toOption compiled, ok_of_toOption loaded, emitted, ?_, ?_, ?_,
    ?_, ?_, read⟩
  any_goals decide +kernel
  rw [← stop] at run
  exact Image.sparing_of_sparing? run

end Dcpu
