import Dcpu.Proofs.Codegen.ExpressionMeaning
import Dcpu.Proofs.Codegen.StatementCode

/-! # Statement code runs statements

Run from its first instruction with a memory that agrees with a world, the code of a statement ends
behind its last instruction with a memory that agrees with the world the statement leaves. Where a
loop needs more rounds than it is given, the code takes at least as many steps as there are rounds.
-/

namespace Dcpu

open Source

/-- A layout has the range and the screen of its settings, and gives every variable an address of its
own among those in use. -/
structure Layout.Houses (layout : Layout) (settings : Settings) (used : Word → Prop) : Prop where
  screen : layout.screen = settings.screen
  range : ∀ address, layout.InRange address ↔ settings.inRange address = true
  homes : ∀ name address, Slots.isScreen name = false → layout.home? name = some address →
    used address ∧ layout.InRange address
  apart : ∀ name other address, Slots.isScreen name = false → Slots.isScreen other = false →
    layout.home? name = some address → layout.home? other = some address → name = other

/-- A memory holds the variables of a world at their addresses, and its words outside the range of
variables. -/
structure Layout.Agrees (layout : Layout) (settings : Settings) (world : World) (memory : Memory) :
    Prop where
  named : ∀ name address, Slots.isScreen name = false → layout.home? name = some address →
    memory.read address = world.store name
  words : ∀ address, settings.inRange address = false → memory.read address = world.words address

namespace Layout

variable {layout : Layout} {settings : Settings} {used : Word → Prop} {world world' : World}
  {memory other : Memory}

/-- An address outside the range of the settings is none of the layout. -/
theorem Houses.outside (houses : layout.Houses settings used) {address : Word}
    (outside : settings.inRange address = false) : ¬ layout.InRange address := by
  rw [houses.range, outside]
  exact Bool.false_ne_true

/-- A memory that agrees with a world holds what expressions see of it. -/
theorem Agrees.shows (agrees : layout.Agrees settings world memory)
    (houses : layout.Houses settings used) :
    layout.Shows used (world.sight settings) memory := by
  refine ⟨houses.screen.symm, ?_, ?_⟩
  · intro name address plain located
    exact ⟨(houses.homes name address plain located).1, agrees.named name address plain located⟩
  · intro address word visible
    simp only [World.sight] at visible
    split at visible
    · cases visible
    · rename_i outside
      cases visible
      have outside := Bool.eq_false_iff.mpr outside
      exact ⟨.inr (houses.outside outside), agrees.words address outside⟩

/-- Agreement rests on addresses that code leaves alone. -/
theorem Agrees.frame (agrees : layout.Agrees settings world memory)
    (houses : layout.Houses settings used)
    (same : ∀ address, layout.Safe used address → other.read address = memory.read address) :
    layout.Agrees settings world other := by
  refine ⟨?_, ?_⟩
  · intro name address plain located
    rw [same address (.inl (houses.homes name address plain located).1)]
    exact agrees.named name address plain located
  · intro address outside
    rw [same address (.inr (houses.outside outside))]
    exact agrees.words address outside

/-- Where a word may be put is left alone by code. -/
theorem Houses.safe_of_put (houses : layout.Houses settings used) {place : Place} {word address : Word}
    (put : world.put settings word place = some world') (located : layout.locate? place = some address) :
    layout.Safe used address := by
  cases place with
  | named name =>
    simp only [locate?] at located
    split at located
    · cases located
    · rename_i plain
      exact .inl (houses.homes name address (Bool.eq_false_iff.mpr plain) located).1
  | cell cell =>
    cases located
    simp only [World.put] at put
    split at put
    · cases put
    · rename_i outside
      exact .inr (houses.outside (Bool.eq_false_iff.mpr outside))

/-- Writing at the address of a place is putting a word there. -/
theorem Agrees.put (agrees : layout.Agrees settings world memory)
    (houses : layout.Houses settings used) {place : Place} {word address : Word}
    (put : world.put settings word place = some world') (located : layout.locate? place = some address) :
    layout.Agrees settings world' (memory.write address word) := by
  cases place with
  | named name =>
    cases put
    simp only [locate?] at located
    split at located
    · cases located
    rename_i plain
    have plain := Bool.eq_false_iff.mpr plain
    refine ⟨?_, ?_⟩
    · intro otherName otherAddress otherPlain otherLocated
      by_cases same : otherName = name
      · subst same
        rw [otherLocated] at located
        cases located
        simp
      · have apart : address ≠ otherAddress := by
          rintro rfl
          exact same (houses.apart _ _ _ otherPlain plain otherLocated located)
        simp [apart, same, agrees.named _ _ otherPlain otherLocated]
    · intro otherAddress outside
      have apart : address ≠ otherAddress := by
        rintro rfl
        exact houses.outside outside (houses.homes name _ plain located).2
      simp [apart, agrees.words _ outside]
  | cell cell =>
    cases located
    simp only [World.put] at put
    split at put
    · cases put
    rename_i outside
    cases put
    refine ⟨?_, ?_⟩
    · intro name home plain located
      have apart : address ≠ home := by
        rintro rfl
        exact houses.outside (Bool.eq_false_iff.mpr outside) (houses.homes name _ plain located).2
      simp [apart, agrees.named _ _ plain located]
    · intro otherAddress otherOutside
      by_cases same : otherAddress = address
      · simp [same]
      · simp [same, Ne.symm same, agrees.words _ otherOutside]

end Layout

/-- What an outcome of a run comes to in the machine. A run that ends in a world leads behind the code
with a memory that agrees with it, and one that is not finished takes as many steps as there are
rounds. -/
def Layout.Achieves (layout : Layout) (settings : Settings) (image : Image) (point : Point)
    (finish rounds : Nat) : Outcome → Prop
  | .ok world => image.Leads 0 point fun after =>
      after.pc = finish ∧ layout.Agrees settings world after.memory
  | .error .unfinished => image.Leads rounds point fun _ => True
  | .error .stray => True

variable {layout : Layout} {settings : Settings} {used : Word → Prop} {image : Image} {point : Point}
  {world : World} {start middle finish rounds : Nat}

namespace Layout.Achieves

variable {outcome : Outcome}

/-- What is achieved behind other code is achieved. -/
theorem after {holds : Point → Prop} (first : image.Leads 0 point holds)
    (rest : ∀ behind, holds behind → layout.Achieves settings image behind finish rounds outcome) :
    layout.Achieves settings image point finish rounds outcome :=
  match outcome, rest with
  | .ok _, rest => first.andThen rest
  | .error .unfinished, rest => first.andThen rest
  | .error .stray, _ => trivial

/-- What is achieved with more rounds is achieved with fewer. -/
theorem fewer {less : Nat} (few : less ≤ rounds)
    (achieves : layout.Achieves settings image point finish rounds outcome) :
    layout.Achieves settings image point finish less outcome :=
  match outcome, achieves with
  | .ok _, achieves => achieves
  | .error .unfinished, achieves => achieves.weaken few fun _ _ => trivial
  | .error .stray, _ => trivial

/-- A step more is a round more. -/
theorem counted {next : Point} (reaches : image.Reaches 1 point next)
    (achieves : layout.Achieves settings image next finish rounds outcome) :
    layout.Achieves settings image point finish (rounds + 1) outcome :=
  match outcome, achieves with
  | .ok _, achieves => Image.Leads.step reaches achieves
  | .error .unfinished, achieves => Image.Leads.counted reaches achieves
  | .error .stray, _ => trivial

/-- One run after the other, where the second may have a layout of its own. -/
theorem bind {further : Layout} {next : World → Outcome}
    (first : layout.Achieves settings image point middle rounds outcome)
    (rest : ∀ world behind, outcome = .ok world → behind.pc = middle →
      layout.Agrees settings world behind.memory →
      further.Achieves settings image behind finish rounds (next world)) :
    further.Achieves settings image point finish rounds (outcome >>= next) :=
  match outcome, first, rest with
  | .ok _, first, rest => after first fun behind reached => rest _ behind rfl reached.1 reached.2
  | .error .unfinished, first, _ => first
  | .error .stray, _, _ => trivial

/-- Code behind a run that only goes elsewhere. -/
theorem onward (achieves : layout.Achieves settings image point middle rounds outcome)
    (goes : ∀ behind, behind.pc = middle → image.Leads 0 behind (· = behind.goto finish)) :
    layout.Achieves settings image point finish rounds outcome :=
  match outcome, achieves with
  | .ok _, achieves => Image.Leads.andThen achieves fun behind reached =>
      (goes behind reached.1).weaken (Nat.le_refl 0) fun _ there => by
        subst there
        exact ⟨rfl, reached.2⟩
  | .error .unfinished, achieves => achieves
  | .error .stray, _ => trivial

end Layout.Achieves

/-- Wherever code is loaded, it does in the machine what a run does in the world. -/
def Layout.Simulates (layout : Layout) (settings : Settings) (image : Image) (code : Listing)
    (rounds : Nat) (run : World → Outcome) : Prop :=
  ∀ start world point, image.Holds start code → start + code.span ≤ 65535 → point.pc = start →
    layout.Agrees settings world point.memory →
    layout.Achieves settings image point (start + code.span) rounds (run world)

/-- The code of an expression leaves a world as it is, with the value in register `a`. -/
private theorem ExprCode.simulates {expr : Expr} {tags tags' : Nat} {code : Listing}
    {next : Word → Outcome} (houses : layout.Houses settings used)
    (isCode : ExprCode layout used .value expr tags tags' code) (holds : image.Holds start code)
    (fits : start + code.span ≤ 65535) (stands : point.pc = start)
    (agrees : layout.Agrees settings world point.memory)
    (rest : ∀ word behind, behind.pc = start + code.span → behind.a = word →
      layout.Agrees settings world behind.memory →
      layout.Achieves settings image behind finish rounds (next word)) :
    layout.Achieves settings image point finish rounds
      (orStray (expr.value (world.sight settings)) >>= next) := by
  cases means : expr.value (world.sight settings) with
  | none => trivial
  | some word =>
    have leads := isCode.leads holds fits stands (agrees.shows houses) means
    refine .after leads fun behind leaves => ?_
    exact rest word behind leaves.pc leaves.a (agrees.frame houses leaves.memory)

/-- Code goes on where register `a` is one, and at a label elsewhere. -/
private theorem unlessHolds_achieves {label : String} {target : Nat} {outcome : Outcome}
    (holds : image.Holds start (unlessHolds label)) (stands : point.pc = start)
    (defined : image.labelIndex? label = some target) (small : target ≤ 65535)
    (behind : start + 1 < target)
    (goesOn : point.a = 1 → layout.Achieves settings image (point.goto (start + 2)) finish rounds outcome)
    (leaves : point.a ≠ 1 → layout.Achieves settings image (point.goto target) finish rounds outcome) :
    layout.Achieves settings image point finish rounds outcome := by
  subst stands
  simp only [unlessHolds, Image.holds_basic, Image.holds_jump] at holds
  obtain ⟨tested, jumped, _⟩ := holds
  by_cases one : point.a = 1
  · have fails : Opcode.ifn.passes point.a 1 = false := by simp [Opcode.passes, one]
    have reaches := Image.reaches_of_fails tested rfl rfl rfl fails jumped rfl
    refine .after (.step reaches (.here image rfl)) ?_
    rintro _ rfl
    exact goesOn one
  · have passes : Opcode.ifn.passes point.a 1 = true := by simp [Opcode.passes, one]
    have reaches := Image.reaches_of_passes tested rfl rfl rfl passes
    refine .after (.step reaches (.jump jumped defined small ?_ (.here image rfl))) ?_
    · simp only [Point.pc_goto]
      omega
    rintro _ rfl
    exact leaves one

/-- A place that code computes the address of has one. -/
private theorem ExprCode.located {target : Expr} {sight : Sight} {place : Place} {tags tags' : Nat}
    {code : Listing} (isCode : ExprCode layout used .address target tags tags' code)
    (screen : sight.screen = layout.screen) (placed : target.place sight = some place) :
    ∃ address, layout.locate? place = some address := by
  cases isCode with
  | @name _ _ _ name address _ found =>
    cases placed
    refine ⟨address, ?_⟩
    rw [← found]
    by_cases isScreen : Slots.isScreen name = true
    · simp [Sight.placeOf, isScreen, Layout.locate?, Layout.address?, screen]
    · simp [Sight.placeOf, isScreen, Layout.locate?, Layout.address?]
  | index _ _ _ =>
    simp only [Expr.place, Option.bind_eq_bind, Option.bind_eq_some_iff] at placed
    obtain ⟨offset, _, base, _, shifted⟩ := placed
    cases base with
    | named name => cases shifted
    | cell cell =>
      cases shifted
      exact ⟨_, rfl⟩

/-- The code of targets puts the word in the slot at each of their places. -/
private theorem TargetsCode.achieves {slot word : Word} {targets : List Expr} {tags tags' : Nat}
    {code : Listing} (isCode : TargetsCode layout (Taking slot used) slot targets tags tags' code)
    (houses : layout.Houses settings used) (spare : layout.Spare used slot)
    (holds : image.Holds start code) (fits : start + code.span ≤ 65535) (stands : point.pc = start)
    (kept : point.memory.read slot = word) (agrees : layout.Agrees settings world point.memory) :
    layout.Achieves settings image point (start + code.span) rounds
      (assignAll settings word targets world) := by
  induction isCode generalizing start point world with
  | nil => exact .here image ⟨by simpa using stands, agrees⟩
  | @cons target targets _ _ _ code rest isTarget _ ih =>
    simp only [Image.holds_append, Image.holds_set] at holds
    obtain ⟨targetHolds, stored, restHolds⟩ := holds
    simp only [Listing.span_append, Listing.span_set] at fits
    cases placed : target.place (world.sight settings) with
    | none =>
      simp only [assignAll, placed]
      trivial
    | some place =>
      have assigns : assignAll settings word (target :: targets) world =
          (orStray (world.put settings word place) >>= assignAll settings word targets) := by
        simp only [assignAll, placed]
        rfl
      rw [assigns]
      cases put : world.put settings word place with
      | none => trivial
      | some world' =>
        obtain ⟨address, located⟩ := isTarget.located houses.screen.symm placed
        have asked : Want.address.asked layout (world.sight settings) target = some address := by
          simp [Want.asked, placed, located]
        have leads := isTarget.leads targetHolds (by omega) stands ((agrees.shows houses).taking slot) asked
        refine .after leads fun behind leaves => ?_
        have slotKept : behind.memory.read slot = word := by
          rw [leaves.memory slot (.inl (.inl rfl)), kept]
        have agreesBehind : layout.Agrees settings world behind.memory :=
          agrees.frame houses fun address safe => leaves.memory address (safe.imp_left .inr)
        have apart : slot ≠ address := spare.ne_safe (houses.safe_of_put put located)
        have here := leaves.pc.symm ▸ stored
        have finish : start + code.span + 1 + rest.span =
            start + Listing.span (code ++ .set .atA (.memory slot) :: rest) := by
          simp only [Listing.span_append, Listing.span_set]
          omega
        refine .after (.storeAt here (congrArg some slotKept) (.here image rfl)) ?_
        rintro _ rfl
        rw [← finish, leaves.a]
        exact ih restHolds (by omega) (by simp [leaves.pc]) (by simp [apart.symm, slotKept])
          (agreesBehind.put houses put located)

/-- Code behind code runs one after the other. -/
private theorem Layout.Simulates.append {code more : Listing} {run next : World → Outcome}
    (first : layout.Simulates settings image code rounds run)
    (second : layout.Simulates settings image more rounds next) :
    layout.Simulates settings image (code ++ more) rounds fun world => run world >>= next := by
  intro start world point holds fits stands agrees
  rw [Image.holds_append] at holds
  rw [Listing.span_append] at fits ⊢
  rw [← Nat.add_assoc] at fits ⊢
  refine (first _ _ _ holds.1 (by omega) stands agrees).bind fun world behind _ pc agreesBehind => ?_
  exact second _ _ _ holds.2 fits pc agreesBehind

/-- The lines of a conditional run one of its bodies. -/
private theorem branchLines_simulates {tag : String} {test : Expr} {tags tags' : Nat}
    {testCode bodyCode otherCode : Listing} {body alternative : World → Outcome}
    (houses : layout.Houses settings used)
    (isTest : ExprCode layout used .value test tags tags' testCode)
    (simulatesBody : layout.Simulates settings image bodyCode rounds body)
    (simulatesOther : layout.Simulates settings image otherCode rounds alternative) :
    layout.Simulates settings image (branchLines tag testCode bodyCode otherCode) rounds fun world =>
      orStray (test.value (world.sight settings)) >>= fun word =>
        if word = 1 then body world else alternative world := by
  intro start world point holds fits stands agrees
  have span : (branchLines tag testCode bodyCode otherCode).span =
      testCode.span + (2 + (bodyCode.span + (1 + otherCode.span))) := by
    simp [branchLines, unlessHolds]
    omega
  simp only [branchLines, Image.holds_append, Image.holds_jump, Image.holds_label] at holds
  obtain ⟨testHolds, guardHolds, bodyHolds, jumped, otherwise, otherHolds, ending, _⟩ := holds
  have guardSpan : Listing.span (unlessHolds (Tag.alternative tag)) = 2 := rfl
  rw [guardSpan] at bodyHolds jumped otherwise otherHolds ending
  rw [span] at fits ⊢
  refine isTest.simulates houses testHolds (by omega) stands agrees fun word tested pc a agreesTested => ?_
  refine unlessHolds_achieves guardHolds pc otherwise (by omega) (by omega) ?_ ?_
  · intro one
    rw [if_pos (a ▸ one)]
    have bodyRuns := simulatesBody _ world (tested.goto _) bodyHolds (by omega) rfl agreesTested
    refine bodyRuns.onward fun behind pc => ?_
    rw [← pc] at jumped
    refine .jump jumped ending (by omega) (by omega) (.here image ?_)
    congr 1
    omega
  · intro other
    rw [if_neg (a ▸ other)]
    have otherRuns := simulatesOther _ world (tested.goto _) otherHolds (by omega) rfl agreesTested
    have finish : start + testCode.span + 2 + bodyCode.span + 1 + otherCode.span =
        start + (testCode.span + (2 + (bodyCode.span + (1 + otherCode.span)))) := by omega
    rwa [finish] at otherRuns

/-- The lines of a loop repeat its body while its test holds. -/
private theorem loopLines_simulate {tag : String} {test : Expr} {tags tags' : Nat}
    {testCode bodyCode : Listing} {body : World → Outcome} (houses : layout.Houses settings used)
    (isTest : ExprCode layout used .value test tags tags' testCode)
    (simulatesBody : layout.Simulates settings image bodyCode rounds body) {left : Nat}
    (few : left ≤ rounds) :
    layout.Simulates settings image (loopLines tag testCode bodyCode) left
      (repeatWhile (fun world => test.value (world.sight settings)) body left) := by
  intro start world point holds fits stands agrees
  have span : (loopLines tag testCode bodyCode).span =
      testCode.span + (2 + (bodyCode.span + 1)) := by
    simp [loopLines, unlessHolds]
    omega
  simp only [loopLines, Image.holds_append, Image.holds_jump, Image.holds_label] at holds
  obtain ⟨starts, testHolds, guardHolds, bodyHolds, jumped, ending, _⟩ := holds
  have guardSpan : Listing.span (unlessHolds (Tag.ending tag)) = 2 := rfl
  rw [guardSpan] at bodyHolds jumped ending
  rw [span] at fits ⊢
  induction left generalizing world point with
  | zero => exact .here image trivial
  | succ left ih =>
    refine isTest.simulates houses testHolds (by omega) stands agrees
      fun word tested pc a agreesTested => ?_
    refine unlessHolds_achieves guardHolds pc ending (by omega) (by omega) ?_ ?_
    · intro one
      simp only [if_pos (a ▸ one)]
      have bodyRuns := simulatesBody _ world (tested.goto _) bodyHolds (by omega) rfl agreesTested
      refine (bodyRuns.fewer few).bind fun world behind _ pc agreesBehind => ?_
      rw [← pc] at jumped
      have jumps := Image.reaches_jump jumped starts (by omega) (by omega)
      exact .counted jumps (ih (by omega) _ _ rfl agreesBehind)
    · intro other
      simp only [if_neg (a ▸ other)]
      refine .here image ⟨?_, agreesTested⟩
      simp only [Point.pc_goto]
      omega

mutual

/-- The code of a statement runs it. -/
theorem StmtCode.simulates {statement : Stmt} {tags tags' : Nat} {code : Listing}
    (isCode : StmtCode layout used statement tags tags' code) (houses : layout.Houses settings used) :
    layout.Simulates settings image code rounds (statement.run settings rounds) := by
  cases isCode with
  | branch isTest isBody isOther =>
    simp only [Stmt.run]
    exact branchLines_simulates houses isTest (isBody.simulates houses) (isOther.simulates houses)
  | whileLoop isTest isBody =>
    simp only [Stmt.run]
    exact loopLines_simulate houses isTest (isBody.simulates houses) (Nat.le_refl rounds)
  | forLoop isInit isTest isBody isStep =>
    simp only [Stmt.run]
    have simulatesRound := (isBody.simulates houses).append (isStep.simulates houses)
    exact (isInit.simulates houses).append
      (loopLines_simulate houses isTest simulatesRound (Nat.le_refl rounds))
  | @assign _ targets value _ _ _ slot valueCode targetsCode isValue spare isTargets =>
    intro start world point holds fits stands agrees
    simp only [Image.holds_append, Image.holds_set] at holds
    obtain ⟨valueHolds, kept, targetsHolds⟩ := holds
    have finish : start + Listing.span (valueCode ++ .set (.memory slot) .a :: targetsCode) =
        start + valueCode.span + 1 + targetsCode.span := by
      simp only [Listing.span_append, Listing.span_set]
      omega
    rw [finish] at fits ⊢
    simp only [Stmt.run]
    cases means : value.value (world.sight settings) with
    | none => trivial
    | some word =>
      have leads := (isValue.leads valueHolds (by omega) stands (agrees.shows houses) means).weaken
        (Nat.le_refl _) fun _ leaves => leaves.settles
      refine .after (leads.keep spare kept fun kept keptPc keptSlot keptMemory =>
        .here image (And.intro keptPc (And.intro (keptSlot word rfl) keptMemory))) ?_
      rintro kept ⟨keptPc, keptSlot, keptMemory⟩
      exact isTargets.achieves houses spare targetsHolds fits keptPc keptSlot
        (agrees.frame houses keptMemory)
  | evaluate isValue =>
    intro start world point holds fits stands agrees
    simp only [Stmt.run]
    refine isValue.simulates houses holds fits stands agrees fun word behind pc _ agreesBehind => ?_
    exact .here image ⟨pc, agreesBehind⟩

/-- The code of statements runs them one after the other. -/
theorem BlockCode.simulates {statements : List Stmt} {tags tags' : Nat} {code : Listing}
    (isCode : BlockCode layout used statements tags tags' code) (houses : layout.Houses settings used) :
    layout.Simulates settings image code rounds (runAll settings rounds statements) := by
  cases isCode with
  | nil =>
    intro start world point _ _ stands agrees
    exact .here image ⟨stands, agrees⟩
  | cons isStatement isRest =>
    simp only [runAll]
    exact (isStatement.simulates houses).append (isRest.simulates houses)

end

end Dcpu
