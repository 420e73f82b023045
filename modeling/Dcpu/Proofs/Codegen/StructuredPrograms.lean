import Dcpu.Proofs.Codegen.Prelude

/-! # Structured programs run as written

The code of a structured program does in the machine what the program means: where the program comes
to an end, the machine halts with the variables at their addresses and all words where they belong,
and where the program goes on forever, so does the machine.
-/

namespace Dcpu

open Source Effects Gen

mutual

/-- A structured statement defines no routine. -/
private theorem definitions_of_structured {statement : Stmt} (structured : statement.isStructured = true) :
    statement.definitions = [] := by
  cases statement with
  | routine position name body => simp [Stmt.isStructured] at structured
  | branch position test body alternative =>
    simp only [Stmt.isStructured, Bool.and_eq_true] at structured
    simp [Stmt.definitions, definitionsIn_of_structured structured.1.2,
      definitionsIn_of_structured structured.2]
  | whileLoop position test body =>
    simp only [Stmt.isStructured, Bool.and_eq_true] at structured
    simp [Stmt.definitions, definitionsIn_of_structured structured.2]
  | forLoop position init test step body =>
    simp only [Stmt.isStructured, Bool.and_eq_true] at structured
    simp [Stmt.definitions, definitionsIn_of_structured structured.2]
  | ret position value => rfl
  | assign position targets value => rfl
  | evaluate position value => rfl

/-- Structured statements define no routine. -/
private theorem definitionsIn_of_structured {statements : List Stmt}
    (structured : blockStructured statements = true) : definitionsIn statements = [] := by
  cases statements with
  | nil => rfl
  | cons statement statements =>
    simp only [blockStructured, Bool.and_eq_true] at structured
    simp [definitionsIn, definitions_of_structured structured.1,
      definitionsIn_of_structured structured.2]

end

/-- The lines behind a program that keep the machine where it is. -/
def haltLines : Listing := [.label endLabel, .jump endLabel]

/-- The listing of a structured program is code that performs it, with a halt loop behind. -/
private theorem compileProgram_performs {settings : Settings} {program : Program} {listing : Listing}
    (structured : program.isStructured = true) (haltLoop : settings.haltLoop = true)
    (compiled : (compileProgram settings program).result = .ok listing) :
    ∃ (state after : Emission) (code : Listing), state.context = .new settings ∧
      state.Performs settings program code after ∧
      (compileProgram settings program).context.slots = after.context.slots ∧
      listing = code ++ haltLines := by
  simp only [Program.isStructured, Bool.and_eq_true, List.all_eq_true, Bool.or_eq_true,
    List.contains_iff_mem] at structured
  obtain ⟨isStructured, initialised⟩ := structured
  obtain ⟨after, ran, rfl, context⟩ := compileProgram_eq_ok compiled
  simp only [programCode, definitionsIn_of_structured isStructured, registerRoutines] at ran
  obtain ⟨_, begun, registered, rest⟩ := bind_eq_ok_iff.mp ran
  cases registered
  obtain ⟨_, state, noted, rest⟩ := bind_eq_ok_iff.mp rest
  rw [record_apply] at noted
  cases noted
  obtain ⟨_, middle, blockRan, rest⟩ := bind_eq_ok_iff.mp rest
  have covered : ∀ name ∈ namesOfBlock program, Slots.isScreen name = false →
      ((Context.new settings).slots.visible? name 0).isSome ∨ name ∈ initialisedNames program := by
    intro name member plain
    exact .inr ((initialised name member).resolve_left (by simp [plain]))
  have flat : (Context.new settings).slots.Flat := fun binding live =>
    absurd live (Slots.not_live_new _ _ _ binding)
  have fits : (Context.new settings).slots.Fits settings := ⟨rfl, rfl, rfl⟩
  obtain ⟨code, performs⟩ :=
    blockCode_performs blockRan (Slots.consistent_new _ _ _) flat fits isStructured covered
  simp only [haltLoop, List.contains_nil, Bool.not_false, Bool.and_self, if_true] at rest
  obtain ⟨_, _, appended, rest⟩ := bind_eq_ok_iff.mp rest
  rw [record_apply] at appended
  cases appended
  obtain ⟨_, _, labelled, rest⟩ := bind_eq_ok_iff.mp rest
  rw [emit_apply] at labelled rest
  cases labelled
  cases rest
  refine ⟨_, middle, code, rfl, performs, by rw [context]; rfl, ?_⟩
  have empty : (Emission.start (.new settings)).listing = [] := rfl
  simp [Emission.listing_noted, Event.line?, performs.listing, haltLines, empty]

/-- A listing that ends in a halt loop is loaded. -/
private theorem load_haltLines {code : Listing} {tags : Nat}
    (labelled : ∀ outside, code.Labelled outside 0 tags) :
    ∃ image, Image.load (code ++ haltLines) = .ok image ∧ image.Holds 0 (code ++ haltLines) := by
  have labels : Listing.labels (code ++ haltLines) = code.labels ++ [endLabel] := by
    rw [Listing.labels, List.filterMap_append]
    rfl
  have fresh : endLabel ∉ code.labels := (labelled []).fresh (by decide)
  have distinct : (Listing.labels (code ++ haltLines)).Nodup := by
    rw [labels, List.nodup_append]
    refine ⟨(labelled []).distinct, by simp, ?_⟩
    rintro name member _ same rfl
    rw [List.mem_singleton.mp same] at member
    exact fresh member
  have covered : ∀ body ∈ Listing.instructions (code ++ haltLines), ∀ name,
      .label name ∈ body.operands → name ∈ Listing.labels (code ++ haltLines) := by
    intro body member name named
    have isTarget : name ∈ Listing.targets (code ++ haltLines) :=
      List.mem_flatMap.mpr ⟨body, member, List.mem_filterMap.mpr ⟨_, named, rfl⟩⟩
    have targets : Listing.targets (code ++ haltLines) = code.targets ++ [endLabel] := by
      rw [Listing.targets, Listing.instructions, List.filterMap_append, List.flatMap_append]
      rfl
    rw [labels, List.mem_append]
    rw [targets, List.mem_append] at isTarget
    refine isTarget.imp_left fun member => ?_
    exact ((labelled []).closed name member).resolve_right List.not_mem_nil
  obtain ⟨image, loaded, holds, _⟩ := Image.load_of_labels distinct covered
  exact ⟨image, loaded, holds⟩

/-- At a halt loop the machine halts in one more step. -/
private theorem runs_to_halt {image : Image} {code : Listing} {held : Memory → Prop}
    (holds : image.Holds 0 (code ++ haltLines)) (fits : Listing.span (code ++ haltLines) ≤ 65535)
    (leads : image.Leads 0 Machine.start.point fun after => after.pc = code.span ∧ held after.memory) :
    ∃ steps machine, image.Runs steps .start machine ∧ machine.halted = true ∧
      machine.steps = Machine.start.steps + steps ∧ held machine.memory := by
  obtain ⟨count, target, _, reaches, pc, heldThere⟩ := leads
  simp only [haltLines, Image.holds_append, Image.holds_label, Image.holds_jump, Nat.zero_add] at holds
  obtain ⟨_, defined, fetched, _⟩ := holds
  rw [← pc] at defined fetched
  have small : target.pc < 65536 := by
    simp only [haltLines, Listing.span_append, Listing.span_label, Listing.span_jump] at fits
    omega
  let there := Machine.start.moved target count
  have runs : image.Runs count .start there := reaches .start rfl rfl
  have running : there.halted = false := rfl
  have stops := Image.step_jump_self fetched defined small rfl running (by simp [there])
  refine ⟨count + 1, _, runs.trans (.next running stops (.done _)), rfl, ?_, heldThere⟩
  simp [there, Machine.moved, Nat.add_assoc]

/-- A machine has the variables of a program at the addresses that its compilation gave them, and the
words outside the range of variables, as they are in a world. -/
structure Compilation.Shows (compilation : Compilation) (settings : Settings) (program : Program)
    (world : World) (machine : Machine) : Prop where
  named : ∀ name ∈ namesOfBlock program, Slots.isScreen name = false →
    ∃ binding, compilation.context.slots.visible? name 0 = some binding ∧
      machine.memory.read binding.address = world.store name
  words : ∀ address, settings.inRange address = false →
    machine.memory.read address = world.words address

/-- What an outcome of a program comes to in the machine: a run to a halt that shows the world, or a
run with as many steps as there were rounds. -/
def Compilation.RunsTo (compilation : Compilation) (settings : Settings) (program : Program)
    (image : Image) (rounds : Nat) : Outcome → Prop
  | .ok world => ∃ steps machine, image.Runs steps .start machine ∧ machine.halted = true ∧
      machine.steps = Machine.start.steps + steps ∧ compilation.Shows settings program world machine
  | .error .unfinished => ∃ steps machine, image.Runs steps .start machine ∧ rounds ≤ steps
  | .error .stray => True

/-- The machine runs to every outcome of a structured program. -/
theorem compileProgram_runsTo {settings : Settings} {program : Program} {listing : Listing}
    (structured : program.isStructured = true) (haltLoop : settings.haltLoop = true)
    (compiled : (compileProgram settings program).result = .ok listing)
    (fits : listing.instructions.length ≤ 65535) :
    ∃ image, Image.load listing = .ok image ∧ ∀ rounds,
      (compileProgram settings program).RunsTo settings program image rounds
        (program.outcome settings rounds) := by
  obtain ⟨state, after, code, context, performs, slots, rfl⟩ :=
    compileProgram_performs structured haltLoop compiled
  have labelled : ∀ outside, code.Labelled outside 0 after.context.tags := by
    intro outside
    have labelled := performs.labelled outside
    rwa [context] at labelled
  obtain ⟨image, loaded, holds⟩ := load_haltLines labelled
  refine ⟨image, loaded, fun rounds => ?_⟩
  have agrees : (state.context.slots.layout 0).Agrees settings .start Machine.start.point.memory :=
    ⟨fun _ _ _ _ => Memory.read_empty _, fun _ _ => Memory.read_empty _⟩
  have small : 0 + code.span ≤ 65535 := by
    have fits : Listing.span (code ++ haltLines) ≤ 65535 := fits
    rw [Listing.span_append] at fits
    omega
  have achieves := performs.simulates image rounds 0 .start Machine.start.point
    ((image.holds_append _ _ _).mp holds).1 small rfl agrees
  rw [Nat.zero_add] at achieves
  rw [Program.outcome]
  match runAll settings rounds program .start, achieves with
  | .ok world, achieves =>
    obtain ⟨steps, machine, runs, halted, counted, agrees⟩ := runs_to_halt holds fits achieves
    refine ⟨steps, machine, runs, halted, counted, ?_, agrees.words⟩
    intro name member plain
    obtain ⟨binding, seen⟩ := Option.isSome_iff_exists.mp (performs.known name member plain)
    refine ⟨binding, slots ▸ seen, agrees.named name binding.address plain ?_⟩
    simp [Slots.layout, seen]
  | .error .unfinished, ⟨count, _, enough, reaches, _⟩ => exact ⟨count, _, reaches .start rfl rfl, enough⟩
  | .error .stray, _ => trivial

/-- A structured program runs as written. Where the program comes to an end, the machine halts after
a number of steps with the variables and the words that the program leaves, and gives up under every
lower limit. Where no number of rounds is enough for the program, the machine gives up under every
limit. So if the program does not stray, the machine halts exactly if the program comes to an end. -/
theorem compiled_program_runs_as_written {settings : Settings} {program : Program} {listing : Listing}
    (structured : program.isStructured = true) (haltLoop : settings.haltLoop = true)
    (compiled : (compileProgram settings program).result = .ok listing)
    (fits : listing.instructions.length ≤ 65535) :
    ∃ image, Image.load listing = .ok image ∧
      (∀ rounds world, program.outcome settings rounds = .ok world →
        ∃ steps machine, machine.halted = true ∧
          (compileProgram settings program).Shows settings program world machine ∧
          (∀ limit, steps ≤ limit → image.run limit .start = .ok steps machine) ∧
          ∀ limit, limit < steps → ∃ stuck : Machine,
            image.run limit .start = .error (.stepLimit limit stuck.pc) stuck) ∧
      ((∀ rounds, program.outcome settings rounds = .error .unfinished) → ∀ limit, ∃ stuck : Machine,
        image.run limit .start = .error (.stepLimit limit stuck.pc) stuck) ∧
      ((∀ rounds, program.outcome settings rounds ≠ .error .stray) →
        ((∃ limit steps machine, image.run limit .start = .ok steps machine) ↔
          ∃ rounds world, program.outcome settings rounds = .ok world)) := by
  obtain ⟨image, loaded, runsTo⟩ := compileProgram_runsTo structured haltLoop compiled fits
  have ends : ∀ rounds world, program.outcome settings rounds = .ok world →
      ∃ steps machine, image.Runs steps .start machine ∧ machine.halted = true ∧
        machine.steps = Machine.start.steps + steps ∧
        (compileProgram settings program).Shows settings program world machine := by
    intro rounds world outcome
    have runs := runsTo rounds
    rwa [outcome] at runs
  have goesOn : (∀ rounds, program.outcome settings rounds = .error .unfinished) → ∀ limit,
      ∃ stuck : Machine, image.run limit .start = .error (.stepLimit limit stuck.pc) stuck := by
    intro unfinished limit
    have runs := runsTo (limit + 1)
    rw [unfinished] at runs
    obtain ⟨steps, machine, runs, enough⟩ := runs
    exact runs.run_of_lt enough
  refine ⟨image, loaded, ?_, goesOn, ?_⟩
  · intro rounds world outcome
    obtain ⟨steps, machine, runs, halted, counted, shows⟩ := ends rounds world outcome
    exact ⟨steps, machine, halted, shows, fun limit enough => runs.run_of_halted halted counted enough,
      fun limit short => runs.run_of_lt short⟩
  · intro straight
    constructor
    · rintro ⟨limit, steps, machine, ran⟩
      by_contra endless
      have unfinished : ∀ rounds, program.outcome settings rounds = .error .unfinished := by
        intro rounds
        match outcome : program.outcome settings rounds with
        | .ok world => exact absurd ⟨rounds, world, outcome⟩ endless
        | .error .unfinished => rfl
        | .error .stray => exact absurd outcome (straight rounds)
      obtain ⟨stuck, givenUp⟩ := goesOn unfinished limit
      rw [ran] at givenUp
      cases givenUp
    · rintro ⟨rounds, world, outcome⟩
      obtain ⟨steps, machine, runs, halted, counted, _⟩ := ends rounds world outcome
      exact ⟨steps, steps, machine, runs.run_of_halted halted counted (Nat.le_refl steps)⟩

/-- Sum up the numbers below four in a loop and put the sum on the screen. -/
def countdown : Program :=
  let x := Expr.name default "x"
  let sum := Expr.name default "sum"
  let literal (value : Word) := Expr.number default value
  [ .assign default [x] (literal 3),
    .assign default [sum] (literal 0),
    .whileLoop default (.compare default x [(.greater, literal 0)])
      [ .assign default [sum] (.binary default .add sum x),
        .assign default [x] (.binary default .sub x (literal 1)) ],
    .assign default [.index default (.name default "SCREEN") (literal 2)] sum ]

theorem compiled_countdown_runs_as_written : ∃ listing image steps machine,
    countdown.isStructured = true ∧ (compileProgram {} countdown).result = .ok listing ∧
      listing.instructions.length ≤ 65535 ∧ Image.load listing = .ok image ∧
      image.run steps .start = .ok steps machine ∧ machine.halted = true ∧
      machine.memory.read 0x8002 = 6 := by
  have structured : countdown.isStructured = true := by decide
  have length : (compileProgram {} countdown).result.toOption.map (·.instructions.length) = some 42 := by
    decide +kernel
  have sum : (countdown.outcome {} 4).toOption.map (·.words 0x8002) = some 6 := by decide +kernel
  match compiled : (compileProgram {} countdown).result, outcome : countdown.outcome {} 4 with
  | .error error, _ =>
    rw [compiled] at length
    cases length
  | _, .error stop =>
    rw [outcome] at sum
    cases sum
  | .ok listing, .ok world =>
    rw [compiled] at length
    rw [outcome] at sum
    have fits : listing.instructions.length ≤ 65535 := by
      have length : listing.instructions.length = 42 := Option.some.inj length
      omega
    obtain ⟨image, loaded, ends, _⟩ := compiled_program_runs_as_written structured rfl compiled fits
    obtain ⟨steps, machine, halted, shows, ran, _⟩ := ends 4 world outcome
    exact ⟨listing, image, steps, machine, structured, rfl, fits, loaded, ran steps (Nat.le_refl steps),
      halted, (shows.words 0x8002 (by decide)).trans (Option.some.inj sum)⟩

end Dcpu
