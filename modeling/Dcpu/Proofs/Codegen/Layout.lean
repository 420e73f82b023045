import Dcpu.Proofs.Codegen.Acceptance
import Dcpu.Proofs.Source.Layout

/-! # Layout does not affect the code

Source texts may differ in blanks, comments, line breaks, the spellings of numbers and those of the
connectives. If their tokens are else the same, they have the same tree up to positions, and positions
reach nothing of a compilation but its errors.
-/

namespace Dcpu

open Source Effects

/-- Compiling a program beside compiling it with other positions, with the same allocator. -/
def displacing (place : Position → Position) : Twin where
  wording := ⟨place, id⟩
  address := id
  slots := .same
  slot _ := True
  blames := rfl
  acquire := (follows_self _).imp fun _ _ same => ⟨trivial, same.symm⟩
  release := by
    rintro slots _ address rfl _
    rfl
  openChild _ := follows_self _
  close _ := (follows_self _).imp fun _ _ _ => trivial
  special := by
    rintro slots _ rfl name
    rw [Option.map_id]
    rfl
  resolve _ _ _ := (follows_self _).imp fun _ _ same => same ▸ rfl

theorem Listing.readdressed_id (listing : Listing) : listing.readdressed id = listing := by
  have unchanged (operand : Operand) : operand.readdressed id = operand := by cases operand <;> rfl
  have kept (line : Line) : line.readdressed id = line := by
    cases line with
    | label name => rfl
    | instruction body => cases body <;> simp [Line.readdressed, Instruction.readdressed, unchanged]
  exact (List.map_congr_left fun line _ => kept line).trans (List.map_id listing)

/-- With other positions, a program has the same code or the same error at its other position. -/
theorem Context.result_compile_displaced (context : Context) (haltLoop : Bool) (program : Program)
    (place : Position → Position) : (context.compile haltLoop (rewordedIn ⟨place, id⟩ program)).result =
      (context.compile haltLoop program).result.mapError (CompileError.blamedOn place) := by
  have ended := @Twin.compile_result (displacing place) context context rfl rfl haltLoop program
  cases compiled : (context.compile haltLoop program).result with
  | ok listing =>
    rw [compiled] at ended
    exact ended.trans (congrArg _ listing.readdressed_id)
  | error error =>
    rw [compiled] at ended
    obtain ⟨_, _, _, impossible⟩ | failed := ended
    · cases impossible
    · exact failed

/-- Without positions, a program has the same code or the same error up to its position. -/
theorem Context.result_compile_unplaced (context : Context) (haltLoop : Bool) (program : Program) :
    (context.compile haltLoop (program.map Stmt.unplaced)).result =
      (context.compile haltLoop program).result.mapError (CompileError.blamedOn fun _ => .nowhere) := by
  have unplaced : program.map Stmt.unplaced = rewordedIn .displaced program :=
    (rewordedIn_eq_map .displaced program).symm
  rw [unplaced]
  exact context.result_compile_displaced haltLoop program fun _ => .nowhere

namespace CompileError

theorem kind_displaced (error : CompileError) : error.displaced.kind = error.kind := by
  cases error with
  | slots refusal position => cases refusal <;> rfl
  | _ => rfl

theorem displaced_blamedOn (place : Position → Position) (error : CompileError) :
    (error.blamedOn place).displaced = error.displaced := by
  cases error <;> rfl

end CompileError

/-- Programs that differ only in positions have the same code, or the same error up to its position. -/
theorem compileProgram_congr {program other : Program}
    (same : program.map Stmt.unplaced = other.map Stmt.unplaced) (settings : Settings) :
    (compileProgram settings program).result.mapError CompileError.displaced =
      (compileProgram settings other).result.mapError CompileError.displaced := by
  cases valid : settings.validate with
  | error error => simp [compileProgram, valid]
  | ok =>
    have forgets (result : Except CompileError Listing) :
        (result.mapError (CompileError.blamedOn fun _ => .nowhere)).mapError CompileError.displaced =
          result.mapError CompileError.displaced := by
      cases result with
      | ok listing => rfl
      | error error => exact congrArg Except.error (error.displaced_blamedOn _)
    have compiled := (Context.new settings).result_compile_unplaced settings.haltLoop program
    rw [same, Context.result_compile_unplaced] at compiled
    rw [result_compileProgram valid, result_compileProgram valid, ← forgets, ← compiled, forgets]

/-- A compilation scans, reads and then generates, and stops at the first error. -/
theorem result_compile (settings : Settings) (source : String) : (compile settings source).result =
    scan source >>= Program.ofTokens >>= fun program => (compileProgram settings program).result := by
  rw [compile, readSource]
  cases scan source with
  | error error => rfl
  | ok tokens =>
    change _ = Program.ofTokens tokens >>= _
    dsimp only
    cases Program.ofTokens tokens with
    | error error => rfl
    | ok program => rfl

/-- Sources with the same tokens compile alike, whichever way their connectives are spelled, and up to the
positions of errors. -/
theorem result_compile_congr {source other : String} {tokens others : List Token}
    (scanned : scan source = .ok tokens) (otherScanned : scan other = .ok others)
    (same : tokens.map (·.kind.canonical) = others.map (·.kind.canonical)) (settings : Settings) :
    (compile settings source).result.mapError CompileError.displaced =
      (compile settings other).result.mapError CompileError.displaced := by
  have read := Program.forgotten_ofTokens same
  rw [result_compile, result_compile, scanned, otherScanned]
  change (Program.ofTokens tokens >>= _).mapError _ = (Program.ofTokens others >>= _).mapError _
  cases parsed : Program.ofTokens tokens with
  | error error =>
    cases otherParsed : Program.ofTokens others with
    | error error' =>
      rw [parsed, otherParsed] at read
      exact congrArg Except.error (Except.error.inj read)
    | ok program' =>
      rw [parsed, otherParsed] at read
      cases read
  | ok program =>
    cases otherParsed : Program.ofTokens others with
    | error error' =>
      rw [parsed, otherParsed] at read
      cases read
    | ok program' =>
      rw [parsed, otherParsed] at read
      exact compileProgram_congr (Except.ok.inj read) settings

/-- Two source texts with the same tokens, but for their places and the spellings of connectives, have the
same code, or the same error up to what it tells of the place. -/
theorem compile_ignores_layout {source other : String} {tokens others : List Token}
    (scanned : scan source = .ok tokens) (otherScanned : scan other = .ok others)
    (same : tokens.map (·.kind.canonical) = others.map (·.kind.canonical)) (settings : Settings) :
    (∃ listing, (compile settings source).result = .ok listing ∧
        (compile settings other).result = .ok listing) ∨
      ∃ error error', (compile settings source).result = .error error ∧
        (compile settings other).result = .error error' ∧ error.kind = error'.kind ∧
        error.displaced = error'.displaced := by
  have agree := result_compile_congr scanned otherScanned same settings
  cases compiled : (compile settings source).result with
  | ok listing =>
    cases otherCompiled : (compile settings other).result with
    | ok listing' =>
      rw [compiled, otherCompiled] at agree
      cases Except.ok.inj agree
      exact .inl ⟨listing, rfl, rfl⟩
    | error error' =>
      rw [compiled, otherCompiled] at agree
      cases agree
  | error error =>
    cases otherCompiled : (compile settings other).result with
    | ok listing' =>
      rw [compiled, otherCompiled] at agree
      cases agree
    | error error' =>
      rw [compiled, otherCompiled] at agree
      have told := Except.error.inj agree
      refine .inr ⟨error, error', rfl, rfl, ?_, told⟩
      rw [← error.kind_displaced, told, error'.kind_displaced]

def tenAndNot : Listing :=
  [ .set .a (.literal 10), .basic .ife .a (.literal 0), .jump "boolop1skip",
    .set .a (.memory 0x2000), .basic .xor .a (.literal 1), .label "boolop1skip",
    .set (.memory 0x2001) .a, .set .a (.address 0x2002), .set .atA (.memory 0x2001),
    .label "end", .jump "end" ]

theorem compile_ignores_layout_commented :
    let source := "x = 0x0A && !y; // ten"
    let other := "# ten\nx=10 and\n not y;"
    (compile {} source).result = .ok tenAndNot ∧ (compile {} other).result = .ok tenAndNot := by
  intro source other
  have scanned : scan source = .ok ((scan source).toOption.getD []) := by decide +kernel
  have otherScanned : scan other = .ok ((scan other).toOption.getD []) := by decide +kernel
  have same : ((scan source).toOption.getD []).map (·.kind.canonical) =
      ((scan other).toOption.getD []).map (·.kind.canonical) := by decide +kernel
  have compiled : (compile {} source).result = .ok tenAndNot := by decide +kernel
  obtain ⟨listing, found, otherCompiled⟩ | ⟨error, _, failed, _⟩ :=
    compile_ignores_layout scanned otherScanned same {}
  · cases compiled.symm.trans found
    exact ⟨compiled, otherCompiled⟩
  · cases compiled.symm.trans failed

end Dcpu
