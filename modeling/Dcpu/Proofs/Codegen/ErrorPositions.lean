import Dcpu.Proofs.Codegen.Layout
import Dcpu.Proofs.Source.PlacedReading
import Dcpu.Proofs.Source.Rejections

/-! # Errors are blamed on places in the source

Code generation takes positions from the tree alone: with other positions it does the same and blames the others.
So the position of an error is one of the tree, and these are positions of tokens. Together with the places where
scanning and reading fail, every position that an error names is that of a token, or else that of what cannot be
read as a token.
-/

namespace Dcpu

open Source Effects

namespace Source

variable {place : Position → Position} {text : List Token}

/-- Positions that are those of tokens stay where the tokens stay. -/
theorem fixed_of_lead? {position : Position} (fixed : ∀ token ∈ text, place token.position = token.position)
    (leads : lead? text = some position) : place position = position := by
  obtain ⟨token, member, rfl⟩ := exists_mem_of_lead? leads
  exact fixed token member

/-- The position where a text begins is kept when the positions of its tokens are. -/
theorem fixed_of_start? {position : Position} (fixed : ∀ token ∈ text, place token.position = token.position)
    (starts : start? text = some position) : place position = position := by
  obtain ⟨token, member, rfl⟩ := exists_mem_of_start? starts
  exact fixed token member

theorem Link.mem_row {α : Type} {links : List (Link α)} {link : Link α} (isLink : link ∈ links) {token : Token}
    (member : token ∈ link.text) : token ∈ Link.row links :=
  List.mem_flatMap.mpr ⟨link, isLink, .tail _ member⟩

theorem mem_bodyText {body : List (List Token × Stmt)} {part : List Token × Stmt} (isPart : part ∈ body)
    {token : Token} (member : token ∈ part.1) : token ∈ bodyText body :=
  List.mem_flatMap.mpr ⟨part, isPart, member⟩

/-- A change of positions that leaves the tokens where they are leaves the expressions among them. -/
theorem Expr.Placed.reworded {expr : Expr} (placed : expr.Placed text)
    (fixed : ∀ token ∈ text, place token.position = token.position) : expr.reworded ⟨place, id⟩ = expr := by
  induction placed with
  | number _ leads | name _ leads => simp [Expr.reworded, fixed_of_lead? fixed leads]
  | parenthesised _ encloses ih =>
    obtain ⟨left, right, _, _, rfl⟩ := encloses
    exact ih fun token member => fixed token (by simp [member])
  | index _ _ encloses leads ihBase ihIndex =>
    have here := fixed_of_lead? fixed leads
    obtain ⟨left, right, _, _, rfl⟩ := encloses
    have base := ihBase fun token member => fixed token (by simp [member])
    have index := ihIndex fun token member => fixed token (by simp [member])
    simp only [Expr.reworded, here, base, index]
  | call _ _ leads => simp only [Expr.reworded, fixed_of_lead? fixed leads]
  | unary _ _ leads ih =>
    have operand := ih fun token member => fixed token (by simp [member])
    simp only [Expr.reworded, fixed_of_lead? fixed leads, operand]
  | binary _ _ _ leads ihLeft ihRight =>
    have left := ihLeft fun token member => fixed token (by simp [member])
    have right := ihRight fun token member => fixed token (by simp [member])
    simp only [Expr.reworded, fixed_of_lead? fixed leads, left, right]
  | @logical op text first links position _ _ _ leads ihFirst ihLinks =>
    have sameFirst := ihFirst fun token member => fixed token (by simp [member])
    have operands (link : Link Unit) (isLink : link ∈ links) : link.operand.reworded ⟨place, id⟩ = link.operand :=
      ihLinks link isLink fun token member => fixed token (by simp [Link.mem_row isLink member])
    have sameOperands : links.map (Expr.reworded ⟨place, id⟩ ∘ Link.operand) = links.map Link.operand :=
      List.map_congr_left operands
    simp only [Expr.reworded, fixed_of_lead? fixed leads, rewordedAll_eq_map, List.map_cons, List.map_map, sameFirst,
      sameOperands]
  | @compare text first links position _ _ _ leads ihFirst ihLinks =>
    have sameFirst := ihFirst fun token member => fixed token (by simp [member])
    have operands (link : Link Relation) (isLink : link ∈ links) :
        link.operand.reworded ⟨place, id⟩ = link.operand :=
      ihLinks link isLink fun token member => fixed token (by simp [Link.mem_row isLink member])
    have sameStages : links.map (Prod.map id (Expr.reworded ⟨place, id⟩) ∘ fun link => (link.mark, link.operand)) =
        links.map fun link => (link.mark, link.operand) :=
      List.map_congr_left fun link isLink => congrArg (Prod.mk link.mark) (operands link isLink)
    simp only [Expr.reworded, fixed_of_lead? fixed leads, rewordedStages_eq_map, List.map_map, sameFirst, sameStages]

theorem Stmt.PlacedSimple.reworded {statement : Stmt} (placed : statement.PlacedSimple text)
    (fixed : ∀ token ∈ text, place token.position = token.position) :
    statement.reworded ⟨place, id⟩ = statement := by
  cases placed with
  | evaluate placed starts => simp only [Stmt.reworded, fixed_of_start? fixed starts, placed.reworded fixed]
  | @assign text first value targets links position placed _ operands same starts =>
    have here := fixed_of_start? fixed starts
    have kept : ∀ expr ∈ targets ++ [value], expr.reworded ⟨place, id⟩ = expr := by
      rw [← same]
      intro expr member
      obtain rfl | member := List.mem_cons.mp member
      · exact placed.reworded fun token member => fixed token (by simp [member])
      · obtain ⟨link, isLink, rfl⟩ := List.mem_map.mp member
        exact (operands link isLink).reworded fun token member => fixed token (by simp [Link.mem_row isLink member])
    have keptTargets : targets.map (Expr.reworded ⟨place, id⟩) = targets :=
      (List.map_congr_left fun expr member => kept expr (by simp [member])).trans (List.map_id' targets)
    simp only [Stmt.reworded, here, rewordedAll_eq_map, keptTargets, kept value (by simp)]

theorem Expr.Placed.reworded_enclosed {expr : Expr} {inside : List Token} {opening closing : TokenKind}
    (placed : expr.Placed inside) (encloses : Encloses opening closing inside text)
    (fixed : ∀ token ∈ text, place token.position = token.position) : expr.reworded ⟨place, id⟩ = expr := by
  obtain ⟨left, right, _, _, rfl⟩ := encloses
  exact placed.reworded fun token member => fixed token (by simp [member])

theorem rewordedIn_enclosed {body : List (List Token × Stmt)} {opening closing : TokenKind}
    (encloses : Encloses opening closing (bodyText body) text)
    (fixed : ∀ token ∈ text, place token.position = token.position)
    (kept : ∀ part ∈ body, (∀ token ∈ part.1, place token.position = token.position) →
      part.2.reworded ⟨place, id⟩ = part.2) : rewordedIn ⟨place, id⟩ (body.map (·.2)) = body.map (·.2) := by
  obtain ⟨left, right, _, _, rfl⟩ := encloses
  rw [rewordedIn_eq_map, List.map_map]
  refine List.map_congr_left fun part isPart => kept part isPart fun token member => fixed token ?_
  simp [mem_bodyText isPart member]

/-- A change of positions that leaves the tokens where they are leaves the statements among them. -/
theorem Stmt.Placed.reworded {statement : Stmt} (placed : statement.Placed text)
    (fixed : ∀ token ∈ text, place token.position = token.position) :
    statement.reworded ⟨place, id⟩ = statement := by
  induction placed with
  | simple placed _ => exact placed.reworded fun token member => fixed token (by simp [member])
  | routine _ _ _ _ encloses _ ih =>
    have body := rewordedIn_enclosed encloses (fun token member => fixed token (by simp [member])) ih
    simp only [Stmt.reworded, fixed _ (.head _), body]
  | branch _ placed enclosesTest encloses _ ih =>
    have test := placed.reworded_enclosed enclosesTest fun token member => fixed token (by simp [member])
    have body := rewordedIn_enclosed encloses (fun token member => fixed token (by simp [member])) ih
    simp only [Stmt.reworded, fixed _ (.head _), test, body, rewordedIn]
  | branchElse _ placed enclosesTest encloses _ _ enclosesMore _ ih ihMore =>
    have test := placed.reworded_enclosed enclosesTest fun token member => fixed token (by simp [member])
    have body := rewordedIn_enclosed encloses (fun token member => fixed token (by simp [member])) ih
    have alternative := rewordedIn_enclosed enclosesMore (fun token member => fixed token (by simp [member])) ihMore
    simp only [Stmt.reworded, fixed _ (.head _), test, body, alternative]
  | branchElseIf _ placed enclosesTest encloses _ _ _ ih ihMore =>
    have test := placed.reworded_enclosed enclosesTest fun token member => fixed token (by simp [member])
    have body := rewordedIn_enclosed encloses (fun token member => fixed token (by simp [member])) ih
    have alternative := ihMore fun token member => fixed token (by simp [member])
    simp only [Stmt.reworded, fixed _ (.head _), test, body, rewordedIn, alternative]
  | whileLoop _ placed enclosesTest encloses _ ih =>
    have test := placed.reworded_enclosed enclosesTest fun token member => fixed token (by simp [member])
    have body := rewordedIn_enclosed encloses (fun token member => fixed token (by simp [member])) ih
    simp only [Stmt.reworded, fixed _ (.head _), test, body]
  | forLoop _ _ placedInit _ placed _ placedStep _ encloses _ ih =>
    have init := placedInit.reworded fun token member => fixed token (by simp [member])
    have test := placed.reworded fun token member => fixed token (by simp [member])
    have step := placedStep.reworded fun token member => fixed token (by simp [member])
    have body := rewordedIn_enclosed encloses (fun token member => fixed token (by simp [member])) ih
    simp only [Stmt.reworded, fixed _ (.head _), init, test, step, body]
  | ret => simp only [Stmt.reworded, fixed _ (.head _)]
  | retValue _ placed _ =>
    have value := placed.reworded fun token member => fixed token (by simp [member])
    simp only [Stmt.reworded, fixed _ (.head _), value]

/-- A change of positions that keeps those of all tokens keeps the program. -/
theorem Program.Placed.reworded {program : Program} (placed : Program.Placed text program)
    (fixed : ∀ token ∈ text, place token.position = token.position) :
    rewordedIn ⟨place, id⟩ program = program := by
  obtain ⟨body, areParts, rfl, rfl⟩ := placed
  rw [rewordedIn_eq_map, List.map_map]
  refine List.map_congr_left fun part isPart => (areParts part isPart).reworded fun token member => fixed token ?_
  exact mem_bodyText isPart member

end Source

theorem CompileError.position?_blamedOn (error : CompileError) (place : Position → Position) :
    (error.blamedOn place).position? = error.position?.map place := by
  cases error <;> rfl

/-- Code generation blames positions of the tree, and these are positions of its tokens. -/
theorem Context.blame_of_compile {context : Context} {haltLoop : Bool} {program : Program} {text : List Token}
    (placed : Program.Placed text program) {error : CompileError} {position : Position}
    (failed : (context.compile haltLoop program).result = .error error)
    (blamed : error.position? = some position) : ∃ token ∈ text, token.position = position := by
  by_contra absent
  -- Were the position none of a token, it could be moved without a change of the program.
  let place (other : Position) : Position := if other = position then ⟨position.line + 1, position.column⟩ else other
  have fixed : ∀ token ∈ text, place token.position = token.position := by
    intro token member
    exact if_neg fun same => absent ⟨token, member, same⟩
  have moved := context.result_compile_displaced haltLoop program place
  rw [placed.reworded fixed, failed] at moved
  have same : error = error.blamedOn place := Except.error.inj moved
  have told := error.position?_blamedOn place
  rw [← same, blamed] at told
  have stays : position = place position := Option.some.inj told
  rw [show place position = ⟨position.line + 1, position.column⟩ from if_pos rfl] at stays
  exact Nat.succ_ne_self position.line (congrArg Position.line stays).symm

/-- What code generation throws is no error of scanning. -/
theorem isLexical_of_compileProgram {settings : Settings} (valid : settings.validate = .ok ()) {program : Program}
    {error : CompileError} (failed : (compileProgram settings program).result = .error error) :
    isLexical error = false := by
  have judged := programCode_decides settings.haltLoop program _ (.start (.new settings))
    (Ledger.mirrors_start (Slots.consistent_new ..)) (by simp)
  rw [result_compileProgram valid, Context.result_compile] at failed
  cases ran : programCode settings.haltLoop program (.start (.new settings)) with
  | ok _ _ =>
    rw [ran] at failed
    cases failed
  | error refusal _ =>
    rw [ran] at judged failed
    cases failed
    obtain exhausted | ⟨isFault, _⟩ := judged
    · obtain ⟨position, rfl⟩ := CompileError.eq_memoryExhausted exhausted
      rfl
    · cases error with
      | number | unexpectedCharacter => cases isFault
      | _ => rfl

/-- An error of code generation that has a position stands where a token of the program does. -/
theorem blame_of_compileProgram {settings : Settings} {program : Program} {text : List Token}
    (placed : Program.Placed text program) {error : CompileError} {position : Position}
    (failed : (compileProgram settings program).result = .error error)
    (blamed : error.position? = some position) :
    isLexical error = false ∧ ∃ token ∈ text, token.position = position := by
  cases valid : settings.validate with
  | error fault =>
    rw [compileProgram, valid] at failed
    cases failed
    cases blamed
  | ok =>
    have plain := isLexical_of_compileProgram valid failed
    rw [result_compileProgram valid] at failed
    exact ⟨plain, Context.blame_of_compile placed failed blamed⟩

namespace Source

/-- All positions of the stream of a source text, also that of its end, are those of tokens. -/
theorem Stream.within_of_scan {source : String} {tokens : List Token} (scanned : scan source = .ok tokens) :
    (Stream.ofTokens tokens).Within fun position => ∃ token ∈ tokens, token.position = position := by
  refine ⟨fun token member => ⟨token, List.takeWhile_subset _ member, rfl⟩, ?_⟩
  change ∃ token ∈ tokens, token.position = stopOf tokens
  cases found : tokens.find? (·.kind = .endOfInput) with
  | none =>
    obtain ⟨front, rfl, _⟩ := (tiled_of_scan scanned).ends
    simp at found
  | some token => exact ⟨token, List.mem_of_find?_eq_some found, by rw [stopOf, found]⟩

/-- A position is that of the beginning of a token, or of the end of the input, in a source text. -/
def BeginsToken (source : String) (position : Position) : Prop :=
  ∃ tokens, scan source = .ok tokens ∧ ∃ token ∈ tokens, token.position = position ∧
    ∃ front rest, source.toList = front ++ rest ∧ token.BeginsBetween front rest

/-- A position is that of the beginning of what an error rejects in a source text, behind tokens that can all be
read. -/
def BeginsRejected (source : String) (error : CompileError) (position : Position) : Prop :=
  ∃ tokens front rest, source.toList = front ++ rest ∧ TiledTo front rest [] source.toList tokens ∧
    position = .behind front ∧ Rejects position rest error

/-- Tokens that are scanned stand where they begin in the source. -/
theorem beginsToken_of_mem {source : String} {tokens : List Token} (scanned : scan source = .ok tokens)
    {token : Token} (member : token ∈ tokens) : BeginsToken source token.position :=
  ⟨tokens, scanned, token, member, rfl, (tiled_of_scan scanned).begins token member⟩

end Source

/-- Wherever an error is blamed on a position, the position is real. If scanning fails, this is where the rejected
literal or character begins, behind tokens that can all be read; else it is where a token begins. In every tree
that is read, expressions carry the positions of their first tokens that are no opening parentheses, and statements
those of their first tokens. -/
theorem compile_blames_real_places (settings : Settings) (source : String) :
    (∀ error position, (compile settings source).result = .error error → error.position? = some position →
      (isLexical error = true → BeginsRejected source error position) ∧
        (isLexical error = false → BeginsToken source position)) ∧
      ∀ tokens program, Program.ofTokens tokens = .ok program →
        Program.Placed (tokens.takeWhile (·.kind ≠ .endOfInput)) program := by
  refine ⟨fun error position failed blamed => ?_, fun tokens program parsed => Program.placed_ofTokens parsed⟩
  rw [result_compile] at failed
  cases scanned : scan source with
  | error refusal =>
    rw [scanned] at failed
    cases failed
    obtain ⟨tokens, front, rest, tiled, rejects⟩ := scan_rejects scanned
    have lexical : isLexical error = true := by cases rejects <;> rfl
    obtain rfl : Position.behind front = position := Option.some.inj (rejects.position?.symm.trans blamed)
    exact ⟨fun _ => ⟨tokens, front, rest, tiled.split, tiled, rfl, rejects⟩, by simp [lexical]⟩
  | ok tokens =>
    rw [scanned] at failed
    suffices blame : isLexical error = false ∧ ∃ token ∈ tokens, token.position = position by
      obtain ⟨plain, token, member, rfl⟩ := blame
      exact ⟨by simp [plain], fun _ => beginsToken_of_mem scanned member⟩
    cases parsed : Program.ofTokens tokens with
    | error refusal =>
      obtain rfl : refusal = error := by simpa [parsed, bind, Except.bind] using failed
      obtain ⟨plain, _, told, good⟩ := Program.blame_of_ofTokens (Stream.within_of_scan scanned) parsed
      rw [told] at blamed
      cases blamed
      exact ⟨plain, good⟩
    | ok program =>
      have thrown : (compileProgram settings program).result = .error error := by
        simpa [parsed, bind, Except.bind] using failed
      obtain ⟨plain, token, member, told⟩ :=
        blame_of_compileProgram (Program.placed_ofTokens parsed) thrown blamed
      exact ⟨plain, token, List.takeWhile_subset _ member, told⟩

/-- A digit that no literal has, an end of the input behind a comment, and a call behind parentheses. -/
theorem compile_blames_real_places_unusual :
    let unread := "x = 1; # one\n y = 0x1g;"
    let unended := "x = (1\n # two"
    let uncalled := "\n y = ((g()));"
    let tokens : List Token := [⟨.identifier "y", 2, ⟨2, 2⟩⟩, ⟨.equal, 4, ⟨2, 4⟩⟩, ⟨.leftParen, 6, ⟨2, 6⟩⟩,
      ⟨.leftParen, 7, ⟨2, 7⟩⟩, ⟨.identifier "g", 8, ⟨2, 8⟩⟩, ⟨.leftParen, 9, ⟨2, 9⟩⟩, ⟨.rightParen, 10, ⟨2, 10⟩⟩,
      ⟨.rightParen, 11, ⟨2, 11⟩⟩, ⟨.rightParen, 12, ⟨2, 12⟩⟩, ⟨.semicolon, 13, ⟨2, 13⟩⟩,
      ⟨.endOfInput, 14, ⟨2, 14⟩⟩]
    let program : Program := [.assign ⟨2, 2⟩ [.name ⟨2, 2⟩ "y"] (.call ⟨2, 8⟩ "g")]
    ((compile {} unread).result = .error (.number (.invalidDigit 'g') ⟨2, 6⟩) ∧
      BeginsRejected unread (.number (.invalidDigit 'g') ⟨2, 6⟩) ⟨2, 6⟩) ∧
    ((compile {} unended).result = .error (.expected (.token .rightParen) .endOfInput ⟨2, 7⟩) ∧
      BeginsToken unended ⟨2, 7⟩) ∧
    ((compile {} uncalled).result = .error (.undefinedRoutine "g" ⟨2, 8⟩) ∧ BeginsToken uncalled ⟨2, 8⟩) ∧
    scan uncalled = .ok tokens ∧ Program.ofTokens tokens = .ok program ∧ Program.Placed tokens.dropLast program := by
  intro unread unended uncalled tokens program
  have unreadFails : (compile {} unread).result = .error (.number (.invalidDigit 'g') ⟨2, 6⟩) := by decide +kernel
  have unendedFails : (compile {} unended).result =
      .error (.expected (.token .rightParen) .endOfInput ⟨2, 7⟩) := by decide +kernel
  have uncalledFails : (compile {} uncalled).result = .error (.undefinedRoutine "g" ⟨2, 8⟩) := by decide +kernel
  have scanned : scan uncalled = .ok tokens := by decide +kernel
  have parsed : Program.ofTokens tokens = .ok program := rfl
  exact ⟨⟨unreadFails, ((compile_blames_real_places {} unread).1 _ _ unreadFails rfl).1 rfl⟩,
    ⟨unendedFails, ((compile_blames_real_places {} unended).1 _ _ unendedFails rfl).2 rfl⟩,
    ⟨uncalledFails, ((compile_blames_real_places {} uncalled).1 _ _ uncalledFails rfl).2 rfl⟩,
    scanned, parsed, (compile_blames_real_places {} uncalled).2 tokens program parsed⟩

end Dcpu
