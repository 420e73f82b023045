import Dcpu.Proofs.Effects
import Dcpu.Proofs.Source.Routines
import Dcpu.Source.Scan
import Dcpu.Source.Statement
import Mathlib.Data.List.TakeWhile

/-! # What readers make of tokens

Readers take tokens from the front of a stream and make up none. So what holds for every identifier
of the tokens holds for the names in the tree, and what the grammar asks of a statement holds
wherever a statement stands.
-/

namespace Dcpu.Source

open Effects Reader Text

/-- From a stream of fine tokens, a reader that succeeds reads a good value and leaves fine tokens. -/
def Reader.Yields {α : Type} (fine : TokenKind → Prop) (good : α → Prop) (reader : Reader α) : Prop :=
  ∀ ⦃stream value rest⦄, (∀ token ∈ stream.tokens, fine token.kind) → reader stream = .ok value rest →
    good value ∧ ∀ token ∈ rest.tokens, fine token.kind

/-- A reader of whose value nothing is said. -/
abbrev Reader.Passes {α : Type} (fine : TokenKind → Prop) (reader : Reader α) : Prop :=
  reader.Yields fine fun _ => True

namespace Reader

variable {α β : Type} {fine : TokenKind → Prop} {good : α → Prop} {better : β → Prop}

theorem yields_pure {value : α} (isGood : good value) : Yields fine good (pure value : Reader α) := by
  rintro stream _ rest isFine ⟨⟩
  exact ⟨isGood, isFine⟩

theorem yields_throw (error : CompileError) : Yields fine good (throw error : Reader α) :=
  fun _ _ _ _ impossible => nomatch impossible

/-- What the second reader reads is good, if it is for each good value of the first. -/
theorem yields_bind {first : Reader α} {next : α → Reader β} (yieldsFirst : Yields fine good first)
    (yieldsNext : ∀ value, good value → Yields fine better (next value)) :
    Yields fine better (first >>= next) := by
  intro stream value rest isFine ran
  obtain ⟨middle, between, firstRan, nextRan⟩ := bind_eq_ok_iff.mp ran
  obtain ⟨isGood, staysFine⟩ := yieldsFirst isFine firstRan
  exact yieldsNext middle isGood staysFine nextRan

theorem yields_peek : Yields fine (fun kind => kind = .endOfInput ∨ fine kind) peek := by
  rintro stream _ rest isFine ⟨⟩
  refine ⟨?_, isFine⟩
  cases tokens : stream.tokens with
  | nil => simp [Stream.kind, tokens]
  | cons token tokens' =>
    have first := isFine token (tokens ▸ List.mem_cons_self ..)
    simp [Stream.kind, tokens, first]

theorem passes_here : Passes fine here := by
  rintro stream _ rest isFine ⟨⟩
  exact ⟨trivial, isFine⟩

theorem passes_advance : Passes fine advance := by
  rintro stream _ rest isFine ⟨⟩
  exact ⟨trivial, fun token member => isFine token (List.mem_of_mem_tail member)⟩

theorem yields_unexpected (expectation : Expectation) :
    Yields fine good (unexpected expectation : Reader α) := by
  apply yields_bind yields_peek
  intro _ _
  apply yields_bind passes_here
  intro _ _
  exact yields_throw _

theorem passes_accept? (choose : TokenKind → Option α) : Passes fine (accept? choose) := by
  apply yields_bind yields_peek
  intro kind _
  split
  · exact yields_pure trivial
  · apply yields_bind passes_advance
    intro _ _
    exact yields_pure trivial

theorem passes_accept (kind : TokenKind) : Passes fine (accept kind) := by
  apply yields_bind yields_peek
  intro next _
  split
  · apply yields_bind passes_advance
    intro _ _
    exact yields_pure trivial
  · exact yields_pure trivial

theorem passes_expect (kind : TokenKind) : Passes fine (expect kind) := by
  apply yields_bind (passes_accept kind)
  intro accepted _
  cases accepted with
  | true => exact yields_pure trivial
  | false => exact yields_unexpected _

theorem yields_identifier : Yields fine (fun name => fine (.identifier name)) identifier := by
  apply yields_bind yields_peek
  intro kind isFine
  cases kind with
  | identifier name =>
    apply yields_bind passes_advance
    intro _ _
    exact yields_pure (isFine.resolve_left nofun)
  | _ => exact yields_unexpected _

end Reader

section Expressions

variable {fine : TokenKind → Prop} {operand inner : Reader Expr}

private theorem joinLeft_passes (op? : TokenKind → Option BinaryOp) (passes : operand.Passes fine)
    (bound : Nat) (left : Expr) : (joinLeft op? operand bound left).Passes fine := by
  induction bound generalizing left with
  | zero => exact yields_pure trivial
  | succ bound ih =>
    apply yields_bind (passes_accept? op?)
    intro found _
    cases found with
    | none => exact yields_pure trivial
    | some op =>
      apply yields_bind passes
      intro right _
      exact ih _

private theorem joinLevels_passes (bound : Nat) (passes : operand.Passes fine)
    (levels : List (TokenKind → Option BinaryOp)) : (joinLevels bound operand levels).Passes fine := by
  induction levels with
  | nil => exact passes
  | cons op? levels ih =>
    apply yields_bind ih
    intro first _
    exact joinLeft_passes op? ih bound first

private theorem readMore_passes {α : Type} (mark? : TokenKind → Option α) (passes : operand.Passes fine)
    (bound : Nat) (read : List (α × Expr)) : (readMore mark? operand bound read).Passes fine := by
  induction bound generalizing read with
  | zero => exact yields_pure trivial
  | succ bound ih =>
    apply yields_bind (passes_accept? mark?)
    intro found _
    cases found with
    | none => exact yields_pure trivial
    | some mark =>
      apply yields_bind passes
      intro next _
      exact ih _

private theorem readLogical_passes (op : LogicalOp) (isMark : TokenKind → Bool) (bound : Nat)
    (passes : operand.Passes fine) : (readLogical op isMark bound operand).Passes fine := by
  apply yields_bind passes
  intro first _
  apply yields_bind (readMore_passes _ passes bound [])
  intro more _
  split <;> exact yields_pure trivial

private theorem readComparison_passes (bound : Nat) (passes : operand.Passes fine) :
    (readComparison bound operand).Passes fine := by
  apply yields_bind passes
  intro first _
  apply yields_bind (readMore_passes relation? passes bound [])
  intro stages _
  split <;> exact yields_pure trivial

private theorem readUnary_passes (op : UnaryOp) (isMark : TokenKind → Bool) (passes : operand.Passes fine)
    (bound : Nat) : (readUnary op isMark operand bound).Passes fine := by
  induction bound with
  | zero => exact passes
  | succ bound ih =>
    apply yields_bind passes_here
    intro position _
    apply yields_bind yields_peek
    intro kind _
    split
    · apply yields_bind passes_advance
      intro _ _
      apply yields_bind ih
      intro _ _
      exact yields_pure trivial
    · exact passes

private theorem readPower_passes (passes : operand.Passes fine) : (readPower operand).Passes fine := by
  apply yields_bind passes
  intro base _
  apply yields_bind (passes_accept _)
  intro accepted _
  cases accepted with
  | true =>
    apply yields_bind passes
    intro _ _
    exact yields_pure trivial
  | false => exact yields_pure trivial

private theorem callOf_passes (position : Position) (callee : Expr) : (callOf position callee).Passes fine := by
  cases callee with
  | name => exact yields_pure trivial
  | _ => exact yields_throw _

private theorem readSuffixes_passes (passes : inner.Passes fine) (bound : Nat) (expr : Expr) :
    (readSuffixes inner bound expr).Passes fine := by
  induction bound generalizing expr with
  | zero => exact yields_pure trivial
  | succ bound ih =>
    apply yields_bind passes_here
    intro position _
    apply yields_bind yields_peek
    intro kind _
    cases kind with
    | leftBracket =>
      apply yields_bind passes_advance
      intro _ _
      apply yields_bind passes
      intro index _
      apply yields_bind (passes_expect _)
      intro _ _
      exact ih _
    | leftParen =>
      apply yields_bind passes_advance
      intro _ _
      apply yields_bind (passes_accept _)
      intro accepted _
      cases accepted with
      | true =>
        apply yields_bind (callOf_passes position expr)
        intro call _
        exact ih call
      | false =>
        apply yields_bind passes_here
        intro _ _
        exact yields_throw _
    | _ => exact yields_pure trivial

private theorem readPrimary_passes (passes : inner.Passes fine) : (readPrimary inner).Passes fine := by
  apply yields_bind passes_here
  intro position _
  apply yields_bind yields_peek
  intro kind _
  cases kind with
  | number | identifier =>
    apply yields_bind passes_advance
    intro _ _
    exact yields_pure trivial
  | leftParen =>
    apply yields_bind passes_advance
    intro _ _
    apply yields_bind passes
    intro expr _
    apply yields_bind (passes_expect _)
    intro _ _
    exact yields_pure trivial
  | _ => exact yields_unexpected _

private theorem readOperand_passes (bound : Nat) (passes : inner.Passes fine) :
    (readOperand bound inner).Passes fine := by
  apply readPower_passes
  apply readUnary_passes
  apply yields_bind (readPrimary_passes passes)
  intro primary _
  exact readSuffixes_passes passes bound primary

theorem readExpr_passes (bound : Nat) : (readExpr bound).Passes fine := by
  induction bound with
  | zero => exact yields_unexpected _
  | succ bound ih =>
    apply readLogical_passes
    apply readLogical_passes
    apply readUnary_passes
    apply readComparison_passes
    exact joinLevels_passes _ (readOperand_passes _ ih) _

end Expressions

/-- A statement is one that readers make: its loops are simple and the names of its routines are
identifiers of fine tokens. -/
structure Stmt.IsRead (fine : TokenKind → Prop) (statement : Stmt) : Prop where
  simple : statement.hasSimpleLoops = true
  named : ∀ name ∈ statement.routines, fine (.identifier name)

section Statements

variable {fine : TokenKind → Prop} {inner : Reader Stmt} {body : List Stmt}

theorem simpleLoopsIn_eq_true_iff (statements : List Stmt) :
    simpleLoopsIn statements = true ↔ ∀ statement ∈ statements, statement.hasSimpleLoops = true := by
  induction statements with
  | nil => simp [simpleLoopsIn]
  | cons statement statements ih => simp [simpleLoopsIn, ih]

theorem mem_routinesIn {statements : List Stmt} {name : String} :
    name ∈ routinesIn statements ↔ ∃ statement ∈ statements, name ∈ statement.routines := by
  induction statements with
  | nil => simp [routinesIn]
  | cons statement statements ih => simp [routinesIn, ih]

/-- Statements that are read make up a block of such. -/
theorem block_of_isRead (read : ∀ statement ∈ body, statement.IsRead fine) :
    simpleLoopsIn body = true ∧ ∀ name ∈ routinesIn body, fine (.identifier name) := by
  refine ⟨(simpleLoopsIn_eq_true_iff body).mpr fun statement member => (read statement member).simple, ?_⟩
  intro name member
  obtain ⟨statement, isHere, inside⟩ := mem_routinesIn.mp member
  exact (read statement isHere).named name inside

theorem isRead_of_isSimple {statement : Stmt} (simple : statement.isSimple = true) :
    statement.IsRead fine := by
  cases statement with
  | assign | evaluate => exact ⟨rfl, nofun⟩
  | routine | ret | branch | whileLoop | forLoop => cases simple

private theorem readAssigned_passes {expr : Reader Expr} (passes : expr.Passes fine) (bound : Nat)
    (value : Expr) (targets : List Expr) : (readAssigned expr bound value targets).Passes fine := by
  induction bound generalizing value targets with
  | zero => exact yields_pure trivial
  | succ bound ih =>
    apply yields_bind (passes_accept _)
    intro accepted _
    cases accepted with
    | true =>
      apply yields_bind passes
      intro next _
      exact ih _ _
    | false => exact yields_pure trivial

/-- What is read as a simple statement is one. -/
private theorem readSimple_yields (bound : Nat) :
    (readSimple bound).Yields fine fun statement => statement.isSimple = true := by
  apply yields_bind passes_here
  intro position _
  apply yields_bind (readExpr_passes bound)
  intro first _
  apply yields_bind (readAssigned_passes (readExpr_passes bound) bound first [])
  intro parts _
  obtain ⟨value, targets⟩ := parts
  apply yields_pure
  cases targets <;> rfl

private theorem readStmts_yields (reads : inner.Yields fine (Stmt.IsRead fine)) (bound : Nat)
    {read : Array Stmt} (before : ∀ statement ∈ read.toList, statement.IsRead fine) :
    (readStmts inner bound read).Yields fine fun body => ∀ statement ∈ body, statement.IsRead fine := by
  induction bound generalizing read with
  | zero => exact yields_pure before
  | succ bound ih =>
    have more : Yields fine (fun body => ∀ statement ∈ body, Stmt.IsRead fine statement)
        (do readStmts inner bound (read.push (← inner))) := by
      apply yields_bind reads
      intro statement isRead
      apply ih
      simpa [or_imp, forall_and] using ⟨by simpa using before, isRead⟩
    apply yields_bind yields_peek
    intro kind _
    cases kind with
    | rightBrace | endOfInput => exact yields_pure before
    | _ => exact more

private theorem readBlock_yields (bound : Nat) (reads : inner.Yields fine (Stmt.IsRead fine)) :
    (readBlock bound inner).Yields fine fun body => ∀ statement ∈ body, statement.IsRead fine := by
  apply yields_bind (passes_expect _)
  intro _ _
  apply yields_bind (readStmts_yields reads bound (by simp))
  intro body isRead
  apply yields_bind (passes_expect _)
  intro _ _
  exact yields_pure isRead

private theorem readCondition_passes (bound : Nat) : (readCondition bound).Passes fine := by
  apply yields_bind (passes_expect _)
  intro _ _
  apply yields_bind (readExpr_passes bound)
  intro test _
  apply yields_bind (passes_expect _)
  intro _ _
  exact yields_pure trivial

private theorem readRoutine_yields (bound : Nat) (reads : inner.Yields fine (Stmt.IsRead fine)) :
    (readRoutine bound inner).Yields fine (Stmt.IsRead fine) := by
  apply yields_bind passes_here
  intro position _
  apply yields_bind (passes_expect _)
  intro _ _
  apply yields_bind yields_identifier
  intro name isFine
  apply yields_bind (passes_expect _)
  intro _ _
  apply yields_bind (passes_accept _)
  intro accepted _
  cases accepted with
  | false =>
    apply yields_bind passes_here
    intro _ _
    exact yields_throw _
  | true =>
    apply yields_bind (readBlock_yields bound reads)
    intro body isRead
    obtain ⟨simple, named⟩ := block_of_isRead isRead
    exact yields_pure ⟨simple, List.forall_mem_cons.mpr ⟨isFine, named⟩⟩

private theorem isRead_branch {alternative : List Stmt} (position : Position) (test : Expr)
    (bodyRead : ∀ statement ∈ body, statement.IsRead fine)
    (otherRead : ∀ statement ∈ alternative, statement.IsRead fine) :
    (Stmt.branch position test body alternative).IsRead fine := by
  obtain ⟨simple, named⟩ := block_of_isRead bodyRead
  obtain ⟨otherSimple, otherNamed⟩ := block_of_isRead otherRead
  refine ⟨by simp [Stmt.hasSimpleLoops, simple, otherSimple], fun name member => ?_⟩
  exact (List.mem_append.mp member).elim (named name) (otherNamed name)

private theorem readBranch_yields (bound : Nat) (reads : inner.Yields fine (Stmt.IsRead fine)) :
    (readBranch bound inner).Yields fine (Stmt.IsRead fine) := by
  apply yields_bind passes_here
  intro position _
  apply yields_bind (passes_expect _)
  intro _ _
  apply yields_bind (readCondition_passes bound)
  intro test _
  apply yields_bind (readBlock_yields bound reads)
  intro body bodyRead
  apply yields_bind (passes_accept _)
  intro accepted _
  cases accepted with
  | false => exact yields_pure (isRead_branch position test bodyRead nofun)
  | true =>
    apply yields_bind yields_peek
    intro kind _
    split
    · apply yields_bind reads
      intro statement isRead
      exact yields_pure (isRead_branch position test bodyRead (by simpa using isRead))
    · apply yields_bind (readBlock_yields bound reads)
      intro alternative otherRead
      exact yields_pure (isRead_branch position test bodyRead otherRead)

private theorem readWhile_yields (bound : Nat) (reads : inner.Yields fine (Stmt.IsRead fine)) :
    (readWhile bound inner).Yields fine (Stmt.IsRead fine) := by
  apply yields_bind passes_here
  intro position _
  apply yields_bind (passes_expect _)
  intro _ _
  apply yields_bind (readCondition_passes bound)
  intro test _
  apply yields_bind (readBlock_yields bound reads)
  intro body isRead
  obtain ⟨simple, named⟩ := block_of_isRead isRead
  exact yields_pure ⟨simple, named⟩

private theorem readFor_yields (bound : Nat) (reads : inner.Yields fine (Stmt.IsRead fine)) :
    (readFor bound inner).Yields fine (Stmt.IsRead fine) := by
  apply yields_bind passes_here
  intro position _
  apply yields_bind (passes_expect _)
  intro _ _
  apply yields_bind (passes_expect _)
  intro _ _
  apply yields_bind (readSimple_yields bound)
  intro init initSimple
  apply yields_bind (passes_expect _)
  intro _ _
  apply yields_bind (readExpr_passes bound)
  intro test _
  apply yields_bind (passes_expect _)
  intro _ _
  apply yields_bind (readSimple_yields bound)
  intro step stepSimple
  apply yields_bind (passes_expect _)
  intro _ _
  apply yields_bind (readBlock_yields bound reads)
  intro body isRead
  obtain ⟨simple, named⟩ := block_of_isRead isRead
  apply yields_pure
  refine ⟨by simp [Stmt.hasSimpleLoops, initSimple, stepSimple, simple], ?_⟩
  simpa [Stmt.routines, Stmt.routines_of_isSimple initSimple, Stmt.routines_of_isSimple stepSimple]
    using named

private theorem readReturn_yields (bound : Nat) : (readReturn bound).Yields fine (Stmt.IsRead fine) := by
  apply yields_bind passes_here
  intro position _
  apply yields_bind (passes_expect _)
  intro _ _
  apply yields_bind (passes_accept _)
  intro accepted _
  cases accepted with
  | true => exact yields_pure ⟨rfl, nofun⟩
  | false =>
    apply yields_bind (readExpr_passes bound)
    intro value _
    apply yields_bind (passes_expect _)
    intro _ _
    exact yields_pure ⟨rfl, nofun⟩

/-- Every statement that is read is of the form that readers make. -/
theorem readStmt_yields (bound : Nat) : (readStmt bound).Yields fine (Stmt.IsRead fine) := by
  induction bound with
  | zero => exact yields_unexpected _
  | succ bound ih =>
    have simple : (do
        let statement ← readSimple (bound + 1)
        expect .semicolon
        return statement).Yields fine (Stmt.IsRead fine) := by
      apply yields_bind (readSimple_yields _)
      intro statement simple
      apply yields_bind (passes_expect _)
      intro _ _
      exact yields_pure (isRead_of_isSimple simple)
    apply yields_bind yields_peek
    intro kind _
    cases kind with
    | functionWord => exact readRoutine_yields _ ih
    | ifWord => exact readBranch_yields _ ih
    | whileWord => exact readWhile_yields _ ih
    | forWord => exact readFor_yields _ ih
    | returnWord => exact readReturn_yields _
    | _ => exact simple

private theorem readAll_yields (reads : inner.Yields fine (Stmt.IsRead fine)) (bound : Nat)
    {read : Array Stmt} (before : ∀ statement ∈ read.toList, statement.IsRead fine) :
    (readAll inner bound read).Yields fine fun program => ∀ statement ∈ program, statement.IsRead fine := by
  induction bound generalizing read with
  | zero => exact yields_pure before
  | succ bound ih =>
    apply yields_bind yields_peek
    intro kind _
    split
    · exact yields_pure before
    · apply yields_bind reads
      intro statement isRead
      apply ih
      simpa [or_imp, forall_and] using ⟨by simpa using before, isRead⟩

/-- A program of fine tokens has simple loops, and its routines are named by identifiers of theirs. -/
theorem Program.isRead_of_tokens {tokens : List Token} {program : Program}
    (isFine : ∀ token ∈ tokens, fine token.kind) (parsed : Program.ofTokens tokens = .ok program) :
    simpleLoopsIn program = true ∧ ∀ name ∈ routinesIn program, fine (.identifier name) := by
  have reads : readProgram.Yields fine fun program => ∀ statement ∈ program, statement.IsRead fine := by
    intro stream program rest streamFine ran
    exact readAll_yields (readStmt_yields _) _ (by simp) streamFine ran
  rw [Program.ofTokens] at parsed
  split at parsed
  case h_1 _ rest ran =>
    cases parsed
    refine block_of_isRead (reads (fun token member => ?_) ran).1
    exact isFine token (List.takeWhile_subset _ member)
  case h_2 => cases parsed

end Statements

/-- An identifier is made of characters of names. -/
def TokenKind.IsLegible : TokenKind → Prop
  | .identifier name => ∀ c ∈ name.toList, isNamePart c = true
  | _ => True

section Scanning

theorem symbol?_isLegible {text : List Char} {kind : TokenKind} (found : symbol? text = some kind) :
    kind.IsLegible := by
  unfold symbol? at found
  split at found <;> cases found <;> trivial

theorem TokenKind.ofWord_isLegible {word : String} (parts : ∀ c ∈ word.toList, isNamePart c = true) :
    (ofWord word).IsLegible := by
  have keyword : ∀ entry ∈ keywords, entry.2.IsLegible := by simp [keywords, IsLegible]
  cases found : keywords.lookup word with
  | none => simpa [ofWord, found, IsLegible] using parts
  | some kind =>
    obtain ⟨before, behind, split, _⟩ := List.lookup_eq_some_iff.mp found
    have member : (word, kind) ∈ keywords := by simp [split]
    simpa [ofWord, found] using keyword _ member

theorem Lexeme.number_isLegible {text : List Char} {lexeme : Lexeme}
    (read : Lexeme.number text = .ok lexeme) : lexeme.kind.IsLegible := by
  simp only [Lexeme.number, bind, Except.bind] at read
  split at read
  · cases read
  · cases read
    trivial

theorem Cursor.lexeme_isLegible {cursor : Cursor} {lexeme : Lexeme}
    (read : cursor.lexeme = .ok lexeme) : lexeme.kind.IsLegible := by
  rw [Cursor.lexeme] at read
  cases text : cursor.rest with
  | nil =>
    rw [text] at read
    cases read
    trivial
  | cons c rest =>
    simp only [text] at read
    cases symbol : symbol? (c :: rest) with
    | some kind =>
      simp only [symbol] at read
      cases read
      exact symbol?_isLegible symbol
    | none =>
      simp only [symbol] at read
      split at read
      · cases number : Lexeme.number (c :: rest) with
        | error fault =>
          rw [number] at read
          cases read
        | ok numeral =>
          rw [number] at read
          cases read
          exact Lexeme.number_isLegible number
      · split at read
        · cases read
          apply TokenKind.ofWord_isLegible
          simpa using fun c member => List.mem_takeWhile_imp member
        · cases read

/-- Tokens that are scanned are legible. -/
theorem scanTokens_isLegible {bound : Nat} {cursor : Cursor} {read : Array Token} {tokens : List Token}
    (before : ∀ token ∈ read.toList, token.kind.IsLegible)
    (scanned : scanTokens bound cursor read = .ok tokens) : ∀ token ∈ tokens, token.kind.IsLegible := by
  induction bound generalizing cursor read with
  | zero =>
    cases scanned
    simpa [or_imp, forall_and] using ⟨by simpa using before, trivial⟩
  | succ bound ih =>
    rw [scanTokens, Cursor.next] at scanned
    cases lexed : cursor.skipGap.lexeme with
    | error error =>
      rw [lexed] at scanned
      cases scanned
    | ok lexeme =>
      rw [lexed] at scanned
      have more : ∀ token ∈ (read.push (cursor.skipGap.token lexeme.kind)).toList, token.kind.IsLegible := by
        have last : (cursor.skipGap.token lexeme.kind).kind.IsLegible := Cursor.lexeme_isLegible lexed
        simpa [or_imp, forall_and] using ⟨by simpa using before, last⟩
      simp only [bind, Except.bind, pure, Except.pure] at scanned
      split at scanned
      · cases scanned
        exact more
      · exact ih more scanned

/-- Every identifier that is scanned is made of characters of names. -/
theorem scan_isLegible {source : String} {tokens : List Token} (scanned : scan source = .ok tokens) :
    ∀ token ∈ tokens, token.kind.IsLegible :=
  scanTokens_isLegible (by simp) scanned

end Scanning

end Dcpu.Source
