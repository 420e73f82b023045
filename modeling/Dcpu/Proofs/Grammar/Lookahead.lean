import Dcpu.Proofs.Grammar.Soundness

/-! # One token ahead

What a reader does is settled by the tokens that it takes and the one behind them. A second reader, which
may have larger bounds, does the same before these tokens, whatever stands behind.
-/

namespace Dcpu.Source

open Effects Grammar

namespace Reader

variable {α β : Type} {bound : Nat} {reader other : Reader α}

def left : EStateM.Result CompileError Stream α → Stream
  | .ok _ rest | .error _ rest => rest

def leaving (rest : Stream) : EStateM.Result CompileError Stream α → EStateM.Result CompileError Stream α
  | .ok value _ => .ok value rest
  | .error error _ => .error error rest

/-- A reader takes tokens from the front of a stream that has at most the given number of them. If it stops
before a token, then the other reader has the same result on each stream with the same tokens up to that
one. -/
def Prompt (bound : Nat) (reader other : Reader α) : Prop :=
  ∀ ⦃stream⦄, stream.tokens.length ≤ bound → ∃ taken,
    stream.tokens = taken ++ (left (reader stream)).tokens ∧ stream.stop = (left (reader stream)).stop ∧
      ∀ ⦃token more⦄, (left (reader stream)).tokens = token :: more → ∀ behind stop,
        other ⟨taken ++ token :: behind, stop⟩ = leaving ⟨token :: behind, stop⟩ (reader stream)

theorem Prompt.mono {smaller : Nat} (prompt : reader.Prompt bound other) (le : smaller ≤ bound) :
    reader.Prompt smaller other :=
  fun _ fits => prompt (Nat.le_trans fits le)

/-- Where there are no tokens, nothing is asked of the other reader. -/
theorem Prompt.of_zero {third : Reader α} (prompt : reader.Prompt 0 other) : reader.Prompt 0 third := by
  intro stream fits
  obtain ⟨taken, splits, sameStop, _⟩ := prompt fits
  refine ⟨taken, splits, sameStop, fun token more stops => ?_⟩
  rw [splits, stops] at fits
  simp at fits

theorem prompt_pure (value : α) : (pure value : Reader α).Prompt bound (pure value) :=
  fun _ _ => ⟨[], rfl, rfl, fun _ _ _ _ _ => rfl⟩

theorem prompt_throw (error : CompileError) : (throw error : Reader α).Prompt bound (throw error) :=
  fun _ _ => ⟨[], rfl, rfl, fun _ _ _ _ _ => rfl⟩

/-- In a sequence, the second part has to be prompt only on the streams that the first part leaves. -/
theorem prompt_bind_of_left {following followingOther : α → Reader β} (prompt : reader.Prompt bound other)
    (promptNext : ∀ stream value rest, stream.tokens.length ≤ bound → reader stream = .ok value rest →
      (following value).Prompt rest.tokens.length (followingOther value)) :
    (reader >>= following).Prompt bound (other >>= followingOther) := by
  intro stream fits
  obtain ⟨taken, splits, sameStop, same⟩ := prompt fits
  rw [bind_apply]
  cases ran : reader stream with
  | error error rest =>
    rw [ran] at splits sameStop same
    refine ⟨taken, splits, sameStop, fun token more stops behind stop => ?_⟩
    rw [bind_apply, same stops]
    rfl
  | ok value rest =>
    rw [ran] at splits sameStop same
    obtain ⟨takenNext, splitsNext, sameStopNext, sameNext⟩ :=
      promptNext stream value rest fits ran (Nat.le_refl rest.tokens.length)
    have restSplits : (left (.ok value rest : EStateM.Result CompileError Stream α)).tokens =
      takenNext ++ (left (following value rest)).tokens := splitsNext
    refine ⟨taken ++ takenNext, ?_, sameStop.trans sameStopNext, fun token more stops behind stop => ?_⟩
    · rw [splits, restSplits, List.append_assoc]
    -- the first part stops before the next token that the second part takes, or else before its end
    · rw [stops] at restSplits
      have firstSame : other ⟨taken ++ (takenNext ++ token :: behind), stop⟩ =
          .ok value ⟨takenNext ++ token :: behind, stop⟩ := by
        cases takenNext with
        | nil => exact same restSplits behind stop
        | cons nextToken others => exact same restSplits (others ++ token :: behind) stop
      rw [bind_apply, List.append_assoc, firstSame]
      exact sameNext stops behind stop

/-- Behind what the first reader takes, as many fewer tokens are left for the second. -/
theorem prompt_bind {following followingOther : α → Reader β} {phrase : List TokenKind → α → Prop}
    (prompt : reader.Prompt bound other) (reads : reader.Reads phrase)
    (promptNext : ∀ value kinds, phrase kinds value →
      (following value).Prompt (bound - kinds.length) (followingOther value)) :
    (reader >>= following).Prompt bound (other >>= followingOther) := by
  refine prompt_bind_of_left prompt fun stream value rest fits ran => ?_
  obtain ⟨kinds, taken, isPhrase⟩ := reads _ rfl ran
  have sizes : stream.tokens.length = kinds.length + rest.tokens.length := by
    simpa [Stream.kinds] using congrArg List.length taken
  exact (promptNext value kinds isPhrase).mono (by omega)

theorem prompt_bind_any {following followingOther : α → Reader β} (prompt : reader.Prompt bound other)
    (promptNext : ∀ value, (following value).Prompt bound (followingOther value)) :
    (reader >>= following).Prompt bound (other >>= followingOther) := by
  refine prompt_bind_of_left prompt fun stream value rest fits ran => ?_
  obtain ⟨taken, splits, _, _⟩ := prompt fits
  have sizes : stream.tokens.length = taken.length + rest.tokens.length := by
    rw [splits, ran, List.length_append]
    rfl
  exact (promptNext value).mono (by omega)

theorem prompt_peek : peek.Prompt bound peek := by
  refine fun stream _ => ⟨[], rfl, rfl, fun token more stops behind stop => ?_⟩
  have first : stream.kind = token.kind := by
    rw [Stream.kind, show stream.tokens = token :: more from stops]
    rfl
  show EStateM.Result.ok token.kind _ = .ok stream.kind _
  rw [first]
  rfl

theorem prompt_here : here.Prompt bound here := by
  refine fun stream _ => ⟨[], rfl, rfl, fun token more stops behind stop => ?_⟩
  have first : stream.position = token.position := by
    rw [Stream.position, show stream.tokens = token :: more from stops]
    rfl
  show EStateM.Result.ok token.position _ = .ok stream.position _
  rw [first]
  rfl

theorem prompt_advance : advance.Prompt bound advance := by
  intro stream _
  obtain ⟨tokens, stop⟩ := stream
  cases tokens with
  | nil => exact ⟨[], rfl, rfl, nofun⟩
  | cons token tokens => exact ⟨[token], rfl, rfl, fun _ _ _ _ _ => rfl⟩

theorem prompt_advance_bind {following followingOther : Unit → Reader β}
    (promptNext : (following ()).Prompt (bound - 1) (followingOther ())) :
    (advance >>= following).Prompt bound (advance >>= followingOther) := by
  refine prompt_bind_of_left prompt_advance fun stream _ rest fits ran => ?_
  obtain rfl : stream.drop = rest := by cases ran; rfl
  refine promptNext.mono ?_
  rw [Stream.drop, List.length_tail]
  omega

theorem prompt_unexpected (expectation : Expectation) :
    (unexpected expectation : Reader α).Prompt bound (unexpected expectation) :=
  prompt_bind_any prompt_peek fun _ => prompt_bind_any prompt_here fun _ => prompt_throw _

theorem prompt_accept (kind : TokenKind) : (accept kind).Prompt bound (accept kind) := by
  apply prompt_bind_any prompt_peek
  intro first
  split
  case isTrue => exact prompt_advance_bind (prompt_pure true)
  case isFalse => exact prompt_pure false

theorem prompt_expect (kind : TokenKind) : (expect kind).Prompt bound (expect kind) := by
  apply prompt_bind_any (prompt_accept kind)
  intro accepted
  cases accepted with
  | true => exact prompt_pure _
  | false => exact prompt_unexpected _

theorem prompt_identifier : identifier.Prompt bound identifier := by
  apply prompt_bind_any prompt_peek
  intro kind
  cases kind with
  | identifier name => exact prompt_advance_bind (prompt_pure name)
  | _ => exact prompt_unexpected _

theorem prompt_accept? (choose : TokenKind → Option α) : (accept? choose).Prompt bound (accept? choose) := by
  apply prompt_bind_any prompt_peek
  intro kind
  split
  case h_1 => exact prompt_pure none
  case h_2 value _ => exact prompt_advance_bind (prompt_pure (some value))

theorem accept?_of_none {choose : TokenKind → Option α} {stream : Stream} (chosen : choose stream.kind = none) :
    accept? choose stream = .ok none stream := by
  simp [accept?, peek, bind_apply, map_apply, chosen]

theorem accept?_of_some {choose : TokenKind → Option α} {stream : Stream} {value : α}
    (chosen : choose stream.kind = some value) : accept? choose stream = .ok (some value) stream.drop := by
  simp [accept?, peek, advance, bind_apply, map_apply, chosen]

theorem prompt_accept?_bind {choose : TokenKind → Option α} {following followingOther : Option α → Reader β}
    (promptNone : (following none).Prompt bound (followingOther none))
    (promptSome : ∀ value, (following (some value)).Prompt (bound - 1) (followingOther (some value))) :
    (accept? choose >>= following).Prompt bound (accept? choose >>= followingOther) := by
  refine prompt_bind_of_left (prompt_accept? choose) fun stream value rest fits ran => ?_
  cases chosen : choose stream.kind with
  | none =>
    cases (accept?_of_none chosen).symm.trans ran
    exact promptNone.mono fits
  | some found =>
    cases (accept?_of_some chosen).symm.trans ran
    refine (promptSome found).mono ?_
    rw [Stream.drop, List.length_tail]
    omega

end Reader

open Reader

section Expressions

-- the two readers have the bounds `count` and `limit`, and the stream has at most `bound` tokens
variable {bound count limit : Nat} {operand operandOther inner innerOther : Reader Expr}

/-- Rows are read up to their end, with more tokens allowed as well. -/
theorem readMore_prompt {α : Type} (mark? : TokenKind → Option α) (fits : bound ≤ count)
    (within : count ≤ limit) (prompt : operand.Prompt bound operandOther) (read : List (α × Expr)) :
    (readMore mark? operand count read).Prompt bound (readMore mark? operandOther limit read) := by
  induction count generalizing bound limit read with
  | zero =>
    obtain rfl := Nat.le_zero.mp fits
    exact (prompt_pure _).of_zero
  | succ count ih =>
    obtain ⟨limit, rfl⟩ := Nat.exists_eq_add_one.mpr (Nat.zero_lt_of_lt within)
    refine prompt_accept?_bind (prompt_pure _) ?_
    intro mark
    apply prompt_bind_any (prompt.mono (Nat.sub_le bound 1))
    intro operand
    exact ih (by omega) (by omega) (prompt.mono (Nat.sub_le bound 1)) _

theorem joinLevels_prompt (fits : bound ≤ count) (within : count ≤ limit)
    (prompt : operand.Prompt bound operandOther) (levels : List (TokenKind → Option BinaryOp)) :
    (joinLevels count operand levels).Prompt bound (joinLevels limit operandOther levels) := by
  induction levels with
  | nil => exact prompt
  | cons op? tighter ih =>
    apply prompt_bind_any ih
    intro first
    rw [show first = joinedRow first [].reverse from rfl, joinLeft_eq_readMore, joinLeft_eq_readMore]
    exact prompt_bind_any (readMore_prompt op? fits within ih []) fun _ => prompt_pure _

theorem readLogical_prompt (op : LogicalOp) (isMark : TokenKind → Bool) (fits : bound ≤ count)
    (within : count ≤ limit) (prompt : operand.Prompt bound operandOther) :
    (readLogical op isMark count operand).Prompt bound (readLogical op isMark limit operandOther) := by
  apply prompt_bind_any prompt
  intro first
  apply prompt_bind_any (readMore_prompt _ fits within prompt [])
  intro more
  split <;> exact prompt_pure _

theorem readComparison_prompt (fits : bound ≤ count) (within : count ≤ limit)
    (prompt : operand.Prompt bound operandOther) :
    (readComparison count operand).Prompt bound (readComparison limit operandOther) := by
  apply prompt_bind_any prompt
  intro first
  apply prompt_bind_any (readMore_prompt _ fits within prompt [])
  intro stages
  split <;> exact prompt_pure _

theorem readUnary_prompt (op : UnaryOp) (isMark : TokenKind → Bool) (fits : bound ≤ count)
    (within : count ≤ limit) (prompt : operand.Prompt bound operandOther) :
    (readUnary op isMark operand count).Prompt bound (readUnary op isMark operandOther limit) := by
  induction count generalizing bound limit with
  | zero =>
    obtain rfl := Nat.le_zero.mp fits
    exact prompt.of_zero
  | succ count ih =>
    obtain ⟨limit, rfl⟩ := Nat.exists_eq_add_one.mpr (Nat.zero_lt_of_lt within)
    apply prompt_bind_any prompt_here
    intro position
    apply prompt_bind_any prompt_peek
    intro kind
    split
    case isTrue =>
      apply prompt_advance_bind
      have behind : (readUnary op isMark operand count).Prompt (bound - 1)
          (readUnary op isMark operandOther limit) :=
        ih (by omega) (by omega) (prompt.mono (Nat.sub_le bound 1))
      exact prompt_bind_any behind fun _ => prompt_pure _
    case isFalse => exact prompt

theorem readPower_prompt (prompt : operand.Prompt bound operandOther) :
    (readPower operand).Prompt bound (readPower operandOther) := by
  apply prompt_bind_any prompt
  intro base
  apply prompt_bind_any (prompt_accept .starStar)
  intro accepted
  cases accepted with
  | true => exact prompt_bind_any prompt fun _ => prompt_pure _
  | false => exact prompt_pure base

theorem readSuffixes_prompt (fits : bound ≤ count) (within : count ≤ limit)
    (prompt : inner.Prompt (bound - 1) innerOther) (expr : Expr) :
    (readSuffixes inner count expr).Prompt bound (readSuffixes innerOther limit expr) := by
  induction count generalizing bound limit expr with
  | zero =>
    obtain rfl := Nat.le_zero.mp fits
    exact (prompt_pure expr).of_zero
  | succ count ih =>
    obtain ⟨limit, rfl⟩ := Nat.exists_eq_add_one.mpr (Nat.zero_lt_of_lt within)
    have further (expr : Expr) :
        (readSuffixes inner count expr).Prompt (bound - 1) (readSuffixes innerOther limit expr) :=
      ih (by omega) (by omega) (prompt.mono (Nat.sub_le _ 1)) expr
    apply prompt_bind_any prompt_here
    intro position
    apply prompt_bind_any prompt_peek
    intro kind
    cases kind with
    | leftBracket =>
      apply prompt_advance_bind
      apply prompt_bind_any prompt
      intro index
      apply prompt_bind_any (prompt_expect .rightBracket)
      intro _
      exact further _
    | leftParen =>
      apply prompt_advance_bind
      apply prompt_bind_any (prompt_accept .rightParen)
      intro accepted
      cases accepted with
      | true =>
        cases expr with
        | name start name => exact further _
        | _ => exact prompt_throw _
      | false => exact prompt_bind_any prompt_here fun _ => prompt_throw _
    | _ => exact prompt_pure expr

theorem readPrimary_prompt (prompt : inner.Prompt (bound - 1) innerOther) :
    (readPrimary inner).Prompt bound (readPrimary innerOther) := by
  apply prompt_bind_any prompt_here
  intro position
  apply prompt_bind_any prompt_peek
  intro kind
  cases kind with
  | number | identifier => exact prompt_advance_bind (prompt_pure _)
  | leftParen =>
    apply prompt_advance_bind
    apply prompt_bind_any prompt
    intro expr
    exact prompt_bind_any (prompt_expect .rightParen) fun _ => prompt_pure expr
  | _ => exact prompt_unexpected _

theorem readOperand_prompt (fits : bound ≤ count) (within : count ≤ limit)
    (prompt : inner.Prompt (bound - 1) innerOther) :
    (readOperand count inner).Prompt bound (readOperand limit innerOther) :=
  readPower_prompt <| readUnary_prompt .negate _ fits within <|
    prompt_bind_any (readPrimary_prompt prompt) (readSuffixes_prompt fits within prompt)

/-- An expression is read with one token ahead. -/
theorem readExpr_prompt (within : bound ≤ limit) : (readExpr bound).Prompt bound (readExpr limit) := by
  induction bound generalizing limit with
  | zero => exact (prompt_unexpected .expression).of_zero
  | succ bound ih =>
    obtain ⟨limit, rfl⟩ := Nat.exists_eq_add_one.mpr (Nat.zero_lt_of_lt within)
    apply readLogical_prompt .or isOr .refl within
    apply readLogical_prompt .and isAnd .refl within
    apply readUnary_prompt .not isNot .refl within
    apply readComparison_prompt .refl within
    apply joinLevels_prompt .refl within
    exact readOperand_prompt .refl within (ih (Nat.le_of_succ_le_succ within))

end Expressions

section Statements

variable {bound count limit : Nat} {inner innerOther : Reader Stmt}

theorem readAssigned_prompt {expr exprOther : Reader Expr} (fits : bound ≤ count) (within : count ≤ limit)
    (prompt : expr.Prompt bound exprOther) (value : Expr) (targets : List Expr) :
    (readAssigned expr count value targets).Prompt bound (readAssigned exprOther limit value targets) := by
  induction count generalizing bound limit value targets with
  | zero =>
    obtain rfl := Nat.le_zero.mp fits
    exact (prompt_pure _).of_zero
  | succ count ih =>
    obtain ⟨limit, rfl⟩ := Nat.exists_eq_add_one.mpr (Nat.zero_lt_of_lt within)
    apply prompt_bind (prompt_accept .equal) (reads_accept .equal nofun)
    rintro accepted _ rfl
    cases accepted with
    | true =>
      have further := prompt.mono (Nat.sub_le bound 1)
      exact prompt_bind_any further fun _ => ih (by omega) (by omega) further _ _
    | false => exact prompt_pure _

theorem readSimple_prompt (fits : bound ≤ count) (within : count ≤ limit) :
    (readSimple count).Prompt bound (readSimple limit) := by
  have prompt := (readExpr_prompt within).mono fits
  apply prompt_bind_any prompt_here
  intro position
  apply prompt_bind_any prompt
  intro first
  exact prompt_bind_any (readAssigned_prompt fits within prompt first []) fun _ => prompt_pure _

/-- A statement takes a token, so that one round less is left behind it. -/
theorem readStmts_prompt (fits : bound ≤ count) (within : count ≤ limit)
    (prompt : inner.Prompt bound innerOther) (reads : inner.ReadsStatement) (read : Array Stmt) :
    (readStmts inner count read).Prompt bound (readStmts innerOther limit read) := by
  induction count generalizing bound limit read with
  | zero =>
    obtain rfl := Nat.le_zero.mp fits
    exact (prompt_pure _).of_zero
  | succ count ih =>
    obtain ⟨limit, rfl⟩ := Nat.exists_eq_add_one.mpr (Nat.zero_lt_of_lt within)
    have further : Prompt bound (do readStmts inner count (read.push (← inner)))
        (do readStmts innerOther limit (read.push (← innerOther))) := by
      apply prompt_bind prompt reads
      intro statement kinds sentence
      obtain ⟨kind, more, rfl, _⟩ := sentence.begins
      have shorter : bound - (kind :: more).length ≤ count := by
        rw [List.length_cons]
        omega
      exact ih shorter (by omega) (prompt.mono (Nat.sub_le _ _)) _
    apply prompt_bind_any prompt_peek
    intro kind
    cases kind with
    | rightBrace | endOfInput => exact prompt_pure _
    | _ => exact further

theorem readBlock_prompt (fits : bound ≤ count) (within : count ≤ limit)
    (prompt : inner.Prompt bound innerOther) (reads : inner.ReadsStatement) :
    (readBlock count inner).Prompt bound (readBlock limit innerOther) := by
  apply prompt_bind_any (prompt_expect .leftBrace)
  intro _
  apply prompt_bind_any (readStmts_prompt fits within prompt reads #[])
  intro body
  exact prompt_bind_any (prompt_expect .rightBrace) fun _ => prompt_pure body

theorem readCondition_prompt (fits : bound ≤ count) (within : count ≤ limit) :
    (readCondition count).Prompt bound (readCondition limit) := by
  apply prompt_bind_any (prompt_expect .leftParen)
  intro _
  apply prompt_bind_any ((readExpr_prompt within).mono fits)
  intro test
  exact prompt_bind_any (prompt_expect .rightParen) fun _ => prompt_pure test

/-- Statements inside one that begins with a word are read behind it. -/
theorem prompt_word_bind (word : TokenKind) (inside : word ≠ .endOfInput)
    {following followingOther : Unit → Reader Stmt}
    (promptNext : (following ()).Prompt (bound - 1) (followingOther ())) :
    (expect word >>= following).Prompt bound (expect word >>= followingOther) := by
  apply prompt_bind (prompt_expect word) (reads_expect word inside)
  rintro _ _ rfl
  exact promptNext

theorem readRoutine_prompt (fits : bound ≤ count) (within : count ≤ limit)
    (prompt : inner.Prompt (bound - 1) innerOther) (reads : inner.ReadsStatement) :
    (readRoutine count inner).Prompt bound (readRoutine limit innerOther) := by
  apply prompt_bind_any prompt_here
  intro position
  apply prompt_word_bind .functionWord nofun
  apply prompt_bind_any prompt_identifier
  intro name
  apply prompt_bind_any (prompt_expect .leftParen)
  intro _
  apply prompt_bind_any (prompt_accept .rightParen)
  intro accepted
  cases accepted with
  | true => exact prompt_bind_any (readBlock_prompt (by omega) within prompt reads) fun _ => prompt_pure _
  | false => exact prompt_bind_any prompt_here fun _ => prompt_throw _

theorem readBranch_prompt (fits : bound ≤ count) (within : count ≤ limit)
    (prompt : inner.Prompt (bound - 1) innerOther) (reads : inner.ReadsStatement) :
    (readBranch count inner).Prompt bound (readBranch limit innerOther) := by
  have block : (readBlock count inner).Prompt (bound - 1) (readBlock limit innerOther) :=
    readBlock_prompt (by omega) within prompt reads
  apply prompt_bind_any prompt_here
  intro position
  apply prompt_word_bind .ifWord nofun
  apply prompt_bind_any (readCondition_prompt (by omega) within)
  intro test
  apply prompt_bind_any block
  intro body
  apply prompt_bind_any (prompt_accept .elseWord)
  intro accepted
  cases accepted with
  | true =>
    apply prompt_bind_any prompt_peek
    intro kind
    split
    case isTrue => exact prompt_bind_any prompt fun _ => prompt_pure _
    case isFalse => exact prompt_bind_any block fun _ => prompt_pure _
  | false => exact prompt_pure _

theorem readWhile_prompt (fits : bound ≤ count) (within : count ≤ limit)
    (prompt : inner.Prompt (bound - 1) innerOther) (reads : inner.ReadsStatement) :
    (readWhile count inner).Prompt bound (readWhile limit innerOther) := by
  apply prompt_bind_any prompt_here
  intro position
  apply prompt_word_bind .whileWord nofun
  apply prompt_bind_any (readCondition_prompt (by omega) within)
  intro test
  exact prompt_bind_any (readBlock_prompt (by omega) within prompt reads) fun _ => prompt_pure _

theorem readFor_prompt (fits : bound ≤ count) (within : count ≤ limit)
    (prompt : inner.Prompt (bound - 1) innerOther) (reads : inner.ReadsStatement) :
    (readFor count inner).Prompt bound (readFor limit innerOther) := by
  have simple : (readSimple count).Prompt (bound - 1) (readSimple limit) := readSimple_prompt (by omega) within
  apply prompt_bind_any prompt_here
  intro position
  apply prompt_word_bind .forWord nofun
  apply prompt_bind_any (prompt_expect .leftParen)
  intro _
  apply prompt_bind_any simple
  intro init
  apply prompt_bind_any (prompt_expect .semicolon)
  intro _
  apply prompt_bind_any ((readExpr_prompt within).mono (by omega))
  intro test
  apply prompt_bind_any (prompt_expect .semicolon)
  intro _
  apply prompt_bind_any simple
  intro step
  apply prompt_bind_any (prompt_expect .rightParen)
  intro _
  exact prompt_bind_any (readBlock_prompt (by omega) within prompt reads) fun _ => prompt_pure _

theorem readReturn_prompt (fits : bound ≤ count) (within : count ≤ limit) :
    (readReturn count).Prompt bound (readReturn limit) := by
  apply prompt_bind_any prompt_here
  intro position
  apply prompt_bind_any (prompt_expect .returnWord)
  intro _
  apply prompt_bind_any (prompt_accept .semicolon)
  intro accepted
  cases accepted with
  | true => exact prompt_pure _
  | false =>
    apply prompt_bind_any ((readExpr_prompt within).mono fits)
    intro value
    exact prompt_bind_any (prompt_expect .semicolon) fun _ => prompt_pure _

/-- A statement is read with one token ahead. -/
theorem readStmt_prompt (within : bound ≤ limit) : (readStmt bound).Prompt bound (readStmt limit) := by
  induction bound generalizing limit with
  | zero => exact (prompt_unexpected .expression).of_zero
  | succ bound ih =>
    obtain ⟨limit, rfl⟩ := Nat.exists_eq_add_one.mpr (Nat.zero_lt_of_lt within)
    have prompt := ih (Nat.le_of_succ_le_succ within)
    have reads := readStmt_reads bound
    have simple : Prompt (bound + 1) (do
          let statement ← readSimple (bound + 1)
          Reader.expect .semicolon
          return statement) (do
          let statement ← readSimple (limit + 1)
          Reader.expect .semicolon
          return statement) := by
      apply prompt_bind_any (readSimple_prompt .refl within)
      intro statement
      exact prompt_bind_any (prompt_expect .semicolon) fun _ => prompt_pure statement
    apply prompt_bind_any prompt_peek
    intro kind
    cases kind with
    | functionWord => exact readRoutine_prompt .refl within prompt reads
    | ifWord => exact readBranch_prompt .refl within prompt reads
    | whileWord => exact readWhile_prompt .refl within prompt reads
    | forWord => exact readFor_prompt .refl within prompt reads
    | returnWord => exact readReturn_prompt .refl within
    | _ => exact simple

/-- A program is read with one token ahead. -/
theorem readAll_prompt (fits : bound ≤ count) (within : count ≤ limit)
    (prompt : inner.Prompt bound innerOther) (reads : inner.ReadsStatement) (read : Array Stmt) :
    (readAll inner count read).Prompt bound (readAll innerOther limit read) := by
  induction count generalizing bound limit read with
  | zero =>
    obtain rfl := Nat.le_zero.mp fits
    exact (prompt_pure _).of_zero
  | succ count ih =>
    obtain ⟨limit, rfl⟩ := Nat.exists_eq_add_one.mpr (Nat.zero_lt_of_lt within)
    apply prompt_bind_any prompt_peek
    intro kind
    split
    case isTrue => exact prompt_pure _
    case isFalse =>
      apply prompt_bind prompt reads
      intro statement kinds sentence
      obtain ⟨kind, more, rfl, _⟩ := sentence.begins
      have shorter : bound - (kind :: more).length ≤ count := by
        rw [List.length_cons]
        omega
      exact ih shorter (by omega) (prompt.mono (Nat.sub_le _ _)) _

end Statements

end Dcpu.Source
