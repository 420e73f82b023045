import Dcpu.Proofs.Simulation
import Dcpu.Proofs.Source.Rewording
import Dcpu.Source.Statement

/-! # Reading does not depend on layout

A stream is read beside the stream that has the same tokens without their places, with one spelling for
each connective. Reader by reader, the second run does what the first does, and reads the same tree
without positions. An error tells the same, but blames no place.
-/

namespace Dcpu

open Effects

namespace Source

/-- The kind that stands for all spellings of a token. -/
def TokenKind.canonical : TokenKind → TokenKind
  | doubleAmpersand => andWord
  | doublePipe => orWord
  | bang => notWord
  | kind => kind

/-- Whether a kind is a spelling of a connective or of the negation. -/
def TokenKind.isConnective : TokenKind → Bool
  | andWord | orWord | notWord | doubleAmpersand | doublePipe | bang => true
  | _ => false

theorem TokenKind.canonical_eq_iff {kind other : TokenKind} (plain : other.isConnective = false) :
    kind.canonical = other ↔ kind = other := by
  cases kind with
  | doubleAmpersand | doublePipe | bang =>
    constructor
    · rintro rfl
      cases plain
    · rintro rfl
      cases plain
  | _ => exact Iff.rfl

/-- A token without its place, in the spelling that stands for all. -/
def Token.displaced (token : Token) : Token := ⟨token.kind.canonical, 0, .nowhere⟩

def Stream.displaced (stream : Stream) : Stream := ⟨stream.tokens.map Token.displaced, .nowhere⟩

end Source

/-- What is left of an error without its place and the spelling of the token that was found there. -/
def CompileError.displaced : CompileError → CompileError
  | .expected expectation found _ => .expected expectation found.canonical .nowhere
  | error => error.blamedOn fun _ => .nowhere

namespace Source

open Reader

/-- Reading from a stream beside reading from the displaced stream. -/
def layout : Pairing CompileError Stream where
  alike stream other := other = stream.displaced
  excused _ := False
  blame := CompileError.displaced

/-- The second reader reads from a displaced stream what is left of the value that the first reads. -/
abbrev Reader.Forgets {α β : Type} (left : α → β) (reader : Reader α) (other : Reader β) : Prop :=
  Follows layout (fun value value' => value' = left value) reader other

namespace Reader

variable {α β : Type} {left : α → β}

theorem forgets_pure (value : α) : Forgets left (pure value) (pure (left value)) :=
  follows_pure rfl

theorem forgets_peek : Forgets TokenKind.canonical peek peek := by
  rintro stream _ rfl
  refine ⟨_, _, rfl, rfl, ?_⟩
  cases tokens : stream.tokens with
  | nil => simp [Stream.kind, Stream.displaced, tokens, TokenKind.canonical]
  | cons token tokens' => simp [Stream.kind, Stream.displaced, tokens, Token.displaced]

theorem forgets_here : Forgets (fun _ => .nowhere) here here := by
  rintro stream _ rfl
  refine ⟨_, _, rfl, rfl, ?_⟩
  cases tokens : stream.tokens with
  | nil => simp [Stream.position, Stream.displaced, tokens]
  | cons token tokens' => simp [Stream.position, Stream.displaced, tokens, Token.displaced]

theorem forgets_advance : Forgets id advance advance := by
  rintro stream _ rfl
  refine ⟨_, _, rfl, ?_, rfl⟩
  change stream.displaced.drop = stream.drop.displaced
  simp [Stream.drop, Stream.displaced]

theorem forgets_unexpected (expectation : Expectation) :
    Forgets left (unexpected expectation) (unexpected expectation) := by
  apply follows_bind forgets_peek
  rintro kind _ rfl
  apply follows_bind forgets_here
  rintro position _ rfl
  exact follows_throw _

theorem forgets_accept? {choose : TokenKind → Option α} (blind : ∀ kind, choose kind.canonical = choose kind) :
    Forgets id (accept? choose) (accept? choose) := by
  apply follows_bind forgets_peek
  rintro kind _ rfl
  rw [blind]
  cases choose kind with
  | none => exact forgets_pure _
  | some value => exact follows_then forgets_advance (forgets_pure _)

theorem forgets_accept {kind : TokenKind} (plain : kind.isConnective = false) :
    Forgets id (accept kind) (accept kind) := by
  apply follows_bind forgets_peek
  rintro next _ rfl
  simp only [TokenKind.canonical_eq_iff plain]
  split
  · exact follows_then forgets_advance (forgets_pure _)
  · exact forgets_pure _

theorem forgets_expect {kind : TokenKind} (plain : kind.isConnective = false) :
    Forgets id (expect kind) (expect kind) := by
  apply follows_bind (forgets_accept plain)
  rintro _ accepted rfl
  cases accepted with
  | true => exact forgets_pure _
  | false => exact forgets_unexpected _

theorem forgets_identifier : Forgets id identifier identifier := by
  apply follows_bind forgets_peek
  rintro kind _ rfl
  cases kind with
  | identifier name => exact follows_then forgets_advance (forgets_pure _)
  | _ => exact forgets_unexpected _

end Reader

@[simp] theorem Expr.position_unplaced (expr : Expr) : expr.unplaced.position = .nowhere := by
  cases expr <;> rfl

section Expressions

variable {operand inner : Reader Expr}

/-- Operators are joined alike wherever they stand. -/
theorem joinLeft_forgets {op? : TokenKind → Option BinaryOp} (blind : ∀ kind, op? kind.canonical = op? kind)
    (forgets : operand.Forgets Expr.unplaced operand) (bound : Nat) (left : Expr) :
    Forgets Expr.unplaced (joinLeft op? operand bound left) (joinLeft op? operand bound left.unplaced) := by
  induction bound generalizing left with
  | zero => exact forgets_pure _
  | succ bound ih =>
    apply follows_bind (forgets_accept? blind)
    rintro _ found rfl
    cases found with
    | none => exact forgets_pure _
    | some op =>
      apply follows_bind forgets
      rintro right _ rfl
      simpa using ih (.binary left.position op left right)

theorem joinLevels_forgets (bound : Nat) (forgets : operand.Forgets Expr.unplaced operand)
    {levels : List (TokenKind → Option BinaryOp)}
    (blind : ∀ op? ∈ levels, ∀ kind : TokenKind, op? kind.canonical = op? kind) :
    Forgets Expr.unplaced (joinLevels bound operand levels) (joinLevels bound operand levels) := by
  induction levels with
  | nil => exact forgets
  | cons op? levels ih =>
    obtain ⟨first, tighter⟩ := List.forall_mem_cons.mp blind
    apply follows_bind (ih tighter)
    rintro left _ rfl
    exact joinLeft_forgets first (ih tighter) bound left

theorem binaryLevels_blind : ∀ op? ∈ binaryLevels, ∀ kind : TokenKind, op? kind.canonical = op? kind := by
  intro op? member kind
  simp only [binaryLevels, List.mem_cons, List.not_mem_nil, or_false] at member
  obtain rfl | rfl | rfl | rfl | rfl | rfl := member <;> cases kind <;> rfl

theorem readMore_forgets {α : Type} {mark? : TokenKind → Option α}
    (blind : ∀ kind, mark? kind.canonical = mark? kind) (forgets : operand.Forgets Expr.unplaced operand)
    (bound : Nat) (read : List (α × Expr)) :
    Forgets (List.map (Prod.map id Expr.unplaced)) (readMore mark? operand bound read)
      (readMore mark? operand bound (read.map (Prod.map id Expr.unplaced))) := by
  induction bound generalizing read with
  | zero =>
    apply follows_pure
    rw [List.map_reverse]
  | succ bound ih =>
    apply follows_bind (forgets_accept? blind)
    rintro _ found rfl
    cases found with
    | none =>
      apply follows_pure
      rw [List.map_reverse]
    | some mark =>
      apply follows_bind forgets
      rintro next _ rfl
      exact ih ((mark, next) :: read)

theorem readLogical_forgets (op : LogicalOp) {isMark : TokenKind → Bool}
    (blind : ∀ kind, isMark kind.canonical = isMark kind) (bound : Nat)
    (forgets : operand.Forgets Expr.unplaced operand) :
    Forgets Expr.unplaced (readLogical op isMark bound operand) (readLogical op isMark bound operand) := by
  apply follows_bind forgets
  rintro first _ rfl
  apply follows_bind (readMore_forgets (fun kind => by rw [blind]) forgets bound [])
  rintro more _ rfl
  rw [List.isEmpty_map]
  split
  · exact forgets_pure _
  · apply follows_pure
    simp

theorem readComparison_forgets (bound : Nat) (forgets : operand.Forgets Expr.unplaced operand) :
    Forgets Expr.unplaced (readComparison bound operand) (readComparison bound operand) := by
  apply follows_bind forgets
  rintro first _ rfl
  apply follows_bind (readMore_forgets (by intro kind; cases kind <;> rfl) forgets bound [])
  rintro stages _ rfl
  rw [List.isEmpty_map]
  split
  · exact forgets_pure _
  · apply follows_pure
    simp

theorem readUnary_forgets (op : UnaryOp) {isMark : TokenKind → Bool}
    (blind : ∀ kind, isMark kind.canonical = isMark kind) (forgets : operand.Forgets Expr.unplaced operand)
    (bound : Nat) :
    Forgets Expr.unplaced (readUnary op isMark operand bound) (readUnary op isMark operand bound) := by
  induction bound with
  | zero => exact forgets
  | succ bound ih =>
    apply follows_bind forgets_here
    rintro position _ rfl
    apply follows_bind forgets_peek
    rintro kind _ rfl
    rw [blind]
    split
    · apply follows_then forgets_advance
      apply follows_bind ih
      rintro expr _ rfl
      exact forgets_pure _
    · exact forgets

theorem readPower_forgets (forgets : operand.Forgets Expr.unplaced operand) :
    Forgets Expr.unplaced (readPower operand) (readPower operand) := by
  apply follows_bind forgets
  rintro base _ rfl
  apply follows_bind (forgets_accept rfl)
  rintro _ accepted rfl
  cases accepted with
  | true =>
    apply follows_bind forgets
    rintro exponent _ rfl
    apply follows_pure
    simp
  | false => exact forgets_pure _

theorem callOf_forgets (position : Position) (callee : Expr) :
    Forgets Expr.unplaced (callOf position callee) (callOf .nowhere callee.unplaced) := by
  cases callee with
  | name => exact forgets_pure _
  | _ => exact follows_throw _

theorem readSuffixes_forgets (forgets : inner.Forgets Expr.unplaced inner) (bound : Nat) (expr : Expr) :
    Forgets Expr.unplaced (readSuffixes inner bound expr) (readSuffixes inner bound expr.unplaced) := by
  induction bound generalizing expr with
  | zero => exact forgets_pure _
  | succ bound ih =>
    apply follows_bind forgets_here
    rintro position _ rfl
    apply follows_bind forgets_peek
    rintro kind _ rfl
    cases kind with
    | leftBracket =>
      apply follows_then forgets_advance
      apply follows_bind forgets
      rintro index _ rfl
      apply follows_then (forgets_expect rfl)
      simpa using ih (.index expr.position expr index)
    | leftParen =>
      apply follows_then forgets_advance
      apply follows_bind (forgets_accept rfl)
      rintro _ accepted rfl
      cases accepted with
      | true =>
        apply follows_bind (callOf_forgets position expr)
        rintro call _ rfl
        exact ih call
      | false =>
        -- arguments are blamed on their own place, and a callee on that of the parenthesis
        apply follows_bind forgets_here
        rintro place _ rfl
        exact follows_throw _
    | _ => exact forgets_pure _

theorem readPrimary_forgets (forgets : inner.Forgets Expr.unplaced inner) :
    Forgets Expr.unplaced (readPrimary inner) (readPrimary inner) := by
  apply follows_bind forgets_here
  rintro position _ rfl
  apply follows_bind forgets_peek
  rintro kind _ rfl
  cases kind with
  | number | identifier => exact follows_then forgets_advance (forgets_pure _)
  | leftParen =>
    apply follows_then forgets_advance
    apply follows_bind forgets
    rintro expr _ rfl
    apply follows_then (forgets_expect rfl)
    exact forgets_pure _
  | _ => exact forgets_unexpected _

theorem readOperand_forgets (bound : Nat) (forgets : inner.Forgets Expr.unplaced inner) :
    Forgets Expr.unplaced (readOperand bound inner) (readOperand bound inner) := by
  apply readPower_forgets
  apply readUnary_forgets
  · intro kind
    cases kind <;> rfl
  · apply follows_bind (readPrimary_forgets forgets)
    rintro primary _ rfl
    exact readSuffixes_forgets forgets bound primary

/-- Expressions are read alike wherever they stand. -/
theorem readExpr_forgets (bound : Nat) : Forgets Expr.unplaced (readExpr bound) (readExpr bound) := by
  induction bound with
  | zero => exact forgets_unexpected _
  | succ bound ih =>
    apply readLogical_forgets
    · intro kind
      cases kind <;> rfl
    apply readLogical_forgets
    · intro kind
      cases kind <;> rfl
    apply readUnary_forgets
    · intro kind
      cases kind <;> rfl
    apply readComparison_forgets
    exact joinLevels_forgets _ (readOperand_forgets _ ih) binaryLevels_blind

end Expressions

section Statements

variable {stmt : Reader Stmt}

theorem readAssigned_forgets {expr : Reader Expr} (forgets : expr.Forgets Expr.unplaced expr) (bound : Nat)
    (value : Expr) (targets : List Expr) :
    Forgets (Prod.map Expr.unplaced (List.map Expr.unplaced)) (readAssigned expr bound value targets)
      (readAssigned expr bound value.unplaced (targets.map Expr.unplaced)) := by
  induction bound generalizing value targets with
  | zero => exact forgets_pure _
  | succ bound ih =>
    apply follows_bind (forgets_accept rfl)
    rintro _ accepted rfl
    cases accepted with
    | true =>
      apply follows_bind forgets
      rintro next _ rfl
      exact ih next (value :: targets)
    | false => exact forgets_pure _

theorem readSimple_forgets (bound : Nat) : Forgets Stmt.unplaced (readSimple bound) (readSimple bound) := by
  apply follows_bind forgets_here
  rintro position _ rfl
  apply follows_bind (readExpr_forgets bound)
  rintro first _ rfl
  apply follows_bind (readAssigned_forgets (readExpr_forgets bound) bound first [])
  rintro ⟨value, targets⟩ _ rfl
  apply follows_pure
  cases targets with
  | nil => rfl
  | cons target targets => simp [simpleOf]

theorem forgets_toList (read : Array Stmt) :
    Forgets (List.map Stmt.unplaced) (pure read.toList) (pure (read.map Stmt.unplaced).toList) :=
  follows_pure (by simp)

theorem readStmts_forgets (forgets : stmt.Forgets Stmt.unplaced stmt) (bound : Nat) (read : Array Stmt) :
    Forgets (List.map Stmt.unplaced) (readStmts stmt bound read)
      (readStmts stmt bound (read.map Stmt.unplaced)) := by
  induction bound generalizing read with
  | zero => exact forgets_toList read
  | succ bound ih =>
    have more : Forgets (List.map Stmt.unplaced) (do readStmts stmt bound (read.push (← stmt)))
        (do readStmts stmt bound ((read.map Stmt.unplaced).push (← stmt))) := by
      apply follows_bind forgets
      rintro statement _ rfl
      rw [← Array.map_push]
      exact ih (read.push statement)
    apply follows_bind forgets_peek
    rintro kind _ rfl
    cases kind with
    | rightBrace | endOfInput => exact forgets_toList read
    | _ => exact more

theorem readBlock_forgets (bound : Nat) (forgets : stmt.Forgets Stmt.unplaced stmt) :
    Forgets (List.map Stmt.unplaced) (readBlock bound stmt) (readBlock bound stmt) := by
  have statements := readStmts_forgets forgets bound #[]
  rw [Array.map_empty] at statements
  apply follows_then (forgets_expect rfl)
  apply follows_bind statements
  rintro body _ rfl
  apply follows_then (forgets_expect rfl)
  exact forgets_pure _

theorem readCondition_forgets (bound : Nat) :
    Forgets Expr.unplaced (readCondition bound) (readCondition bound) := by
  apply follows_then (forgets_expect rfl)
  apply follows_bind (readExpr_forgets bound)
  rintro test _ rfl
  apply follows_then (forgets_expect rfl)
  exact forgets_pure _

theorem readRoutine_forgets (bound : Nat) (forgets : stmt.Forgets Stmt.unplaced stmt) :
    Forgets Stmt.unplaced (readRoutine bound stmt) (readRoutine bound stmt) := by
  apply follows_bind forgets_here
  rintro position _ rfl
  apply follows_then (forgets_expect rfl)
  apply follows_bind forgets_identifier
  rintro _ name rfl
  apply follows_then (forgets_expect rfl)
  apply follows_bind (forgets_accept rfl)
  rintro _ accepted rfl
  cases accepted with
  | false =>
    apply follows_bind forgets_here
    rintro place _ rfl
    exact follows_throw _
  | true =>
    apply follows_bind (readBlock_forgets bound forgets)
    rintro body _ rfl
    apply follows_pure
    simp

theorem readBranch_forgets (bound : Nat) (forgets : stmt.Forgets Stmt.unplaced stmt) :
    Forgets Stmt.unplaced (readBranch bound stmt) (readBranch bound stmt) := by
  apply follows_bind forgets_here
  rintro position _ rfl
  apply follows_then (forgets_expect rfl)
  apply follows_bind (readCondition_forgets bound)
  rintro test _ rfl
  apply follows_bind (readBlock_forgets bound forgets)
  rintro body _ rfl
  apply follows_bind (forgets_accept rfl)
  rintro _ accepted rfl
  cases accepted with
  | false =>
    apply follows_pure
    simp
  | true =>
    apply follows_bind forgets_peek
    rintro kind _ rfl
    simp only [@TokenKind.canonical_eq_iff kind .ifWord rfl]
    split
    · apply follows_bind forgets
      rintro alternative _ rfl
      apply follows_pure
      simp
    · apply follows_bind (readBlock_forgets bound forgets)
      rintro alternative _ rfl
      apply follows_pure
      simp

theorem readWhile_forgets (bound : Nat) (forgets : stmt.Forgets Stmt.unplaced stmt) :
    Forgets Stmt.unplaced (readWhile bound stmt) (readWhile bound stmt) := by
  apply follows_bind forgets_here
  rintro position _ rfl
  apply follows_then (forgets_expect rfl)
  apply follows_bind (readCondition_forgets bound)
  rintro test _ rfl
  apply follows_bind (readBlock_forgets bound forgets)
  rintro body _ rfl
  apply follows_pure
  simp

theorem readFor_forgets (bound : Nat) (forgets : stmt.Forgets Stmt.unplaced stmt) :
    Forgets Stmt.unplaced (readFor bound stmt) (readFor bound stmt) := by
  apply follows_bind forgets_here
  rintro position _ rfl
  apply follows_then (forgets_expect rfl)
  apply follows_then (forgets_expect rfl)
  apply follows_bind (readSimple_forgets bound)
  rintro init _ rfl
  apply follows_then (forgets_expect rfl)
  apply follows_bind (readExpr_forgets bound)
  rintro test _ rfl
  apply follows_then (forgets_expect rfl)
  apply follows_bind (readSimple_forgets bound)
  rintro step _ rfl
  apply follows_then (forgets_expect rfl)
  apply follows_bind (readBlock_forgets bound forgets)
  rintro body _ rfl
  apply follows_pure
  simp

theorem readReturn_forgets (bound : Nat) : Forgets Stmt.unplaced (readReturn bound) (readReturn bound) := by
  apply follows_bind forgets_here
  rintro position _ rfl
  apply follows_then (forgets_expect rfl)
  apply follows_bind (forgets_accept rfl)
  rintro _ accepted rfl
  cases accepted with
  | true => exact forgets_pure _
  | false =>
    apply follows_bind (readExpr_forgets bound)
    rintro value _ rfl
    apply follows_then (forgets_expect rfl)
    exact forgets_pure _

theorem readStmt_forgets (bound : Nat) : Forgets Stmt.unplaced (readStmt bound) (readStmt bound) := by
  induction bound with
  | zero => exact forgets_unexpected _
  | succ bound ih =>
    have simple : Forgets Stmt.unplaced
        (do let statement ← readSimple (bound + 1); expect .semicolon; return statement)
        (do let statement ← readSimple (bound + 1); expect .semicolon; return statement) := by
      apply follows_bind (readSimple_forgets (bound + 1))
      rintro statement _ rfl
      apply follows_then (forgets_expect rfl)
      exact forgets_pure _
    apply follows_bind forgets_peek
    rintro kind _ rfl
    cases kind with
    | functionWord => exact readRoutine_forgets _ ih
    | ifWord => exact readBranch_forgets _ ih
    | whileWord => exact readWhile_forgets _ ih
    | forWord => exact readFor_forgets _ ih
    | returnWord => exact readReturn_forgets _
    | _ => exact simple

theorem readAll_forgets (forgets : stmt.Forgets Stmt.unplaced stmt) (bound : Nat) (read : Array Stmt) :
    Forgets (List.map Stmt.unplaced) (readAll stmt bound read)
      (readAll stmt bound (read.map Stmt.unplaced)) := by
  induction bound generalizing read with
  | zero => exact forgets_toList read
  | succ bound ih =>
    apply follows_bind forgets_peek
    rintro kind _ rfl
    simp only [@TokenKind.canonical_eq_iff kind .endOfInput rfl]
    split
    · exact forgets_toList read
    · apply follows_bind forgets
      rintro statement _ rfl
      rw [← Array.map_push]
      exact ih (read.push statement)

/-- Programs are read alike wherever their tokens stand. -/
theorem readProgram_forgets : Forgets (List.map Stmt.unplaced) readProgram readProgram := by
  apply follows_bind follows_get
  rintro stream _ rfl
  -- the bound is the number of tokens, of which none is lost
  dsimp only
  rw [Stream.displaced, List.length_map]
  have statements := readAll_forgets (readStmt_forgets stream.tokens.length) stream.tokens.length #[]
  rwa [Array.map_empty] at statements

end Statements

/-- What is left of the outcome of reading without places. -/
def forgotten (outcome : Except CompileError Program) : Except CompileError Program :=
  (outcome.map (List.map Stmt.unplaced)).mapError CompileError.displaced

/-- Without places, streams have only the kinds of their tokens left. -/
theorem Stream.displaced_ofTokens (tokens : List Token) : (Stream.ofTokens tokens).displaced =
    ⟨((tokens.map (·.kind.canonical)).takeWhile (· ≠ .endOfInput)).map fun kind => ⟨kind, 0, .nowhere⟩,
      .nowhere⟩ := by
  have ends (kind : TokenKind) : kind.canonical = .endOfInput ↔ kind = .endOfInput :=
    TokenKind.canonical_eq_iff rfl
  simp [displaced, ofTokens, List.takeWhile_map, Function.comp_def, ends, Token.displaced]

private def withoutStream : EStateM.Result CompileError Stream Program → Except CompileError Program
  | .ok program _ => .ok program
  | .error error _ => .error error

/-- The kinds of the tokens settle what is read, but for places. -/
theorem Program.forgotten_ofTokens {tokens others : List Token}
    (same : tokens.map (·.kind.canonical) = others.map (·.kind.canonical)) :
    forgotten (Program.ofTokens tokens) = forgotten (Program.ofTokens others) := by
  have settled (tokens : List Token) : forgotten (Program.ofTokens tokens) =
      withoutStream (readProgram (Stream.ofTokens tokens).displaced) := by
    have follows := @readProgram_forgets (Stream.ofTokens tokens) _ rfl
    rw [Program.ofTokens]
    cases ran : readProgram (Stream.ofTokens tokens) with
    | ok program rest =>
      rw [ran] at follows
      obtain ⟨_, _, other, _, rfl⟩ := follows
      rw [other]
      rfl
    | error error rest =>
      rw [ran] at follows
      obtain ⟨_, other⟩ := follows.resolve_left id
      rw [other]
      rfl
  rw [settled, settled, Stream.displaced_ofTokens, Stream.displaced_ofTokens, same]

end Source

end Dcpu
