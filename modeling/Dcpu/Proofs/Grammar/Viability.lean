import Dcpu.Proofs.Grammar.Completeness
import Dcpu.Proofs.Grammar.Lookahead
import Mathlib.Data.List.Induction

/-! # Syntax errors stand at the first impossible token

When a reader meets a token that it does not expect, the tokens before can still be completed. So reading a
program fails at the first token that no program has there.
-/

namespace Dcpu.Source

open Effects Grammar

section Prefixes

variable {α β : Type} {phrase other : List TokenKind → α → Prop} {longer : List TokenKind → β → Prop}
  {taken kinds : List TokenKind}

/-- Tokens that begin a phrase. -/
def Grammar.Viable (phrase : List TokenKind → α → Prop) (taken : List TokenKind) : Prop :=
  ∃ more value, .endOfInput ∉ more ∧ phrase (taken ++ more) value

theorem Grammar.Viable.of_phrase {value : α} (done : phrase taken value) : Viable phrase taken :=
  ⟨[], value, by simp, by simpa using done⟩

theorem Grammar.Viable.imp (viable : Viable phrase taken)
    (implies : ∀ kinds value, phrase kinds value → other kinds value) : Viable other taken := by
  obtain ⟨more, value, inside, isPhrase⟩ := viable
  exact ⟨more, value, inside, implies _ value isPhrase⟩

/-- Tokens that can be completed behind others can be completed together with them. -/
theorem Grammar.Viable.append (viable : Viable (fun more => longer (kinds ++ more)) taken) :
    Viable longer (kinds ++ taken) := by
  obtain ⟨more, value, inside, isLonger⟩ := viable
  exact ⟨more, value, inside, by simpa using isLonger⟩

/-- What begins a phrase begins each longer one that the phrase begins. -/
theorem Grammar.Viable.trans (viable : Viable phrase taken)
    (further : ∀ value kinds, phrase kinds value → Viable longer kinds) : Viable longer taken := by
  obtain ⟨more, value, inside, isPhrase⟩ := viable
  obtain ⟨others, result, insideOthers, isLonger⟩ := further value _ isPhrase
  exact ⟨more ++ others, result, by simp [inside, insideOthers], by simpa using isLonger⟩

end Prefixes

namespace Reader

variable {α β : Type} {kind : TokenKind} {phrase other : List TokenKind → α → Prop}
  {longer : List TokenKind → β → Prop}

/-- Before a token of the given kind, a reader that meets a token it does not expect names that token, and
has taken tokens that begin a phrase. -/
def StallsAt (kind : TokenKind) (phrase : List TokenKind → α → Prop) (reader : Reader α) : Prop :=
  ∀ ⦃stream expectation found position rest⦄, stream.kind = kind →
    reader stream = .error (.expected expectation found position) rest →
    found = rest.kind ∧ position = rest.position ∧
      ∃ taken, stream.kinds = taken ++ rest.kinds ∧ Viable phrase taken

/-- A reader that meets a token it does not expect names that token, and has taken tokens that begin a
phrase. -/
def Stalls (phrase : List TokenKind → α → Prop) (reader : Reader α) : Prop :=
  ∀ kind, reader.StallsAt kind phrase

/-- There is a phrase, and a reader has taken the beginning of one when it meets a token that it does not
expect. -/
structure Promising (phrase : List TokenKind → α → Prop) (reader : Reader α) : Prop where
  viable : Viable phrase []
  stalls : reader.Stalls phrase

theorem Promising.imp {reader : Reader α} (promising : reader.Promising phrase)
    (implies : ∀ kinds value, phrase kinds value → other kinds value) : reader.Promising other := by
  refine ⟨promising.viable.imp implies, fun kind stream expectation found position rest isHere ran => ?_⟩
  obtain ⟨sameKind, samePosition, taken, splits, viable⟩ := promising.stalls kind isHere ran
  exact ⟨sameKind, samePosition, taken, splits, viable.imp implies⟩

theorem stalls_pure (value : α) : (pure value : Reader α).Stalls phrase :=
  fun _ _ _ _ _ _ _ impossible => nomatch impossible

theorem promising_pure {value : α} (done : phrase [] value) : (pure value : Reader α).Promising phrase :=
  ⟨.of_phrase done, stalls_pure value⟩

theorem stallsAt_misplacedCall (fault : CallFault) (position : Position) :
    (throw (.misplacedCall fault position) : Reader α).StallsAt kind phrase :=
  fun _ _ _ _ _ _ impossible => nomatch impossible

/-- What the first part has taken when it fails has to begin a longer phrase, and so has what it reads and
the second part has taken. -/
theorem stallsAt_bind {first : Reader α} {following : α → Reader β} (reads : first.ReadsAt kind phrase)
    (stalls : first.StallsAt kind other) (viable : ∀ value kinds, other kinds value → Viable longer kinds)
    (stallsNext : ∀ value kinds, phrase kinds value →
      (following value).Stalls fun more => longer (kinds ++ more)) :
    (first >>= following).StallsAt kind longer := by
  intro stream expectation found position rest isHere ran
  obtain firstRan | ⟨value, middle, firstRan, nextRan⟩ := bind_eq_error_iff.mp ran
  · obtain ⟨sameKind, samePosition, taken, splits, begins⟩ := stalls isHere firstRan
    exact ⟨sameKind, samePosition, taken, splits, begins.trans viable⟩
  · obtain ⟨kinds, splits, isPhrase⟩ := reads isHere firstRan
    obtain ⟨sameKind, samePosition, taken, splitsNext, begins⟩ := stallsNext value kinds isPhrase _ rfl nextRan
    exact ⟨sameKind, samePosition, kinds ++ taken, by rw [splits, splitsNext, List.append_assoc], begins.append⟩

/-- Behind a phrase, the beginning of what follows is the beginning of the whole. -/
theorem promising_bind {first : Reader α} {following : α → Reader β} (reads : first.Reads phrase)
    (promising : first.Promising phrase) (promisingNext : ∀ value kinds, phrase kinds value →
      (following value).Promising fun more => longer (kinds ++ more)) :
    (first >>= following).Promising longer := by
  have viable : ∀ value kinds, phrase kinds value → Viable longer kinds := fun value kinds isPhrase => by
    simpa using (promisingNext value kinds isPhrase).viable.append
  exact ⟨promising.viable.trans viable, fun kind => stallsAt_bind (reads kind) (promising.stalls kind) viable
    fun value kinds isPhrase => (promisingNext value kinds isPhrase).stalls⟩

theorem stallsAt_peek_bind {following : TokenKind → Reader β} (stalls : (following kind).StallsAt kind longer) :
    (peek >>= following).StallsAt kind longer := by
  rintro stream expectation found position rest rfl ran
  exact stalls rfl ran

theorem stallsAt_here_bind {following : Position → Reader β}
    (stalls : ∀ position, (following position).StallsAt kind longer) :
    (here >>= following).StallsAt kind longer :=
  fun stream _ _ _ _ isHere ran => stalls stream.position isHere ran

theorem stallsAt_advance_bind {following : Unit → Reader β} (inside : kind ≠ .endOfInput)
    (stalls : (following ()).Stalls fun more => longer (kind :: more)) :
    (advance >>= following).StallsAt kind longer := by
  rintro stream expectation found position rest rfl ran
  obtain ⟨sameKind, samePosition, taken, splits, viable⟩ :=
    stalls _ rfl (ran : following () stream.drop = .error _ rest)
  have splits : stream.kinds = (stream.kind :: taken) ++ rest.kinds := by
    rw [Stream.kinds_eq_cons inside, splits]
    rfl
  exact ⟨sameKind, samePosition, stream.kind :: taken, splits, viable⟩

theorem promising_here_bind {following : Position → Reader β}
    (promising : ∀ position, (following position).Promising longer) : (here >>= following).Promising longer :=
  ⟨(promising .nowhere).viable, fun kind => stallsAt_here_bind fun position => (promising position).stalls kind⟩

/-- An unexpected token is met where nothing is taken yet. -/
theorem stallsAt_unexpected (viable : Viable phrase []) (expectation : Expectation) :
    (unexpected expectation : Reader α).StallsAt kind phrase := by
  rintro stream _ _ _ _ _ ⟨⟩
  exact ⟨rfl, rfl, [], rfl, viable⟩

theorem stalls_accept (kind : TokenKind) (phrase : List TokenKind → Bool → Prop) :
    (accept kind).Stalls phrase := by
  intro _ stream expectation found position rest _ ran
  have ran : (if stream.kind = kind then do advance; return true else return false : Reader Bool) stream =
    .error (.expected expectation found position) rest := ran
  split at ran <;> cases ran

theorem stalls_accept? (choose : TokenKind → Option α) (phrase : List TokenKind → Option α → Prop) :
    (accept? choose).Stalls phrase := by
  intro _ stream expectation found position rest _ ran
  cases chosen : choose stream.kind with
  | none => cases (accept?_of_none chosen).symm.trans ran
  | some value => cases (accept?_of_some chosen).symm.trans ran

/-- Since an optional token never fails, what begins no phrase may be read behind it. -/
theorem stalls_accept_bind (kind : TokenKind) (inside : kind ≠ .endOfInput) {following : Bool → Reader β}
    (yes : (following true).Stalls fun more => longer (kind :: more)) (no : (following false).Stalls longer) :
    (accept kind >>= following).Stalls longer := by
  intro first
  refine stallsAt_bind (reads_accept kind inside first) (stalls_accept kind (fun _ _ => False) first) nofun ?_
  rintro accepted _ rfl
  cases accepted with
  | true => exact yes
  | false => exact no

/-- A token that may stand there is either taken, or leaves what follows to begin. -/
theorem promising_accept_bind (kind : TokenKind) (inside : kind ≠ .endOfInput) {following : Bool → Reader β}
    (yes : (following true).Promising fun more => longer (kind :: more))
    (no : (following false).Stalls longer) : (accept kind >>= following).Promising longer := by
  refine ⟨?_, stalls_accept_bind kind inside yes.stalls no⟩
  obtain ⟨more, value, insideMore, isLonger⟩ := yes.viable
  exact ⟨kind :: more, value, by simp [inside.symm, insideMore], isLonger⟩

theorem promising_expect (kind : TokenKind) (inside : kind ≠ .endOfInput) :
    (expect kind).Promising fun kinds _ => kinds = [kind] := by
  have viable : Viable (fun kinds (_ : Unit) => kinds = [kind]) [] :=
    ⟨[kind], (), by simpa using inside.symm, rfl⟩
  exact promising_accept_bind kind inside (promising_pure rfl) fun _ => stallsAt_unexpected viable _

theorem promising_identifier : identifier.Promising fun kinds name => kinds = [.identifier name] := by
  have viable : Viable (fun kinds name => kinds = [.identifier name]) [] := ⟨[.identifier ""], "", by simp, rfl⟩
  refine ⟨viable, fun kind => stallsAt_peek_bind ?_⟩
  cases kind with
  | identifier name => exact stallsAt_advance_bind nofun (stalls_pure name)
  | _ => exact stallsAt_unexpected viable _

end Reader

open Reader

section Expressions

variable {operand inner : Reader Expr} {rank : Rank}

/-- A reader reads phrases of a rank, and has taken the beginning of one when it meets a token that it does
not expect. -/
structure Reader.Promises (rank : Rank) (reader : Reader Expr) : Prop where
  parses : reader.Parses rank
  promising : reader.Promising fun kinds expr => Phrase rank kinds expr.unplaced

theorem Reader.Promises.bind {α : Type} {longer : List TokenKind → α → Prop} {following : Expr → Reader α}
    (promises : operand.Promises rank) (promisingNext : ∀ (expr : Expr) kinds, Phrase rank kinds expr.unplaced →
      (following expr).Promising fun more => longer (kinds ++ more)) :
    (operand >>= following).Promising longer :=
  promising_bind promises.parses promises.promising promisingNext

theorem Reader.promising_expect_bind {α : Type} {longer : List TokenKind → α → Prop}
    {following : Unit → Reader α} (kind : TokenKind) (inside : kind ≠ .endOfInput)
    (promisingNext : (following ()).Promising fun more => longer (kind :: more)) :
    (expect kind >>= following).Promising longer := by
  apply promising_bind (reads_expect kind inside) (promising_expect kind inside)
  rintro _ _ rfl
  exact promisingNext

/-- A row that stalls has been taken up to where it could go on. -/
theorem readMore_promising {α β : Type} {mark? : TokenKind → Option α} {kind : β → TokenKind} {value : β → α}
    {good : β → Prop} (finds : Finds mark? kind value good) (promises : operand.Promises rank) (bound : Nat)
    (read : List (α × Expr)) :
    (readMore mark? operand bound read).Promising (ReadRow rank kind value good read) := by
  induction bound generalizing read with
  | zero => exact promising_pure (.nil read)
  | succ bound ih =>
    refine ⟨.of_phrase (.nil read), fun kind => ?_⟩
    refine stallsAt_bind (reads_accept? finds kind) (stalls_accept? mark? (fun _ _ => False) kind) nofun ?_
    rintro (_ | result) kinds found
    · exact stalls_pure _
    · obtain ⟨mark, isGood, rfl, rfl⟩ := found
      refine (promises.bind ?_).stalls
      intro operand operandKinds phrase
      exact (ih _).imp fun _ _ => .cons isGood phrase

/-- A level stalls within a phrase of its rank, if the tighter levels stall within theirs. -/
theorem joinLevels_promises (rank : Rank) (binary : rank.operators ≠ []) (bound : Nat)
    {tighter : List (TokenKind → Option BinaryOp)}
    (promises : (joinLevels bound operand tighter).Promises rank.tighter) :
    (joinLevels bound operand (rank.operator? :: tighter)).Promises rank := by
  refine ⟨joinLevels_parses rank binary bound promises.parses, ?_⟩
  apply promises.bind
  intro first kinds phrase
  rw [show first = joinedRow first [].reverse from rfl, joinLeft_eq_readMore]
  apply promising_bind (readMore_reads (finds_operator rank) promises.parses bound [])
    (readMore_promising (finds_operator rank) promises bound [])
  intro row rowKinds read
  exact promising_pure (by simpa using read.joined binary phrase)

theorem readLogical_promises (op : LogicalOp) (bound : Nat)
    (promises : operand.Promises (Rank.ofLogical op).tighter) :
    (readLogical op (isConnective op) bound operand).Promises (.ofLogical op) := by
  refine ⟨readLogical_parses op bound promises.parses, ?_⟩
  apply promises.bind
  intro first kinds phrase
  apply promising_bind (readMore_reads (finds_connective op) promises.parses bound [])
    (readMore_promising (finds_connective op) promises bound [])
  intro more moreKinds read
  have derived := read.connected phrase
  cases more with
  | nil => exact promising_pure (by simpa [connected] using derived)
  | cons part more => exact promising_pure (by simpa [connected] using derived)

theorem readComparison_promises (bound : Nat) (promises : operand.Promises .bitOr) :
    (readComparison bound operand).Promises .comparison := by
  refine ⟨readComparison_parses bound promises.parses, ?_⟩
  apply promises.bind
  intro first kinds phrase
  apply promising_bind (readMore_reads finds_relation promises.parses bound [])
    (readMore_promising finds_relation promises bound [])
  intro stages stageKinds read
  have derived := read.compared phrase
  cases stages with
  | nil => exact promising_pure (by simpa [compared] using derived)
  | cons stage stages => exact promising_pure (by simpa [compared] using derived)

theorem readUnary_promises (op : UnaryOp) {isMark : TokenKind → Bool}
    (marks : ∀ kind, isMark kind = true ↔ kind ∈ op.kinds)
    (promises : operand.Promises (Rank.ofUnary op).tighter) (bound : Nat) :
    (readUnary op isMark operand bound).Promises (.ofUnary op) := by
  refine ⟨readUnary_parses op marks promises.parses bound, ?_⟩
  have plain := promises.promising.imp fun _ _ => Phrase.plain op
  induction bound with
  | zero => exact plain
  | succ bound ih =>
    refine ⟨plain.viable, fun kind => ?_⟩
    apply stallsAt_here_bind
    intro position
    apply stallsAt_peek_bind
    split
    case isTrue isMark =>
      have mark := (marks kind).mp isMark
      refine stallsAt_advance_bind (by rintro rfl; cases op <;> simp [UnaryOp.kinds] at mark) ?_
      refine (promising_bind (readUnary_parses op marks promises.parses bound) ih ?_).stalls
      intro expr kinds phrase
      exact promising_pure (by simpa using Phrase.unary op mark phrase)
    case isFalse => exact plain.stalls kind

theorem readPower_promises (promises : operand.Promises .unary) : (readPower operand).Promises .power := by
  refine ⟨readPower_parses promises.parses, ?_⟩
  apply promises.bind
  intro base kinds phrase
  refine promising_accept_bind .starStar nofun ?_ (stalls_pure base)
  apply promises.bind
  intro exponent exponentKinds exponentPhrase
  exact promising_pure (by simpa using Phrase.power phrase exponentPhrase)

/-- Suffixes stall within a bracket, where a phrase could go on. -/
theorem readSuffixes_promising (promises : inner.Promises .or) (bound : Nat) (expr : Expr) :
    (readSuffixes inner bound expr).Promising (ReadSuffixes expr) := by
  induction bound generalizing expr with
  | zero => exact promising_pure (.nil expr)
  | succ bound ih =>
    refine ⟨.of_phrase (.nil expr), fun kind => ?_⟩
    apply stallsAt_here_bind
    intro position
    apply stallsAt_peek_bind
    cases kind with
    | leftBracket =>
      refine stallsAt_advance_bind nofun (promises.bind ?_).stalls
      intro index indexKinds phrase
      apply promising_expect_bind .rightBracket nofun
      exact (ih _).imp fun _ _ => .index phrase
    | leftParen =>
      -- a call of anything but a name begins no phrase, but it fails without an unexpected token
      refine stallsAt_advance_bind nofun (stalls_accept_bind .rightParen nofun ?_ ?_)
      · cases expr with
        | name start name => exact ((ih (.call start name)).imp fun _ _ => .call).stalls
        | _ => exact fun _ => stallsAt_misplacedCall _ _
      · exact fun _ => stallsAt_here_bind fun _ => stallsAt_misplacedCall _ _
    | _ => exact stalls_pure expr _

theorem readPrimary_promises (promises : inner.Promises .or) : (readPrimary inner).Promises .primary := by
  have viable : Viable (fun kinds (expr : Expr) => Phrase .primary kinds expr.unplaced) [] :=
    ⟨[.number 0], .number .nowhere 0, by simp, .number⟩
  refine ⟨readPrimary_parses promises.parses, viable, fun kind => ?_⟩
  apply stallsAt_here_bind
  intro position
  apply stallsAt_peek_bind
  cases kind with
  | number | identifier => exact stallsAt_advance_bind nofun (stalls_pure _)
  | leftParen =>
    refine stallsAt_advance_bind nofun (promises.bind ?_).stalls
    intro expr kinds phrase
    exact promising_expect_bind .rightParen nofun (promising_pure (.parenthesised phrase))
  | _ => exact stallsAt_unexpected viable _

theorem readOperand_promises (promises : inner.Promises .or) (bound : Nat) :
    (readOperand bound inner).Promises .power := by
  have primary := readPrimary_promises promises
  have suffixed : Reader.Promises .suffixed (do readSuffixes inner bound (← readPrimary inner)) := by
    refine ⟨readSuffixed_parses promises.parses bound, primary.bind ?_⟩
    intro expr kinds phrase
    exact (readSuffixes_promising promises bound expr).imp fun _ _ read => read.suffixed phrase
  exact readPower_promises (readUnary_promises .negate (by simp [UnaryOp.kinds]) suffixed bound)

/-- A token that an expression cannot have is met behind the beginning of an expression. -/
theorem readExpr_promises (bound : Nat) : (readExpr bound).Promises .or := by
  induction bound with
  | zero =>
    have viable : Viable (fun kinds (expr : Expr) => Phrase .or kinds expr.unplaced) [] :=
      ⟨[.number 0], .number .nowhere 0, by simp, .or_of_primary .number⟩
    exact ⟨readExpr_parses 0, viable, fun _ => stallsAt_unexpected viable _⟩
  | succ bound ih =>
    have arithmetic : (joinLevels (bound + 1) (readOperand (bound + 1) (readExpr bound)) binaryLevels).Promises
        .bitOr := by
      rw [binaryLevels_eq]
      have operand : (joinLevels (bound + 1) (readOperand (bound + 1) (readExpr bound)) []).Promises .power :=
        readOperand_promises ih (bound + 1)
      have term := joinLevels_promises .term nofun (bound + 1) operand
      have sum := joinLevels_promises .sum nofun (bound + 1) term
      have shift := joinLevels_promises .shift nofun (bound + 1) sum
      have bitAnd := joinLevels_promises .bitAnd nofun (bound + 1) shift
      have bitXor := joinLevels_promises .bitXor nofun (bound + 1) bitAnd
      exact joinLevels_promises .bitOr nofun (bound + 1) bitXor
    apply readLogical_promises .or
    apply readLogical_promises .and
    exact readUnary_promises .not (by simp [isNot, UnaryOp.kinds])
      (readComparison_promises (bound + 1) arithmetic) (bound + 1)

end Expressions

section Statements

variable {inner : Reader Stmt}

theorem readAssigned_promising {expr : Reader Expr} (promises : expr.Promises .or) (bound : Nat) {value : Expr}
    {first : List TokenKind} (phrase : Phrase .or first value.unplaced) (before : List Expr) :
    (readAssigned expr bound value before).Promising (ReadAssigned first before) := by
  induction bound generalizing value first before with
  | zero => exact promising_pure (.nil phrase before)
  | succ bound ih =>
    refine promising_accept_bind .equal nofun ?_ (stalls_pure _)
    apply promises.bind
    intro following kinds nextPhrase
    exact (ih nextPhrase (value :: before)).imp fun _ _ => .cons phrase

theorem readSimple_promising (bound : Nat) :
    (readSimple bound).Promising fun kinds statement => Simple kinds statement.unplaced := by
  have promises := readExpr_promises bound
  apply promising_here_bind
  intro position
  apply promises.bind
  intro first kinds phrase
  apply promising_bind (readAssigned_reads promises.parses bound phrase [])
    (readAssigned_promising promises bound phrase [])
  intro result more read
  exact promising_pure (by simpa using read.simple position)

/-- A reader reads statements, and has taken the beginning of one when it meets a token that it does not
expect. -/
structure Reader.PromisesStatement (reader : Reader Stmt) : Prop where
  reads : reader.ReadsStatement
  promising : reader.Promising fun kinds statement => Sentence .statement kinds statement.unplaced

theorem Reader.PromisesStatement.bind {longer : List TokenKind → List Stmt → Prop}
    {following : Stmt → Reader (List Stmt)} (promises : inner.PromisesStatement)
    (promisingNext : ∀ (statement : Stmt) kinds, Sentence .statement kinds statement.unplaced →
      (following statement).Promising fun more => longer (kinds ++ more)) :
    (inner >>= following).Promising longer :=
  promising_bind promises.reads promises.promising promisingNext

theorem readStmts_promising (promises : inner.PromisesStatement) (bound : Nat) (read : Array Stmt) :
    (readStmts inner bound read).Promising (ReadBody read) := by
  induction bound generalizing read with
  | zero => exact promising_pure (.nil read)
  | succ bound ih =>
    have more : Reader.Promising (ReadBody read) (do readStmts inner bound (read.push (← inner))) := by
      apply promises.bind
      intro statement kinds sentence
      exact (ih _).imp fun _ _ => .cons sentence
    refine ⟨.of_phrase (.nil read), fun kind => stallsAt_peek_bind ?_⟩
    cases kind with
    | rightBrace | endOfInput => exact stalls_pure _ _
    | _ => exact more.stalls _

/-- A block stalls where it could go on. -/
theorem readBlock_promising (promises : inner.PromisesStatement) (bound : Nat) :
    (readBlock bound inner).Promising fun kinds body => ∃ parts, kinds = block parts ∧
      (∀ part ∈ parts, Sentence .statement part.1 part.2) ∧ body.map Stmt.unplaced = trees parts := by
  apply promising_expect_bind .leftBrace nofun
  apply promising_bind (readStmts_reads promises.reads bound #[]) (readStmts_promising promises bound #[])
  rintro body _ ⟨_, ⟨parts, areParts, rfl, rfl⟩, same⟩
  exact promising_expect_bind .rightBrace nofun (promising_pure ⟨parts, rfl, areParts, same⟩)

theorem readCondition_promising (bound : Nat) :
    (readCondition bound).Promising fun kinds test => ∃ inside, kinds = condition inside ∧
      Phrase .or inside test.unplaced := by
  apply promising_expect_bind .leftParen nofun
  apply (readExpr_promises bound).bind
  intro test inside phrase
  exact promising_expect_bind .rightParen nofun (promising_pure ⟨inside, rfl, phrase⟩)

theorem readRoutine_promises (promises : inner.PromisesStatement) (bound : Nat) :
    (readRoutine bound inner).PromisesStatement := by
  refine ⟨readRoutine_reads promises.reads bound, ?_⟩
  apply promising_here_bind
  intro position
  apply promising_expect_bind .functionWord nofun
  apply promising_bind reads_identifier promising_identifier
  rintro name _ rfl
  apply promising_expect_bind .leftParen nofun
  refine promising_accept_bind .rightParen nofun ?_ ?_
  · apply promising_bind (readBlock_reads promises.reads bound) (readBlock_promising promises bound)
    rintro body _ ⟨parts, rfl, areParts, same⟩
    exact promising_pure (by simpa [same] using Sentence.routine areParts)
  · exact fun _ => stallsAt_here_bind fun _ => stallsAt_misplacedCall _ _

/-- Before `if` a reader of statements has taken the beginning of a conditional. -/
theorem stallsAt_ifWord (promises : inner.PromisesStatement) :
    inner.StallsAt .ifWord fun kinds statement => Sentence .conditional kinds statement.unplaced := by
  intro stream expectation found position rest isHere ran
  obtain ⟨sameKind, samePosition, taken, splits, more, statement, inside, sentence⟩ :=
    promises.promising.stalls .ifWord isHere ran
  refine ⟨sameKind, samePosition, taken, splits, ?_⟩
  cases taken with
  | nil =>
    have zero : Phrase .or [.number 0] (Expr.number .nowhere 0).unplaced := .or_of_primary .number
    have least : Sentence .conditional (.ifWord :: (condition [.number 0] ++ block []))
        (.branch .nowhere (.number .nowhere 0) [] []) := .branch zero nofun
    exact ⟨_, .branch .nowhere (.number .nowhere 0) [] [], by simp [condition, block], least⟩
  | cons kind others =>
    obtain rfl : kind = .ifWord := by
      rw [Stream.kind_eq_next, splits] at isHere
      exact isHere
    exact ⟨more, statement, inside, sentence.conditional_of_ifWord⟩

theorem readBranch_promises (promises : inner.PromisesStatement) (bound : Nat) :
    (readBranch bound inner).PromisesStatement := by
  refine ⟨readBranch_reads promises.reads bound, ?_⟩
  have blockReads := readBlock_reads promises.reads bound
  have blockPromising := readBlock_promising promises bound
  apply promising_here_bind
  intro position
  apply promising_expect_bind .ifWord nofun
  apply promising_bind (readCondition_reads bound) (readCondition_promising bound)
  rintro test _ ⟨inside, rfl, phrase⟩
  apply promising_bind blockReads blockPromising
  rintro body _ ⟨parts, rfl, areParts, same⟩
  refine promising_accept_bind .elseWord nofun ?_ (stalls_pure _)
  have alternative : Reader.Promising (fun more (statement : Stmt) => Sentence .statement
      (.ifWord :: (condition inside ++ (block parts ++ .elseWord :: more))) statement.unplaced)
      (do return Stmt.branch position test body (← readBlock bound inner)) := by
    apply promising_bind blockReads blockPromising
    rintro alternative _ ⟨others, rfl, areOthers, sameOthers⟩
    exact promising_pure (by
      simpa [same, sameOthers] using Sentence.conditional (.branchElse phrase areParts areOthers))
  refine ⟨alternative.viable, fun kind => stallsAt_peek_bind ?_⟩
  by_cases isIf : kind = .ifWord
  · subst isIf
    rw [if_pos rfl]
    have derived (statement : Stmt) (kinds : List TokenKind)
        (sentence : Sentence .conditional kinds statement.unplaced) : Sentence .statement
          (.ifWord :: (condition inside ++ (block parts ++ .elseWord :: kinds)))
          (Stmt.branch position test body [statement]).unplaced := by
      simpa [same] using Sentence.conditional (.branchElseIf phrase areParts sentence)
    exact stallsAt_bind (readsAt_ifWord promises.reads) (stallsAt_ifWord promises)
      (fun statement kinds sentence => .of_phrase (derived statement kinds sentence)) fun _ _ _ => stalls_pure _
  · rw [if_neg isIf]
    exact alternative.stalls kind

theorem readWhile_promises (promises : inner.PromisesStatement) (bound : Nat) :
    (readWhile bound inner).PromisesStatement := by
  refine ⟨readWhile_reads promises.reads bound, ?_⟩
  apply promising_here_bind
  intro position
  apply promising_expect_bind .whileWord nofun
  apply promising_bind (readCondition_reads bound) (readCondition_promising bound)
  rintro test _ ⟨inside, rfl, phrase⟩
  apply promising_bind (readBlock_reads promises.reads bound) (readBlock_promising promises bound)
  rintro body _ ⟨parts, rfl, areParts, same⟩
  exact promising_pure (by simpa [same] using Sentence.whileLoop phrase areParts)

theorem readFor_promises (promises : inner.PromisesStatement) (bound : Nat) :
    (readFor bound inner).PromisesStatement := by
  refine ⟨readFor_reads promises.reads bound, ?_⟩
  apply promising_here_bind
  intro position
  apply promising_expect_bind .forWord nofun
  apply promising_expect_bind .leftParen nofun
  apply promising_bind (readSimple_reads bound) (readSimple_promising bound)
  intro init initKinds initSimple
  apply promising_expect_bind .semicolon nofun
  apply (readExpr_promises bound).bind
  intro test testKinds phrase
  apply promising_expect_bind .semicolon nofun
  apply promising_bind (readSimple_reads bound) (readSimple_promising bound)
  intro step stepKinds stepSimple
  apply promising_expect_bind .rightParen nofun
  apply promising_bind (readBlock_reads promises.reads bound) (readBlock_promising promises bound)
  rintro body _ ⟨parts, rfl, areParts, same⟩
  exact promising_pure (by simpa [same] using Sentence.forLoop initSimple phrase stepSimple areParts)

theorem readReturn_promises (bound : Nat) : (readReturn bound).PromisesStatement := by
  refine ⟨readReturn_reads bound, ?_⟩
  apply promising_here_bind
  intro position
  apply promising_expect_bind .returnWord nofun
  refine promising_accept_bind .semicolon nofun (promising_pure .ret) ?_
  refine ((readExpr_promises bound).bind ?_).stalls
  intro value kinds phrase
  exact promising_expect_bind .semicolon nofun (promising_pure (.retValue phrase))

/-- A token that a statement cannot have is met behind the beginning of a statement. -/
theorem readStmt_promises (bound : Nat) : (readStmt bound).PromisesStatement := by
  have simple (bound : Nat) : Reader.Promising
      (fun kinds statement => Sentence .statement kinds statement.unplaced) do
        let statement ← readSimple bound
        Reader.expect .semicolon
        return statement := by
    apply promising_bind (readSimple_reads bound) (readSimple_promising bound)
    intro statement kinds isSimple
    exact promising_expect_bind .semicolon nofun (promising_pure (.simple isSimple))
  refine ⟨readStmt_reads bound, ?_⟩
  induction bound with
  | zero => exact ⟨(simple 0).viable, fun _ => stallsAt_unexpected (simple 0).viable _⟩
  | succ bound ih =>
    have promises : (readStmt bound).PromisesStatement := ⟨readStmt_reads bound, ih⟩
    refine ⟨(simple 0).viable, fun kind => stallsAt_peek_bind ?_⟩
    cases kind with
    | functionWord => exact (readRoutine_promises promises _).promising.stalls _
    | ifWord => exact (readBranch_promises promises _).promising.stalls _
    | whileWord => exact (readWhile_promises promises _).promising.stalls _
    | forWord => exact (readFor_promises promises _).promising.stalls _
    | returnWord => exact (readReturn_promises _).promising.stalls _
    | _ => exact (simple _).stalls _

/-- A token that a program cannot have is met behind the beginning of a program. -/
theorem readAll_promising (promises : inner.PromisesStatement) (bound : Nat) (read : Array Stmt) :
    (readAll inner bound read).Promising (ReadBody read) := by
  induction bound generalizing read with
  | zero => exact promising_pure (.nil read)
  | succ bound ih =>
    refine ⟨.of_phrase (.nil read), fun kind => stallsAt_peek_bind ?_⟩
    split
    case isTrue => exact stalls_pure _ _
    case isFalse =>
      refine (promises.bind ?_).stalls kind
      intro statement kinds sentence
      exact (ih _).imp fun _ _ => .cons sentence

end Statements

section Programs

/-- The error with which reading tokens as a program ends, and the index of the token at which it stands. -/
def Program.failure? (tokens : List Token) : Option (CompileError × Nat) :=
  match readProgram (.ofTokens tokens) with
  | .ok _ _ => none
  | .error error rest => some (error, (Stream.ofTokens tokens).tokens.length - rest.tokens.length)

/-- The kind of the token at an index. Behind all tokens stands the end of the input. -/
def kindAt (tokens : List Token) (index : Nat) : TokenKind :=
  (tokens[index]?.map (·.kind)).getD .endOfInput

variable {tokens others : List Token} {taken left : List TokenKind}

theorem Stream.endOfInput_not_mem_kinds_ofTokens (tokens : List Token) :
    .endOfInput ∉ (Stream.ofTokens tokens).kinds := by
  rw [kinds_ofTokens]
  intro member
  simpa using List.mem_takeWhile_imp member

theorem Stream.kinds_eq_append {stream rest : Stream} {before : List Token}
    (splits : stream.tokens = before ++ rest.tokens) :
    stream.kinds = before.map (·.kind) ++ rest.kinds := by
  rw [kinds, splits, List.map_append]
  rfl

theorem Grammar.exists_cons_of_next {kinds : List TokenKind} {kind : TokenKind} (shown : next kinds = kind)
    (inside : kind ≠ .endOfInput) : ∃ more, kinds = kind :: more := by
  cases kinds with
  | nil => exact absurd shown.symm inside
  | cons other more => exact ⟨more, congrArg (· :: more) shown⟩

/-- The token at the place where reading stops is the next one. -/
theorem kindAt_eq_next (splits : (Stream.ofTokens tokens).kinds = taken ++ left) :
    kindAt tokens taken.length = next left := by
  rw [Stream.kinds_ofTokens] at splits
  induction tokens generalizing taken with
  | nil =>
    obtain ⟨rfl, rfl⟩ := List.append_eq_nil_iff.mp splits.symm
    rfl
  | cons token tokens ih =>
    by_cases isEnd : token.kind = .endOfInput
    · obtain ⟨rfl, rfl⟩ : taken = [] ∧ left = [] := by simpa [isEnd] using splits
      simp [isEnd, next, kindAt]
    · cases taken with
      | nil =>
        obtain rfl : token.kind :: (tokens.map (·.kind)).takeWhile (· ≠ .endOfInput) = left := by
          simpa [isEnd] using splits
        rfl
      | cons kind taken =>
        have further : (tokens.map (·.kind)).takeWhile (· ≠ .endOfInput) = taken ++ left := by
          simpa [isEnd] using (List.cons.inj (by simpa [isEnd] using splits)).2
        exact ih further

/-- Tokens that agree with others up to an index have the same kinds before it, and the same kind there. -/
theorem Stream.kinds_ofTokens_of_agree (splits : (Stream.ofTokens tokens).kinds = taken ++ left)
    (agree : ∀ place ≤ taken.length, kindAt others place = kindAt tokens place) :
    ∃ more, (Stream.ofTokens others).kinds = taken ++ more ∧ next more = next left := by
  -- the kinds before the index decide only once all before them agree, so the induction is from the front
  induction taken using List.reverseRecOn generalizing left with
  | nil =>
    have shown : kindAt others ([] : List TokenKind).length = next (Stream.ofTokens others).kinds :=
      kindAt_eq_next rfl
    refine ⟨(Stream.ofTokens others).kinds, rfl, ?_⟩
    rw [← shown, agree _ (Nat.le_refl _), kindAt_eq_next splits]
  | append_singleton taken kind ih =>
    have splitsBefore : (Stream.ofTokens tokens).kinds = taken ++ kind :: left := by simpa using splits
    obtain ⟨more, same, shown⟩ := ih splitsBefore fun place before => agree place (by simp; omega)
    have inside : kind ≠ .endOfInput := by
      rintro rfl
      exact endOfInput_not_mem_kinds_ofTokens tokens (by simp [splitsBefore])
    have shown : next more = kind := shown
    obtain ⟨behind, rfl⟩ := exists_cons_of_next shown inside
    have sameKinds : (Stream.ofTokens others).kinds = (taken ++ [kind]) ++ behind := by simpa using same
    refine ⟨behind, sameKinds, ?_⟩
    rw [← kindAt_eq_next sameKinds, agree _ (Nat.le_refl _), kindAt_eq_next splits]

/-- The tokens of a stream are read as a program if they derive from the grammar, also with larger bounds. -/
theorem readAll_eq_ok_of_derives {stream : Stream} {tree : Program} (derives : Derives stream.kinds tree)
    {bound : Nat} (enough : stream.tokens.length ≤ bound) :
    ∃ program rest, readAll (readStmt bound) bound #[] stream = .ok program rest := by
  obtain ⟨parts, sentences, kinds, rfl⟩ := derives
  have size : (parts.flatMap (·.1)).length ≤ bound := by rwa [← kinds, Stream.kinds, List.length_map]
  obtain ⟨program, rest, ran, _⟩ := readAll_takes sentences size size #[] (by rw [kinds, List.append_nil])
  exact ⟨program, rest, ran⟩

/-- What is read as a program is one of the grammar. -/
theorem Program.derives_of_ofTokens_eq_ok {program : Program} (parsed : Program.ofTokens tokens = .ok program) :
    ∃ tree, Derives (Stream.ofTokens tokens).kinds tree := by
  rw [Program.ofTokens] at parsed
  split at parsed
  case h_2 => cases parsed
  case h_1 rest ran =>
    have enough : (Stream.ofTokens tokens).kinds.length ≤ (Stream.ofTokens tokens).tokens.length := by
      simp [Stream.kinds]
    obtain ⟨tree, derives, _⟩ :=
      readAll_derives (readStmt_reads _) enough (Stream.endOfInput_not_mem_kinds_ofTokens tokens) ran
    exact ⟨tree, derives⟩

/-- Reading a program that fails takes some tokens. If a token is left, then no program begins with the tokens
taken and that one. -/
theorem not_derives_of_readProgram_eq_error {stream rest : Stream} {error : CompileError}
    (ran : readProgram stream = .error error rest) :
    ∃ taken, stream.tokens = taken ++ rest.tokens ∧ stream.stop = rest.stop ∧
      ∀ token more, rest.tokens = token :: more → ∀ behind tree,
        ¬ Derives (taken.map (·.kind) ++ token.kind :: behind) tree := by
  let bound := stream.tokens.length
  have ran : readAll (readStmt bound) bound #[] stream = .error error rest := ran
  have prompt {limit : Nat} (within : bound ≤ limit) :=
    readAll_prompt .refl within (readStmt_prompt within) (readStmt_reads bound) #[] (Nat.le_refl bound)
  obtain ⟨taken, splits, sameStop, _⟩ := prompt (Nat.le_refl bound)
  rw [ran] at splits sameStop
  refine ⟨taken, splits, sameStop, fun token more tokensLeft behind tree derives => ?_⟩
  -- with a bound that is enough for both, the tokens taken and others behind them would be read
  let longer : Stream := ⟨taken ++ token :: behind.map fun kind => ⟨kind, 0, .start⟩, .start⟩
  have kinds : longer.kinds = taken.map (·.kind) ++ token.kind :: behind := by
    simp [longer, Stream.kinds, Function.comp_def]
  obtain ⟨program, after, accepted⟩ :=
    readAll_eq_ok_of_derives (kinds ▸ derives) (Nat.le_max_right bound longer.tokens.length)
  obtain ⟨takenAgain, splitsAgain, _, sameResult⟩ := prompt (Nat.le_max_left bound longer.tokens.length)
  rw [ran] at splitsAgain sameResult
  obtain rfl : takenAgain = taken := List.append_cancel_right (splitsAgain.symm.trans splits)
  cases accepted.symm.trans (sameResult tokensLeft _ _)

/-- Where reading a program fails, no tokens that agree up to there derive from the grammar. -/
theorem not_derives_of_agree {error : CompileError} {rest : Stream}
    (ran : readProgram (.ofTokens tokens) = .error error rest)
    (agree : ∀ place ≤ (Stream.ofTokens tokens).tokens.length - rest.tokens.length,
      kindAt others place = kindAt tokens place) (tree : Program) :
    ¬ Derives (Stream.ofTokens others).kinds tree := by
  intro derives
  obtain ⟨taken, splits, _, impossible⟩ := not_derives_of_readProgram_eq_error ran
  have index : (taken.map (·.kind)).length = (Stream.ofTokens tokens).tokens.length - rest.tokens.length := by
    simp [splits]
  have kinds := Stream.kinds_eq_append splits
  obtain ⟨more, same, shown⟩ := Stream.kinds_ofTokens_of_agree kinds (index ▸ agree)
  cases tokensLeft : rest.tokens with
  | nil =>
    -- both have the same kinds up to their ends, and so the given tokens would be read
    obtain rfl : more = [] := by
      cases more with
      | nil => rfl
      | cons kind behind =>
        obtain rfl : kind = .endOfInput := by simpa [Stream.kinds, tokensLeft, next] using shown
        exact absurd (by simp [same]) (Stream.endOfInput_not_mem_kinds_ofTokens others)
    have sameKinds : (Stream.ofTokens others).kinds = (Stream.ofTokens tokens).kinds := by
      rw [same, kinds, Stream.kinds, tokensLeft, List.map_nil]
    obtain ⟨program, after, accepted⟩ := readAll_eq_ok_of_derives (sameKinds ▸ derives) (Nat.le_refl _)
    cases accepted.symm.trans ran
  | cons token behind =>
    have restKinds : rest.kinds = token.kind :: behind.map (·.kind) := by
      rw [Stream.kinds, tokensLeft, List.map_cons]
    have inside : token.kind ≠ .endOfInput := by
      intro isEnd
      exact Stream.endOfInput_not_mem_kinds_ofTokens tokens (by simp [kinds, restKinds, isEnd])
    obtain ⟨following, rfl⟩ := exists_cons_of_next (shown.trans (by rw [restKinds]; rfl)) inside
    exact impossible token behind tokensLeft following tree (same ▸ derives)

/-- Tokens that begin a program can be completed to one that is read. -/
theorem exists_completion {before : List Token} (viable : Viable (ReadBody #[]) (before.map (·.kind)))
    (inside : .endOfInput ∉ before.map (·.kind)) :
    ∃ more program, Program.ofTokens (before ++ more) = .ok program := by
  obtain ⟨more, _, insideMore, tree, derives, _⟩ := viable
  let completed : List Token := before ++ more.map fun kind => ⟨kind, 0, .start⟩
  have kinds : completed.map (·.kind) = before.map (·.kind) ++ more := by
    simp [completed, Function.comp_def]
  have all : (Stream.ofTokens completed).kinds = before.map (·.kind) ++ more := by
    rw [Stream.kinds_ofTokens, kinds, List.takeWhile_eq_self_iff]
    intro kind member
    have isInside : kind ≠ .endOfInput := by
      rintro rfl
      obtain member | member := List.mem_append.mp member
      · exact inside member
      · exact insideMore member
    simpa using isInside
  obtain ⟨program, rest, ran⟩ := readAll_eq_ok_of_derives (all ▸ derives) (Nat.le_refl _)
  have whole : readProgram (Stream.ofTokens completed) = .ok program rest := ran
  exact ⟨_, program, by rw [Program.ofTokens, whole]⟩

theorem Stream.position_eq_of_ofTokens {before : List Token} {rest : Stream} {token : Token}
    (splits : (Stream.ofTokens tokens).tokens = before ++ rest.tokens)
    (sameStop : (Stream.ofTokens tokens).stop = rest.stop) (stands : tokens[before.length]? = some token) :
    rest.position = token.position := by
  let isInside (token : Token) : Bool := token.kind ≠ .endOfInput
  have whole : tokens = before ++ (rest.tokens ++ tokens.dropWhile isInside) := by
    rw [← List.append_assoc, ← splits]
    exact List.takeWhile_append_dropWhile.symm
  rw [whole, List.getElem?_append_right (Nat.le_refl _), Nat.sub_self] at stands
  cases tokensLeft : rest.tokens with
  | nil =>
    have isFirst : tokens.find? (·.kind = .endOfInput) = some token := by
      rw [List.find?_eq_head?_dropWhile_not, ← stands, tokensLeft, List.nil_append, List.head?_eq_getElem?]
      simp [isInside]
    have stop : (Stream.ofTokens tokens).stop = token.position := by rw [ofTokens, stopOf, isFirst]
    rw [Stream.position, tokensLeft, ← stop, sameStop]
    rfl
  | cons first more =>
    rw [tokensLeft] at stands
    cases stands
    rw [Stream.position, tokensLeft]
    rfl

/-- Reading a program that fails at an unexpected token stands at the first impossible one: the failure names
the token at the index where it stands, the tokens before that index begin a program that is read, and no
tokens whose kinds agree up to that index are read. -/
theorem Program.failure_at_first_impossible_token {expectation : Expectation} {found : TokenKind}
    {position : Position} (failed : Program.ofTokens tokens = .error (.expected expectation found position)) :
    ∃ index ≤ tokens.length, Program.failure? tokens = some (.expected expectation found position, index) ∧
      found = kindAt tokens index ∧ (∀ token, tokens[index]? = some token → position = token.position) ∧
      (∃ more program, Program.ofTokens (tokens.take index ++ more) = .ok program) ∧
      ∀ others, (∀ place ≤ index, kindAt others place = kindAt tokens place) →
        ∀ program, Program.ofTokens others ≠ .ok program := by
  obtain ⟨rest, ran⟩ : ∃ rest,
      readProgram (.ofTokens tokens) = .error (.expected expectation found position) rest := by
    rw [Program.ofTokens] at failed
    split at failed
    case h_1 => cases failed
    case h_2 rest ran =>
      cases failed
      exact ⟨rest, ran⟩
  obtain ⟨taken, splits, sameStop, _⟩ := not_derives_of_readProgram_eq_error ran
  have splitsKinds := Stream.kinds_eq_append splits
  obtain ⟨rfl, rfl, kinds, splitsAgain, viable⟩ :=
    (readAll_promising (readStmt_promises _) _ #[]).stalls _ rfl ran
  obtain rfl : kinds = taken.map (·.kind) := List.append_cancel_right (splitsAgain.symm.trans splitsKinds)
  have inside : .endOfInput ∉ taken.map (·.kind) := fun member =>
    Stream.endOfInput_not_mem_kinds_ofTokens tokens (splitsKinds ▸ List.mem_append_left _ member)
  have begins : taken <+: tokens :=
    (splits ▸ List.prefix_append taken rest.tokens : taken <+: (Stream.ofTokens tokens).tokens).trans
      (List.takeWhile_prefix _)
  have index : (Stream.ofTokens tokens).tokens.length - rest.tokens.length = taken.length := by simp [splits]
  refine ⟨taken.length, begins.length_le, ?_, ?_, ?_, ?_, fun others agree program accepted => ?_⟩
  · rw [Program.failure?, ran, ← index]
  · rw [Stream.kind_eq_next, ← kindAt_eq_next splitsKinds, List.length_map]
  · exact fun token stands => Stream.position_eq_of_ofTokens splits sameStop stands
  · rw [← List.prefix_iff_eq_take.mp begins]
    exact exists_completion viable inside
  · obtain ⟨tree, derives⟩ := Program.derives_of_ofTokens_eq_ok accepted
    exact not_derives_of_agree ran (index ▸ agree) tree derives

/-- In `if (x) { y = ; }` the semicolon is the first impossible token. -/
theorem Program.failure_at_first_impossible_token_missing_value :
    let kinds : List TokenKind := [.ifWord, .leftParen, .identifier "x", .rightParen, .leftBrace,
      .identifier "y", .equal, .semicolon, .rightBrace, .endOfInput]
    let tokens : List Token := kinds.mapIdx fun column kind => ⟨kind, column, ⟨1, column + 1⟩⟩
    let error : CompileError := .expected .expression .semicolon ⟨1, 8⟩
    Program.ofTokens tokens = .error error ∧ Program.failure? tokens = some (error, 7) ∧
      (∃ more program, Program.ofTokens (tokens.take 7 ++ more) = .ok program) ∧
      ∀ others, (∀ place ≤ 7, kindAt others place = kindAt tokens place) →
        ∀ program, Program.ofTokens others ≠ .ok program := by
  intro kinds tokens error
  have failed : Program.ofTokens tokens = .error error := rfl
  have stands : Program.failure? tokens = some (error, 7) := rfl
  obtain ⟨index, _, same, _, _, viable, impossible⟩ := Program.failure_at_first_impossible_token failed
  obtain rfl : index = 7 := (Prod.mk.inj (Option.some.inj (same.symm.trans stands))).2
  exact ⟨failed, stands, viable, impossible⟩

end Programs

end Dcpu.Source
