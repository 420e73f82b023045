import Dcpu.Proofs.Effects
import Dcpu.Proofs.Grammar.Marks
import Dcpu.Source.Statement

/-! # What is read derives from the grammar

Every reader takes tokens from the front of a stream. Here it is said of each of them what those tokens
are: a phrase, a statement or a program, with the tree that is read.
-/

namespace Dcpu.Source

open Effects Grammar

namespace Reader

variable {α β : Type} {kind : TokenKind} {phrase : List TokenKind → α → Prop}
  {longer : List TokenKind → β → Prop}

/-- Before a token of the given kind, a reader that succeeds takes the tokens of what it reads. -/
def ReadsAt (kind : TokenKind) (phrase : List TokenKind → α → Prop) (reader : Reader α) : Prop :=
  ∀ ⦃stream value rest⦄, stream.kind = kind → reader stream = .ok value rest →
    ∃ kinds, stream.kinds = kinds ++ rest.kinds ∧ phrase kinds value

/-- A reader that succeeds takes the tokens of what it reads. -/
def Reads (phrase : List TokenKind → α → Prop) (reader : Reader α) : Prop :=
  ∀ kind, reader.ReadsAt kind phrase

theorem Reads.imp {reader : Reader α} {other : List TokenKind → α → Prop} (reads : reader.Reads phrase)
    (implies : ∀ kinds value, phrase kinds value → other kinds value) : reader.Reads other := by
  intro kind stream value rest here ran
  obtain ⟨kinds, taken, isPhrase⟩ := reads kind here ran
  exact ⟨kinds, taken, implies kinds value isPhrase⟩

theorem readsAt_pure {value : α} (done : phrase [] value) : (pure value : Reader α).ReadsAt kind phrase := by
  rintro stream _ rest _ ⟨⟩
  exact ⟨[], rfl, done⟩

theorem reads_pure {value : α} (done : phrase [] value) : (pure value : Reader α).Reads phrase :=
  fun _ => readsAt_pure done

theorem readsAt_throw (error : CompileError) : (throw error : Reader α).ReadsAt kind phrase :=
  fun _ _ _ _ impossible => nomatch impossible

theorem readsAt_bind {first : Reader α} {following : α → Reader β} (reads : first.ReadsAt kind phrase)
    (readsNext : ∀ value kinds, phrase kinds value →
      (following value).Reads fun more => longer (kinds ++ more)) :
    (first >>= following).ReadsAt kind longer := by
  intro stream value rest here ran
  obtain ⟨middle, between, firstRan, nextRan⟩ := bind_eq_ok_iff.mp ran
  obtain ⟨kinds, taken, isPhrase⟩ := reads here firstRan
  obtain ⟨more, takenNext, isLonger⟩ := readsNext middle kinds isPhrase _ rfl nextRan
  exact ⟨kinds ++ more, by rw [taken, takenNext, List.append_assoc], isLonger⟩

/-- What two readers take one after the other is what both take together. -/
theorem reads_bind {first : Reader α} {following : α → Reader β} (reads : first.Reads phrase)
    (readsNext : ∀ value kinds, phrase kinds value →
      (following value).Reads fun more => longer (kinds ++ more)) :
    (first >>= following).Reads longer :=
  fun kind => readsAt_bind (reads kind) readsNext

theorem readsAt_peek_bind {following : TokenKind → Reader β} (reads : (following kind).ReadsAt kind longer) :
    (peek >>= following).ReadsAt kind longer := by
  rintro stream value rest rfl ran
  exact reads rfl ran

theorem readsAt_here_bind {following : Position → Reader β}
    (reads : ∀ position, (following position).ReadsAt kind longer) :
    (here >>= following).ReadsAt kind longer :=
  fun stream _ _ isHere ran => reads stream.position isHere ran

theorem readsAt_advance_bind {following : Unit → Reader β} (inside : kind ≠ .endOfInput)
    (reads : (following ()).Reads fun more => longer (kind :: more)) :
    (advance >>= following).ReadsAt kind longer := by
  rintro stream value rest rfl ran
  obtain ⟨more, taken, isLonger⟩ := reads _ rfl (ran : following () stream.drop = .ok value rest)
  exact ⟨stream.kind :: more, by rw [Stream.kinds_eq_cons inside, taken]; rfl, isLonger⟩

theorem reads_here : here.Reads fun kinds _ => kinds = [] :=
  fun _ => readsAt_here_bind fun _ => readsAt_pure rfl

theorem readsAt_unexpected (expectation : Expectation) :
    (unexpected expectation : Reader α).ReadsAt kind phrase :=
  readsAt_peek_bind (readsAt_here_bind fun _ => readsAt_throw _)

theorem reads_accept (kind : TokenKind) (inside : kind ≠ .endOfInput) :
    (accept kind).Reads fun kinds accepted => kinds = if accepted then [kind] else [] := by
  intro first
  apply readsAt_peek_bind
  split
  case isTrue same =>
    subst same
    exact readsAt_advance_bind inside (reads_pure rfl)
  case isFalse => exact readsAt_pure rfl

theorem reads_expect (kind : TokenKind) (inside : kind ≠ .endOfInput) :
    (expect kind).Reads fun kinds _ => kinds = [kind] := by
  apply reads_bind (reads_accept kind inside)
  rintro accepted _ rfl
  cases accepted with
  | true => exact reads_pure rfl
  | false => exact fun _ => readsAt_unexpected _

theorem reads_identifier : identifier.Reads fun kinds name => kinds = [.identifier name] := by
  intro kind
  apply readsAt_peek_bind
  cases kind with
  | identifier name => exact readsAt_advance_bind nofun (reads_pure rfl)
  | _ => exact readsAt_unexpected _

end Reader

open Reader

section Rows

variable {α β : Type} {mark? : TokenKind → Option α} {kind : β → TokenKind} {value : β → α} {good : β → Prop}
  {rank : Rank} {operand : Reader Expr}

def Reader.Parses (rank : Rank) (reader : Reader Expr) : Prop :=
  reader.Reads fun kinds expr => Phrase rank kinds expr.unplaced

/-- A mark is taken if it is one of those that are sought, and else nothing is. -/
theorem Reader.reads_accept? (finds : Finds mark? kind value good) :
    (accept? mark?).Reads fun kinds found => match found with
      | none => kinds = []
      | some result => ∃ mark, good mark ∧ value mark = result ∧ kinds = [kind mark] := by
  intro first
  apply readsAt_peek_bind
  split
  case h_1 => exact readsAt_pure rfl
  case h_2 result chosen =>
    obtain ⟨mark, isGood, rfl, rfl⟩ := finds.sound chosen
    refine readsAt_advance_bind ?_ (reads_pure ⟨mark, isGood, rfl, rfl⟩)
    intro atEnd
    rw [atEnd, finds.none_end] at chosen
    cases chosen

/-- Tokens of a row of operands, and what is read of them behind operands that are given last first. -/
def Grammar.ReadRow (rank : Rank) (kind : β → TokenKind) (value : β → α) (good : β → Prop)
    (read : List (α × Expr)) (kinds : List TokenKind) (result : List (α × Expr)) : Prop :=
  ∃ parts, Row rank kind good parts kinds ∧ result.map (Prod.map id Expr.unplaced) =
    read.reverse.map (Prod.map id Expr.unplaced) ++ parts.map fun part => (value part.mark, part.tree)

theorem Grammar.ReadRow.nil (read : List (α × Expr)) :
    ReadRow rank kind value good read [] read.reverse :=
  ⟨[], .nil, by simp⟩

theorem Grammar.ReadRow.cons {read result : List (α × Expr)} {mark : β} {expr : Expr}
    {kinds more : List TokenKind} (isGood : good mark) (phrase : Phrase rank kinds expr.unplaced)
    (row : ReadRow rank kind value good ((value mark, expr) :: read) more result) :
    ReadRow rank kind value good read (kind mark :: (kinds ++ more)) result := by
  obtain ⟨parts, isRow, results⟩ := row
  exact ⟨⟨mark, kinds, expr.unplaced⟩ :: parts, .cons isGood phrase isRow, by simpa using results⟩

/-- What is read as a row is a row of the grammar. -/
theorem readMore_reads (finds : Finds mark? kind value good) (parses : operand.Parses rank) (bound : Nat)
    (read : List (α × Expr)) :
    (readMore mark? operand bound read).Reads (ReadRow rank kind value good read) := by
  induction bound generalizing read with
  | zero => exact reads_pure (.nil read)
  | succ bound ih =>
    apply reads_bind (reads_accept? finds)
    rintro (_ | result) kinds found
    · obtain rfl := found
      exact reads_pure (.nil read)
    · obtain ⟨mark, isGood, rfl, rfl⟩ := found
      apply reads_bind parses
      intro operand operandKinds phrase
      exact (ih _).imp fun _ _ => .cons isGood phrase

end Rows

section Expressions

variable {operand inner : Reader Expr}

/-- A row that is joined to the left is a phrase of its rank. -/
theorem Grammar.ReadRow.joined {rank : Rank} (binary : rank.operators ≠ []) {first : Expr}
    {kinds more : List TokenKind} (phrase : Phrase rank.tighter kinds first.unplaced)
    {row : List (BinaryOp × Expr)}
    (read : ReadRow rank.tighter BinaryOp.kind id (· ∈ rank.operators) [] more row) :
    Phrase rank (kinds ++ more) (joinedRow first row).unplaced := by
  obtain ⟨parts, isRow, results⟩ := read
  rw [unplaced_joinedRow first results, isRow.kinds_eq]
  exact .binary rank binary phrase isRow.marks isRow.operands

/-- What is read at a level is a phrase of its rank, if the tighter levels read phrases. -/
theorem joinLevels_parses (rank : Rank) (binary : rank.operators ≠ []) (bound : Nat)
    {tighter : List (TokenKind → Option BinaryOp)}
    (parses : (joinLevels bound operand tighter).Parses rank.tighter) :
    (joinLevels bound operand (rank.operator? :: tighter)).Parses rank := by
  apply reads_bind parses
  intro first kinds phrase
  rw [show first = joinedRow first [].reverse from rfl, joinLeft_eq_readMore]
  apply reads_bind (readMore_reads (finds_operator rank) parses bound [])
  intro row rowKinds read
  exact reads_pure (by simpa using read.joined binary phrase)

/-- A row with connectives is a phrase of its logical rank. -/
theorem Grammar.ReadRow.connected {op : LogicalOp} {first : Expr} {kinds moreKinds : List TokenKind}
    (phrase : Phrase (Rank.ofLogical op).tighter kinds first.unplaced) {more : List (Unit × Expr)}
    (read : ReadRow (Rank.ofLogical op).tighter id (fun _ => ()) (· ∈ op.kinds) [] moreKinds more) :
    Phrase (.ofLogical op) (kinds ++ moreKinds)
      (Grammar.connected op first.unplaced ((more.map (·.2)).map Expr.unplaced)) := by
  obtain ⟨parts, row, results⟩ := read
  have trees : (more.map (·.2)).map Expr.unplaced = parts.map Joint.tree := by
    simpa [Function.comp_def] using congrArg (List.map Prod.snd) results
  rw [trees, row.kinds_eq]
  exact .logical op phrase row.marks row.operands

theorem readLogical_parses (op : LogicalOp) (bound : Nat)
    (parses : operand.Parses (Rank.ofLogical op).tighter) :
    (readLogical op (isConnective op) bound operand).Parses (.ofLogical op) := by
  apply reads_bind parses
  intro first kinds phrase
  apply reads_bind (readMore_reads (finds_connective op) parses bound [])
  intro more moreKinds read
  have derived := read.connected phrase
  cases more with
  | nil => exact reads_pure (by simpa [connected] using derived)
  | cons part more => exact reads_pure (by simpa [connected] using derived)

/-- A row with relations is a comparison. -/
theorem Grammar.ReadRow.compared {first : Expr} {kinds more : List TokenKind}
    (phrase : Phrase .bitOr kinds first.unplaced) {stages : List (Relation × Expr)}
    (read : ReadRow .bitOr Relation.kind id (fun _ => True) [] more stages) :
    Phrase .comparison (kinds ++ more)
      (Grammar.compared first.unplaced (stages.map (Prod.map id Expr.unplaced))) := by
  obtain ⟨parts, row, results⟩ := read
  have trees : stages.map (Prod.map id Expr.unplaced) = parts.map fun part => (part.mark, part.tree) := by
    simpa using results
  rw [trees, row.kinds_eq]
  exact .comparison phrase row.operands

theorem readComparison_parses (bound : Nat) (parses : operand.Parses .bitOr) :
    (readComparison bound operand).Parses .comparison := by
  apply reads_bind parses
  intro first kinds phrase
  apply reads_bind (readMore_reads finds_relation parses bound [])
  intro stages stageKinds read
  have derived := read.compared phrase
  cases stages with
  | nil => exact reads_pure (by simpa [compared] using derived)
  | cons stage stages => exact reads_pure (by simpa [compared] using derived)

theorem readUnary_parses (op : UnaryOp) {isMark : TokenKind → Bool}
    (marks : ∀ kind, isMark kind = true ↔ kind ∈ op.kinds)
    (parses : operand.Parses (Rank.ofUnary op).tighter) (bound : Nat) :
    (readUnary op isMark operand bound).Parses (.ofUnary op) := by
  have plain : operand.Parses (.ofUnary op) := parses.imp fun _ _ => .plain op
  induction bound with
  | zero => exact plain
  | succ bound ih =>
    intro kind
    apply readsAt_here_bind
    intro position
    apply readsAt_peek_bind
    split
    case isTrue isMark =>
      have mark := (marks kind).mp isMark
      refine readsAt_advance_bind (by rintro rfl; cases op <;> simp [UnaryOp.kinds] at mark) ?_
      apply reads_bind ih
      intro expr kinds phrase
      exact reads_pure (by simpa using Phrase.unary op mark phrase)
    case isFalse => exact plain kind

theorem readPower_parses (parses : operand.Parses .unary) : (readPower operand).Parses .power := by
  apply reads_bind parses
  intro base kinds phrase
  apply reads_bind (reads_accept .starStar nofun)
  rintro accepted _ rfl
  cases accepted with
  | true =>
    apply reads_bind parses
    intro exponent exponentKinds exponentPhrase
    exact reads_pure (by simpa using Phrase.power phrase exponentPhrase)
  | false => exact reads_pure (by simpa using Phrase.base phrase)

/-- A phrase whose tree is a name is that name in parentheses. -/
theorem Grammar.Phrase.callee {rank : Rank} {kinds : List TokenKind} {tree : Expr} {position : Position}
    {name : String} (phrase : Phrase rank kinds tree) (named : tree = .name position name) :
    Callee kinds name := by
  induction phrase with
  | @logical op first tree parts _ _ _ ih =>
    cases parts with
    | nil => simpa [Joint.row] using ih named
    | cons => cases named
  | unary | power | number => cases named
  | plain op _ ih => exact ih named
  | @comparison first tree parts _ _ ih =>
    cases parts with
    | nil => simpa [Joint.row] using ih named
    | cons => cases named
  | @binary rank first tree parts _ _ _ _ ih =>
    obtain rfl | ⟨parts, last, rfl⟩ := parts.eq_nil_or_concat
    · simpa [Joint.row] using ih named
    · simp [joined] at named
  | base _ ih => exact ih named
  | @indexed kinds tree indices _ _ ih =>
    obtain rfl | ⟨indices, last, rfl⟩ := indices.eq_nil_or_concat
    · simpa [bracketed] using ih named
    · simp [Grammar.indexed] at named
  | @called kinds name indices =>
    obtain rfl | ⟨indices, last, rfl⟩ := indices.eq_nil_or_concat
    · cases named
    · simp [Grammar.indexed] at named
  | name =>
    cases named
    exact .name
  | parenthesised _ ih => exact .parenthesised (ih named)

/-- Tokens behind an operand, and what is read of both: there stand indices, and before them a call if the
operand is a name. -/
def Grammar.ReadSuffixes (expr : Expr) (kinds : List TokenKind) (result : Expr) : Prop :=
  ∃ indices : List (List TokenKind × Expr), (∀ index ∈ indices, Phrase .or index.1 index.2) ∧
    (kinds = bracketed indices ∧ result.unplaced = indexed expr.unplaced indices ∨
      ∃ position name, expr = .name position name ∧ kinds = .leftParen :: .rightParen :: bracketed indices ∧
        result.unplaced = indexed (.call .nowhere name) indices)

theorem Grammar.ReadSuffixes.nil (expr : Expr) : ReadSuffixes expr [] expr :=
  ⟨[], nofun, .inl ⟨rfl, rfl⟩⟩

theorem Grammar.ReadSuffixes.index {expr index result : Expr} {position : Position}
    {kinds more : List TokenKind} (phrase : Phrase .or kinds index.unplaced)
    (read : ReadSuffixes (.index position expr index) more result) :
    ReadSuffixes expr (.leftBracket :: (kinds ++ ([.rightBracket] ++ more))) result := by
  obtain ⟨indices, areIndices, ⟨rfl, tree⟩ | ⟨_, _, impossible, _⟩⟩ := read
  · exact ⟨(kinds, index.unplaced) :: indices, List.forall_mem_cons.mpr ⟨phrase, areIndices⟩,
      .inl ⟨by simp [bracketed], tree⟩⟩
  · cases impossible

theorem Grammar.ReadSuffixes.call {start : Position} {name : String} {result : Expr} {kinds : List TokenKind}
    (read : ReadSuffixes (.call start name) kinds result) :
    ReadSuffixes (.name start name) (.leftParen :: ([.rightParen] ++ kinds)) result := by
  obtain ⟨indices, areIndices, ⟨rfl, tree⟩ | ⟨_, _, impossible, _⟩⟩ := read
  · exact ⟨indices, areIndices, .inr ⟨start, name, rfl, rfl, tree⟩⟩
  · cases impossible

/-- A primary phrase with the suffixes behind it is a phrase with suffixes. -/
theorem Grammar.ReadSuffixes.suffixed {expr result : Expr} {kinds more : List TokenKind}
    (read : ReadSuffixes expr more result) (phrase : Phrase .primary kinds expr.unplaced) :
    Phrase .suffixed (kinds ++ more) result.unplaced := by
  obtain ⟨indices, areIndices, ⟨rfl, tree⟩ | ⟨position, name, rfl, rfl, tree⟩⟩ := read
  · rw [tree]
    exact .indexed phrase areIndices
  · rw [tree]
    exact .called (phrase.callee rfl) areIndices

theorem readSuffixes_reads (parses : inner.Parses .or) (bound : Nat) (expr : Expr) :
    (readSuffixes inner bound expr).Reads (ReadSuffixes expr) := by
  induction bound generalizing expr with
  | zero => exact reads_pure (.nil expr)
  | succ bound ih =>
    intro kind
    apply readsAt_here_bind
    intro position
    apply readsAt_peek_bind
    cases kind with
    | leftBracket =>
      refine readsAt_advance_bind nofun ?_
      apply reads_bind parses
      intro index indexKinds phrase
      apply reads_bind (reads_expect .rightBracket nofun)
      rintro _ _ rfl
      exact (ih _).imp fun _ _ => .index phrase
    | leftParen =>
      refine readsAt_advance_bind nofun ?_
      apply reads_bind (reads_accept .rightParen nofun)
      rintro accepted _ rfl
      cases accepted with
      | true =>
        cases expr with
        | name start name => exact (ih (.call start name)).imp fun _ _ => .call
        | _ => exact fun _ => readsAt_throw _
      | false => exact fun _ => readsAt_here_bind fun _ => readsAt_throw _
    | _ => exact readsAt_pure (.nil expr)

theorem readPrimary_parses (parses : inner.Parses .or) : (readPrimary inner).Parses .primary := by
  intro kind
  apply readsAt_here_bind
  intro position
  apply readsAt_peek_bind
  cases kind with
  | number => exact readsAt_advance_bind nofun (reads_pure .number)
  | identifier => exact readsAt_advance_bind nofun (reads_pure .name)
  | leftParen =>
    refine readsAt_advance_bind nofun ?_
    apply reads_bind parses
    intro expr kinds phrase
    apply reads_bind (reads_expect .rightParen nofun)
    rintro _ _ rfl
    exact reads_pure (.parenthesised phrase)
  | _ => exact readsAt_unexpected _

theorem readSuffixed_parses (parses : inner.Parses .or) (bound : Nat) :
    Reader.Parses .suffixed (do readSuffixes inner bound (← readPrimary inner)) := by
  apply reads_bind (readPrimary_parses parses)
  intro expr kinds phrase
  exact (readSuffixes_reads parses bound expr).imp fun _ _ read => read.suffixed phrase

theorem readOperand_parses (parses : inner.Parses .or) (bound : Nat) :
    (readOperand bound inner).Parses .power :=
  readPower_parses <| readUnary_parses .negate (by simp [UnaryOp.kinds]) (readSuffixed_parses parses bound) bound

/-- An expression that is read is a phrase of the grammar. -/
theorem readExpr_parses (bound : Nat) : (readExpr bound).Parses .or := by
  induction bound with
  | zero => exact fun _ => readsAt_unexpected _
  | succ bound ih =>
    have arithmetic : (joinLevels (bound + 1) (readOperand (bound + 1) (readExpr bound)) binaryLevels).Parses
        .bitOr := by
      rw [binaryLevels_eq]
      have operand : (joinLevels (bound + 1) (readOperand (bound + 1) (readExpr bound)) []).Parses .power :=
        readOperand_parses ih (bound + 1)
      have term := joinLevels_parses .term nofun (bound + 1) operand
      have sum := joinLevels_parses .sum nofun (bound + 1) term
      have shift := joinLevels_parses .shift nofun (bound + 1) sum
      have bitAnd := joinLevels_parses .bitAnd nofun (bound + 1) shift
      have bitXor := joinLevels_parses .bitXor nofun (bound + 1) bitAnd
      exact joinLevels_parses .bitOr nofun (bound + 1) bitXor
    apply readLogical_parses .or
    apply readLogical_parses .and
    exact readUnary_parses .not (by simp [isNot, UnaryOp.kinds])
      (readComparison_parses (bound + 1) arithmetic) (bound + 1)

end Expressions

section Statements

variable {inner : Reader Stmt}

/-- Tokens behind the expression `first`, and what is read of both: there stand expressions behind equal
signs, and the last of all is the value. -/
def Grammar.ReadAssigned (first : List TokenKind) (before : List Expr) (kinds : List TokenKind)
    (result : Expr × List Expr) : Prop :=
  ∃ (targets : List (List TokenKind × Expr)) (last : List TokenKind),
    (∀ target ∈ targets, Phrase .or target.1 target.2) ∧ Phrase .or last result.1.unplaced ∧
    first ++ kinds = targets.flatMap (fun target => target.1 ++ [.equal]) ++ last ∧
    result.2.reverse.map Expr.unplaced = before.reverse.map Expr.unplaced ++ targets.map (·.2)

theorem Grammar.ReadAssigned.nil {first : List TokenKind} {value : Expr}
    (phrase : Phrase .or first value.unplaced) (before : List Expr) :
    ReadAssigned first before [] (value, before) :=
  ⟨[], first, nofun, phrase, by simp, by simp⟩

theorem Grammar.ReadAssigned.cons {first kinds more : List TokenKind} {value : Expr} {before : List Expr}
    {result : Expr × List Expr} (phrase : Phrase .or first value.unplaced)
    (read : ReadAssigned kinds (value :: before) more result) :
    ReadAssigned first before ([.equal] ++ (kinds ++ more)) result := by
  obtain ⟨targets, last, areTargets, lastPhrase, split, trees⟩ := read
  refine ⟨(first, value.unplaced) :: targets, last, List.forall_mem_cons.mpr ⟨phrase, areTargets⟩, lastPhrase,
    ?_, by simpa using trees⟩
  simp [split]

/-- Parts between equality signs are a simple statement. -/
theorem Grammar.ReadAssigned.simple {first kinds : List TokenKind} {result : Expr × List Expr}
    (read : ReadAssigned first [] kinds result) (position : Position) :
    Simple (first ++ kinds) (simpleOf position result.1 result.2).unplaced := by
  obtain ⟨targets, last, areTargets, lastPhrase, split, trees⟩ := read
  obtain ⟨value, before⟩ := result
  rw [split]
  cases targets with
  | nil =>
    obtain rfl : before = [] := by simpa using trees
    exact .evaluate lastPhrase
  | cons target targets =>
    have derived := Simple.assign (List.cons_ne_nil target targets) areTargets lastPhrase
    have same : before.reverse.map Expr.unplaced = (target :: targets).map (·.2) := trees
    rw [← same] at derived
    cases before with
    | nil => cases same
    | cons => simpa only [simpleOf, Stmt.unplaced_assign] using derived

theorem readAssigned_reads {expr : Reader Expr} (parses : expr.Parses .or) (bound : Nat) {value : Expr}
    {first : List TokenKind} (phrase : Phrase .or first value.unplaced) (before : List Expr) :
    (readAssigned expr bound value before).Reads (ReadAssigned first before) := by
  induction bound generalizing value first before with
  | zero => exact reads_pure (.nil phrase before)
  | succ bound ih =>
    apply reads_bind (reads_accept .equal nofun)
    rintro accepted _ rfl
    cases accepted with
    | true =>
      apply reads_bind parses
      intro following kinds nextPhrase
      exact (ih nextPhrase (value :: before)).imp fun _ _ => .cons phrase
    | false => exact reads_pure (.nil phrase before)

theorem readSimple_reads (bound : Nat) :
    (readSimple bound).Reads fun kinds statement => Simple kinds statement.unplaced := by
  intro kind
  apply readsAt_here_bind
  intro position
  apply readsAt_bind (readExpr_parses bound kind)
  intro first kinds phrase
  apply reads_bind (readAssigned_reads (readExpr_parses bound) bound phrase [])
  intro result more read
  exact reads_pure (by simpa using read.simple position)

def Reader.ReadsStatement (reader : Reader Stmt) : Prop :=
  reader.Reads fun kinds statement => Sentence .statement kinds statement.unplaced

/-- Tokens of statements, and what is read of them behind statements already read. -/
def Grammar.ReadBody (read : Array Stmt) (kinds : List TokenKind) (body : List Stmt) : Prop :=
  ∃ more, Derives kinds more ∧ body.map Stmt.unplaced = read.toList.map Stmt.unplaced ++ more

theorem Grammar.ReadBody.nil (read : Array Stmt) : ReadBody read [] read.toList :=
  ⟨[], .nil, by simp⟩

theorem Grammar.ReadBody.cons {read : Array Stmt} {statement : Stmt} {kinds more : List TokenKind}
    {body : List Stmt} (sentence : Sentence .statement kinds statement.unplaced)
    (isBody : ReadBody (read.push statement) more body) : ReadBody read (kinds ++ more) body := by
  obtain ⟨others, derives, same⟩ := isBody
  exact ⟨statement.unplaced :: others, derives.cons sentence, by simpa using same⟩

theorem readStmts_reads (reads : inner.ReadsStatement) (bound : Nat) (read : Array Stmt) :
    (readStmts inner bound read).Reads (ReadBody read) := by
  induction bound generalizing read with
  | zero => exact reads_pure (.nil read)
  | succ bound ih =>
    have more : Reader.Reads (ReadBody read) (do readStmts inner bound (read.push (← inner))) := by
      apply reads_bind reads
      intro statement kinds sentence
      exact (ih _).imp fun _ _ => .cons sentence
    intro kind
    apply readsAt_peek_bind
    cases kind with
    | rightBrace | endOfInput => exact readsAt_pure (.nil read)
    | _ => exact more _

/-- What is read as a block is one. -/
theorem readBlock_reads (reads : inner.ReadsStatement) (bound : Nat) :
    (readBlock bound inner).Reads fun kinds body => ∃ parts, kinds = block parts ∧
      (∀ part ∈ parts, Sentence .statement part.1 part.2) ∧ body.map Stmt.unplaced = trees parts := by
  apply reads_bind (reads_expect .leftBrace nofun)
  rintro _ _ rfl
  apply reads_bind (readStmts_reads reads bound #[])
  rintro body _ ⟨_, ⟨parts, areParts, rfl, rfl⟩, same⟩
  apply reads_bind (reads_expect .rightBrace nofun)
  rintro _ _ rfl
  exact reads_pure ⟨parts, rfl, areParts, same⟩

theorem readCondition_reads (bound : Nat) :
    (readCondition bound).Reads fun kinds test => ∃ inside, kinds = condition inside ∧
      Phrase .or inside test.unplaced := by
  apply reads_bind (reads_expect .leftParen nofun)
  rintro _ _ rfl
  apply reads_bind (readExpr_parses bound)
  intro test inside phrase
  apply reads_bind (reads_expect .rightParen nofun)
  rintro _ _ rfl
  exact reads_pure ⟨inside, rfl, phrase⟩

theorem readRoutine_reads (reads : inner.ReadsStatement) (bound : Nat) :
    (readRoutine bound inner).ReadsStatement := by
  apply reads_bind reads_here
  rintro position _ rfl
  apply reads_bind (reads_expect .functionWord nofun)
  rintro _ _ rfl
  apply reads_bind reads_identifier
  rintro name _ rfl
  apply reads_bind (reads_expect .leftParen nofun)
  rintro _ _ rfl
  apply reads_bind (reads_accept .rightParen nofun)
  rintro accepted _ rfl
  cases accepted with
  | true =>
    apply reads_bind (readBlock_reads reads bound)
    rintro body _ ⟨parts, rfl, areParts, same⟩
    exact reads_pure (by simpa [same] using Sentence.routine areParts)
  | false => exact fun _ => readsAt_here_bind fun _ => readsAt_throw _

/-- Before `if` a reader of statements reads a conditional. -/
theorem readsAt_ifWord (reads : inner.ReadsStatement) :
    inner.ReadsAt .ifWord fun kinds statement => Sentence .conditional kinds statement.unplaced := by
  intro stream statement rest here ran
  obtain ⟨kinds, taken, sentence⟩ := reads .ifWord here ran
  refine ⟨kinds, taken, ?_⟩
  obtain ⟨kind, more, rfl, _⟩ := sentence.begins
  obtain rfl : kind = .ifWord := by
    rw [Stream.kind_eq_next, taken] at here
    exact here
  exact sentence.conditional_of_ifWord

theorem readBranch_reads (reads : inner.ReadsStatement) (bound : Nat) :
    (readBranch bound inner).ReadsStatement := by
  apply reads_bind reads_here
  rintro position _ rfl
  apply reads_bind (reads_expect .ifWord nofun)
  rintro _ _ rfl
  apply reads_bind (readCondition_reads bound)
  rintro test _ ⟨inside, rfl, phrase⟩
  apply reads_bind (readBlock_reads reads bound)
  rintro body _ ⟨parts, rfl, areParts, same⟩
  apply reads_bind (reads_accept .elseWord nofun)
  rintro accepted _ rfl
  cases accepted with
  | true =>
    intro kind
    apply readsAt_peek_bind
    by_cases isIf : kind = .ifWord
    · subst isIf
      rw [if_pos rfl]
      apply readsAt_bind (readsAt_ifWord reads)
      intro statement kinds sentence
      exact reads_pure (by
        simpa [same] using Sentence.conditional (.branchElseIf phrase areParts sentence))
    · rw [if_neg isIf]
      apply readsAt_bind (readBlock_reads reads bound kind)
      rintro alternative _ ⟨others, rfl, areOthers, sameOthers⟩
      exact reads_pure (by
        simpa [same, sameOthers] using Sentence.conditional (.branchElse phrase areParts areOthers))
  | false => exact reads_pure (by simpa [same] using Sentence.conditional (.branch phrase areParts))

theorem readWhile_reads (reads : inner.ReadsStatement) (bound : Nat) :
    (readWhile bound inner).ReadsStatement := by
  apply reads_bind reads_here
  rintro position _ rfl
  apply reads_bind (reads_expect .whileWord nofun)
  rintro _ _ rfl
  apply reads_bind (readCondition_reads bound)
  rintro test _ ⟨inside, rfl, phrase⟩
  apply reads_bind (readBlock_reads reads bound)
  rintro body _ ⟨parts, rfl, areParts, same⟩
  exact reads_pure (by simpa [same] using Sentence.whileLoop phrase areParts)

theorem readFor_reads (reads : inner.ReadsStatement) (bound : Nat) :
    (readFor bound inner).ReadsStatement := by
  apply reads_bind reads_here
  rintro position _ rfl
  apply reads_bind (reads_expect .forWord nofun)
  rintro _ _ rfl
  apply reads_bind (reads_expect .leftParen nofun)
  rintro _ _ rfl
  apply reads_bind (readSimple_reads bound)
  intro init initKinds initSimple
  apply reads_bind (reads_expect .semicolon nofun)
  rintro _ _ rfl
  apply reads_bind (readExpr_parses bound)
  intro test testKinds phrase
  apply reads_bind (reads_expect .semicolon nofun)
  rintro _ _ rfl
  apply reads_bind (readSimple_reads bound)
  intro step stepKinds stepSimple
  apply reads_bind (reads_expect .rightParen nofun)
  rintro _ _ rfl
  apply reads_bind (readBlock_reads reads bound)
  rintro body _ ⟨parts, rfl, areParts, same⟩
  exact reads_pure (by simpa [same] using Sentence.forLoop initSimple phrase stepSimple areParts)

theorem readReturn_reads (bound : Nat) : (readReturn bound).ReadsStatement := by
  apply reads_bind reads_here
  rintro position _ rfl
  apply reads_bind (reads_expect .returnWord nofun)
  rintro _ _ rfl
  apply reads_bind (reads_accept .semicolon nofun)
  rintro accepted _ rfl
  cases accepted with
  | true => exact reads_pure .ret
  | false =>
    apply reads_bind (readExpr_parses bound)
    intro value kinds phrase
    apply reads_bind (reads_expect .semicolon nofun)
    rintro _ _ rfl
    exact reads_pure (.retValue phrase)

/-- A statement that is read derives from the grammar. -/
theorem readStmt_reads (bound : Nat) : (readStmt bound).ReadsStatement := by
  induction bound with
  | zero => exact fun _ => readsAt_unexpected _
  | succ bound ih =>
    have simple : Reader.ReadsStatement do
        let statement ← readSimple (bound + 1)
        Reader.expect .semicolon
        return statement := by
      apply reads_bind (readSimple_reads _)
      intro statement kinds isSimple
      apply reads_bind (reads_expect .semicolon nofun)
      rintro _ _ rfl
      exact reads_pure (.simple isSimple)
    intro kind
    apply readsAt_peek_bind
    cases kind with
    | functionWord => exact readRoutine_reads ih _ _
    | ifWord => exact readBranch_reads ih _ _
    | whileWord => exact readWhile_reads ih _ _
    | forWord => exact readFor_reads ih _ _
    | returnWord => exact readReturn_reads _ _
    | _ => exact simple _

/-- A program that is read takes all tokens of the stream, since no statement is without tokens. -/
theorem readAll_derives (reads : inner.ReadsStatement) {bound : Nat} {stream rest : Stream}
    {read : Array Stmt} {program : Program} (enough : stream.kinds.length ≤ bound)
    (inside : .endOfInput ∉ stream.kinds) (ran : readAll inner bound read stream = .ok program rest) :
    ∃ more, Derives stream.kinds more ∧
      program.map Stmt.unplaced = read.toList.map Stmt.unplaced ++ more := by
  induction bound generalizing stream read with
  | zero =>
    rw [List.length_eq_zero_iff.mp (Nat.le_zero.mp enough)]
    cases ran
    exact ⟨[], .nil, by simp⟩
  | succ bound ih =>
    have next : (do
        if stream.kind = .endOfInput then return read.toList
        readAll inner bound (read.push (← inner)) : Reader Program) stream = .ok program rest := ran
    split at next
    case isTrue atEnd =>
      cases next
      rw [Stream.kind_eq_next] at atEnd
      cases kinds : rest.kinds with
      | nil => exact ⟨[], .nil, by simp⟩
      | cons kind more =>
        rw [kinds] at atEnd inside
        exact absurd (atEnd ▸ .head _) inside
    case isFalse =>
      obtain ⟨statement, middle, first, others⟩ := bind_eq_ok_iff.mp next
      obtain ⟨kinds, taken, sentence⟩ := reads _ rfl first
      obtain ⟨kind, tail, rfl, _⟩ := sentence.begins
      rw [taken] at enough inside ⊢
      have shorter : middle.kinds.length ≤ bound := by
        simp only [List.length_append, List.length_cons] at enough
        omega
      obtain ⟨more, derives, same⟩ := ih shorter (fun member => inside (by simp [member])) others
      exact ⟨_ :: more, derives.cons sentence, by simpa using same⟩

end Statements

end Dcpu.Source
