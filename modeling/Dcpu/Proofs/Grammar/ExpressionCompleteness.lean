import Dcpu.Proofs.Effects
import Dcpu.Proofs.Grammar.Marks

/-! # Phrases are read as expressions

A reader that stands before the tokens of a phrase takes them and stops, if the token behind them is none
that the phrase could go on with. So one token tells every reader of expressions whether to go on.
-/

namespace Dcpu.Source

open Effects Grammar

namespace Reader

variable {α β : Type} {kinds more rest : List TokenKind} {kind : TokenKind} {good : α → Prop}
  {better : β → Prop}

/-- Before the given tokens a reader takes the first part of them, and what it reads is good. -/
def Takes (kinds rest : List TokenKind) (good : α → Prop) (reader : Reader α) : Prop :=
  ∀ ⦃stream⦄, stream.kinds = kinds ++ rest →
    ∃ value after, reader stream = .ok value after ∧ after.kinds = rest ∧ good value

theorem takes_pure {value : α} (isGood : good value) : (pure value : Reader α).Takes [] rest good :=
  fun stream left => ⟨value, stream, rfl, left, isGood⟩

/-- A reader that takes one part of the tokens, and then one that takes the others, take them all. -/
theorem takes_bind {first : Reader α} {following : α → Reader β} (takes : first.Takes kinds (more ++ rest) good)
    (takesNext : ∀ value, good value → (following value).Takes more rest better) :
    (first >>= following).Takes (kinds ++ more) rest better := by
  intro stream left
  rw [List.append_assoc] at left
  obtain ⟨middle, between, firstRan, leftBetween, isGood⟩ := takes left
  obtain ⟨value, after, nextRan, leftAfter, isBetter⟩ := takesNext middle isGood leftBetween
  exact ⟨value, after, bind_eq_ok_iff.mpr ⟨middle, between, firstRan, nextRan⟩, leftAfter, isBetter⟩

theorem takes_bind_last {first : Reader α} {following : α → Reader β} (takes : first.Takes kinds rest good)
    (takesNext : ∀ value, good value → (following value).Takes [] rest better) :
    (first >>= following).Takes kinds rest better := by
  rw [← List.append_nil kinds]
  exact takes_bind takes takesNext

theorem takes_peek_bind {following : TokenKind → Reader β} (kind : TokenKind) (seen : next (kinds ++ rest) = kind)
    (takes : (following kind).Takes kinds rest better) : (peek >>= following).Takes kinds rest better := by
  intro stream left
  rw [← seen, ← left, ← Stream.kind_eq_next] at takes
  exact takes left

theorem takes_here_bind {following : Position → Reader β}
    (takes : ∀ position, (following position).Takes kinds rest better) :
    (here >>= following).Takes kinds rest better :=
  fun stream left => takes stream.position left

theorem takes_advance_bind {following : Unit → Reader β} (takes : (following ()).Takes kinds rest better) :
    (advance >>= following).Takes (kind :: kinds) rest better := by
  intro stream left
  have behind : stream.drop.kinds = kinds ++ rest := by rw [Stream.kinds_drop, left]; rfl
  exact takes behind

theorem takes_accept : (accept kind).Takes [kind] rest (· = true) := by
  refine takes_peek_bind kind rfl ?_
  rw [if_pos rfl]
  exact takes_advance_bind (takes_pure rfl)

theorem takes_accept_none (stops : next rest ≠ kind) : (accept kind).Takes [] rest (· = false) := by
  refine takes_peek_bind (next rest) rfl ?_
  rw [if_neg stops]
  exact takes_pure rfl

theorem takes_expect : (expect kind).Takes [kind] rest fun _ => True := by
  apply takes_bind takes_accept
  rintro _ rfl
  exact takes_pure trivial

theorem takes_identifier {name : String} : identifier.Takes [.identifier name] rest (· = name) := by
  refine takes_peek_bind (.identifier name) rfl ?_
  exact takes_advance_bind (takes_pure rfl)

theorem takes_accept? {mark? : TokenKind → Option α} {value : α} (found : mark? kind = some value) :
    (accept? mark?).Takes [kind] rest (· = some value) := by
  refine takes_peek_bind kind rfl ?_
  rw [found]
  exact takes_advance_bind (takes_pure rfl)

theorem takes_accept?_none {mark? : TokenKind → Option α} (stops : mark? (next rest) = none) :
    (accept? mark?).Takes [] rest (· = none) := by
  refine takes_peek_bind (next rest) rfl ?_
  rw [stops]
  exact takes_pure rfl

end Reader

open Reader

section Rows

variable {α β : Type} {mark? : TokenKind → Option α} {kind : β → TokenKind} {value : β → α} {good : β → Prop}
  {rank : Rank} {operand : Reader Expr} {rest : List TokenKind}

/-- The tokens behind a phrase of a rank begin with none that it could go on with. -/
def Grammar.Ends (rank : Rank) (rest : List TokenKind) : Prop :=
  next rest ∉ rank.continuations

/-- What ends a phrase ends a tighter one. -/
theorem Grammar.Ends.tighter (ends : Ends rank rest) : Ends rank.tighter rest :=
  fun member => ends (rank.continuations_tighter member)

theorem Grammar.Ends.not_mem_marks (ends : Ends rank rest) : next rest ∉ rank.marks :=
  fun member => ends (rank.marks_subset_continuations member)

/-- Before the tokens of a phrase of a rank a reader takes them, given how many tokens there may be. -/
def Reader.Completes (rank : Rank) (bound : Nat) (reader : Reader Expr) : Prop :=
  ∀ ⦃kinds tree rest⦄, Phrase rank kinds tree → kinds.length + rest.length ≤ bound → Ends rank rest →
    reader.Takes kinds rest (·.unplaced = tree)

/-- Each operand of a row ends where the next mark stands, or where the row ends. -/
theorem ends_row (kind : β → TokenKind) {parts : List (Joint β)} (marks : ∀ part ∈ parts, kind part.mark ∈ rank.marks)
    (ends : Ends rank rest) : Ends rank.tighter (Joint.row kind parts ++ rest) := by
  cases parts with
  | nil => exact ends.tighter
  | cons part parts => exact Rank.not_mem_continuations_tighter (marks part (.head _))

/-- A row ends where no mark stands. -/
theorem mark?_eq_none (finds : Finds mark? kind value good)
    (isMark : ∀ mark, good mark → kind mark ∈ rank.marks) (ends : Ends rank rest) :
    mark? (next rest) = none := by
  rw [Option.eq_none_iff_forall_ne_some]
  intro result found
  obtain ⟨mark, isGood, same, _⟩ := finds.sound found
  exact ends.not_mem_marks (same ▸ isMark mark isGood)

/-- A row of marks and operands is taken up to where it ends. -/
theorem readMore_takes (finds : Finds mark? kind value good)
    (isMark : ∀ mark, good mark → kind mark ∈ rank.marks) {bound count : Nat}
    (completes : operand.Completes rank.tighter bound) {parts : List (Joint β)}
    (marks : ∀ part ∈ parts, good part.mark)
    (operands : ∀ part ∈ parts, Phrase rank.tighter part.kinds part.tree)
    (enough : (Joint.row kind parts).length + rest.length ≤ count) (within : count ≤ bound)
    (ends : Ends rank rest) (read : List (α × Expr)) :
    (readMore mark? operand count read).Takes (Joint.row kind parts) rest fun result =>
      result.map (Prod.map id Expr.unplaced) = read.reverse.map (Prod.map id Expr.unplaced) ++
        parts.map fun part => (value part.mark, part.tree) := by
  induction parts generalizing count read with
  | nil =>
    cases count with
    | zero => exact takes_pure (by simp)
    | succ count =>
      have stops := mark?_eq_none finds isMark ends
      apply takes_bind (takes_accept?_none stops)
      rintro _ rfl
      exact takes_pure (by simp)
  | cons part parts ih =>
    obtain ⟨mark, moreMarks⟩ := List.forall_mem_cons.mp marks
    obtain ⟨phrase, morePhrases⟩ := List.forall_mem_cons.mp operands
    have size : (Joint.row kind (part :: parts)).length =
        part.kinds.length + (Joint.row kind parts).length + 1 := by
      simp [Joint.row]
    have behind := ends_row kind (fun other member => isMark _ (moreMarks other member)) ends
    cases count with
    | zero => omega
    | succ count =>
      apply takes_bind (takes_accept? (finds.complete mark))
      rintro _ rfl
      apply takes_bind (completes phrase (by rw [List.length_append]; omega) behind)
      intro operand tree
      have fewer : (Joint.row kind parts).length + rest.length ≤ count := by omega
      have others := ih moreMarks morePhrases fewer (by omega) ((value part.mark, operand) :: read)
      simpa [tree] using others

end Rows

section Inversion

variable {kinds : List TokenKind} {tree : Expr}

/-- A phrase of a logical rank is a row of tighter phrases with connectives between them. -/
theorem Grammar.Phrase.of_logical {op : LogicalOp} (phrase : Phrase (.ofLogical op) kinds tree) :
    ∃ first firstTree parts row, Phrase (Rank.ofLogical op).tighter first firstTree ∧
      Row (Rank.ofLogical op).tighter id (· ∈ op.kinds) parts row ∧ kinds = first ++ row ∧
      tree = connected op firstTree (parts.map Joint.tree) := by
  generalize same : Rank.ofLogical op = rank at phrase
  cases phrase with
  | @logical other first firstTree parts phrase marks operands =>
    obtain rfl : op = other := by cases op <;> cases other <;> first | rfl | cases same
    exact ⟨first, firstTree, parts, _, phrase, ⟨marks, operands, rfl⟩, rfl, rfl⟩
  | unary other | plain other => cases op <;> cases other <;> cases same
  | binary _ binary =>
    subst same
    cases op <;> exact absurd rfl binary
  | comparison | base | power | indexed | called | number | name | parenthesised =>
    cases op <;> cases same

theorem Grammar.Phrase.of_unary {op : UnaryOp} (phrase : Phrase (.ofUnary op) kinds tree) :
    Phrase (Rank.ofUnary op).tighter kinds tree ∨ ∃ mark more operand, mark ∈ op.kinds ∧
      Phrase (.ofUnary op) more operand ∧ kinds = mark :: more ∧ tree = .unary .nowhere op operand := by
  generalize same : Rank.ofUnary op = rank at phrase
  cases phrase with
  | @unary other mark more operand isMark phrase =>
    obtain rfl : op = other := by cases op <;> cases other <;> first | rfl | cases same
    exact .inr ⟨mark, more, operand, isMark, phrase, rfl, rfl⟩
  | plain other phrase =>
    obtain rfl : op = other := by cases op <;> cases other <;> first | rfl | cases same
    exact .inl phrase
  | logical other => cases op <;> cases other <;> cases same
  | binary _ binary =>
    subst same
    cases op <;> exact absurd rfl binary
  | comparison | base | power | indexed | called | number | name | parenthesised =>
    cases op <;> cases same

/-- A phrase of a binary rank is a row of tighter phrases with operators between them. -/
theorem Grammar.Phrase.of_binary {rank : Rank} (binary : rank.operators ≠ [])
    (phrase : Phrase rank kinds tree) :
    ∃ first firstTree parts row, Phrase rank.tighter first firstTree ∧
      Row rank.tighter BinaryOp.kind (· ∈ rank.operators) parts row ∧ kinds = first ++ row ∧
      tree = joined firstTree parts := by
  cases phrase with
  | @binary _ first firstTree parts _ phrase marks operands =>
    exact ⟨first, firstTree, parts, _, phrase, ⟨marks, operands, rfl⟩, rfl, rfl⟩
  | logical op | unary op | plain op => cases op <;> exact absurd rfl binary
  | comparison | base | power | indexed | called | number | name | parenthesised =>
    exact absurd rfl binary

/-- A comparison is a row of phrases with relations between them. -/
theorem Grammar.Phrase.of_comparison (phrase : Phrase .comparison kinds tree) :
    ∃ first firstTree parts row, Phrase .bitOr first firstTree ∧
      Row .bitOr Relation.kind (fun _ => True) parts row ∧ kinds = first ++ row ∧
      tree = compared firstTree (parts.map fun part => (part.mark, part.tree)) := by
  generalize same : Rank.comparison = rank at phrase
  cases phrase with
  | @comparison first firstTree parts phrase operands =>
    exact ⟨first, firstTree, parts, _, phrase, ⟨fun _ _ => trivial, operands, rfl⟩, rfl, rfl⟩
  | logical op | unary op | plain op => cases op <;> cases same
  | binary _ binary => exact absurd (same ▸ rfl) binary
  | base | power | indexed | called | number | name | parenthesised => cases same

theorem Grammar.Phrase.of_power (phrase : Phrase .power kinds tree) :
    Phrase .unary kinds tree ∨ ∃ base exponent left right, Phrase .unary base left ∧
      Phrase .unary exponent right ∧ kinds = base ++ .starStar :: exponent ∧
      tree = .binary .nowhere .power left right := by
  generalize same : Rank.power = rank at phrase
  cases phrase with
  | base phrase => exact .inl phrase
  | power left right => exact .inr ⟨_, _, _, _, left, right, rfl, rfl⟩
  | logical op | unary op | plain op => cases op <;> cases same
  | binary _ binary => exact absurd (same ▸ rfl) binary
  | comparison | indexed | called | number | name | parenthesised => cases same

/-- A phrase with suffixes is a primary one or a call, with indices behind it. -/
theorem Grammar.Phrase.of_suffixed (phrase : Phrase .suffixed kinds tree) :
    ∃ indices : List (List TokenKind × Expr), (∀ index ∈ indices, Phrase .or index.1 index.2) ∧
      ((∃ first base, Phrase .primary first base ∧ kinds = first ++ bracketed indices ∧
          tree = Grammar.indexed base indices) ∨
        ∃ first name, Callee first name ∧ kinds = first ++ .leftParen :: .rightParen :: bracketed indices ∧
          tree = Grammar.indexed (.call .nowhere name) indices) := by
  generalize same : Rank.suffixed = rank at phrase
  cases phrase with
  | @indexed first base indices phrase areIndices =>
    exact ⟨indices, areIndices, .inl ⟨first, base, phrase, rfl, rfl⟩⟩
  | @called first name indices callee areIndices =>
    exact ⟨indices, areIndices, .inr ⟨first, name, callee, rfl, rfl⟩⟩
  | logical op | unary op | plain op => cases op <;> cases same
  | binary _ binary => exact absurd (same ▸ rfl) binary
  | comparison | base | power | number | name | parenthesised => cases same

/-- A primary phrase is a number, a name, or a phrase in parentheses. -/
theorem Grammar.Phrase.of_primary (phrase : Phrase .primary kinds tree) :
    (∃ value, kinds = [.number value] ∧ tree = .number .nowhere value) ∨
      (∃ name, kinds = [.identifier name] ∧ tree = .name .nowhere name) ∨
      ∃ inside, Phrase .or inside tree ∧ kinds = .leftParen :: (inside ++ [.rightParen]) := by
  generalize same : Rank.primary = rank at phrase
  cases phrase with
  | number => exact .inl ⟨_, rfl, rfl⟩
  | name => exact .inr (.inl ⟨_, rfl, rfl⟩)
  | parenthesised phrase => exact .inr (.inr ⟨_, phrase, rfl⟩)
  | logical op | unary op | plain op => cases op <;> cases same
  | binary _ binary => exact absurd (same ▸ rfl) binary
  | comparison | base | power | indexed | called => cases same

end Inversion

section Expressions

variable {operand inner : Reader Expr} {bound : Nat}

theorem readLogical_completes (op : LogicalOp) (completes : operand.Completes (Rank.ofLogical op).tighter bound) :
    (readLogical op (isConnective op) bound operand).Completes (.ofLogical op) bound := by
  intro kinds tree rest phrase enough ends
  obtain ⟨first, firstTree, parts, _, firstPhrase, ⟨marks, operands, rfl⟩, rfl, rfl⟩ := phrase.of_logical
  have isMark (kind : TokenKind) (member : kind ∈ op.kinds) : kind ∈ (Rank.ofLogical op).marks := by
    cases op <;> exact member
  have behind := ends_row id (fun part member => isMark _ (marks part member)) ends
  rw [List.length_append] at enough
  apply takes_bind (completes firstPhrase (by rw [List.length_append]; omega) behind)
  intro first same
  have row := readMore_takes (finds_connective op) isMark completes marks operands
    (by omega) (Nat.le_refl bound) ends []
  apply takes_bind_last row
  intro more results
  have trees : (more.map (·.2)).map Expr.unplaced = parts.map Joint.tree := by
    simpa [Function.comp_def] using congrArg (List.map Prod.snd) results
  rw [← trees, ← same]
  cases more with
  | nil => exact takes_pure rfl
  | cons => exact takes_pure (by simp [connected])

theorem readComparison_completes (completes : operand.Completes .bitOr bound) :
    (readComparison bound operand).Completes .comparison bound := by
  intro kinds tree rest phrase enough ends
  obtain ⟨first, firstTree, parts, _, firstPhrase, ⟨marks, operands, rfl⟩, rfl, rfl⟩ := phrase.of_comparison
  have isMark (relation : Relation) (_ : True) : relation.kind ∈ Rank.comparison.marks := by
    cases relation <;> decide
  have behind := ends_row Relation.kind (fun part member => isMark _ (marks part member)) ends
  rw [List.length_append] at enough
  apply takes_bind (completes firstPhrase (by rw [List.length_append]; omega) behind)
  intro first same
  have row := readMore_takes finds_relation isMark completes marks operands (by omega) (Nat.le_refl bound) ends []
  apply takes_bind_last row
  intro stages results
  have trees : stages.map (Prod.map id Expr.unplaced) = parts.map fun part => (part.mark, part.tree) :=
    results
  rw [← trees, ← same]
  cases stages with
  | nil => exact takes_pure rfl
  | cons => exact takes_pure (by simp [compared])

/-- Phrases of a binary rank are read, if the tighter ones are. -/
theorem joinLevels_completes (rank : Rank) (binary : rank.operators ≠ [])
    {tighter : List (TokenKind → Option BinaryOp)}
    (completes : (joinLevels bound operand tighter).Completes rank.tighter bound) :
    (joinLevels bound operand (rank.operator? :: tighter)).Completes rank bound := by
  intro kinds tree rest phrase enough ends
  obtain ⟨first, firstTree, parts, _, firstPhrase, ⟨marks, operands, rfl⟩, rfl, rfl⟩ :=
    phrase.of_binary binary
  have behind := ends_row BinaryOp.kind (fun part member => rank.kind_mem_marks (marks part member)) ends
  rw [List.length_append] at enough
  apply takes_bind (completes firstPhrase (by rw [List.length_append]; omega) behind)
  intro first same
  rw [show first = joinedRow first [].reverse from rfl, joinLeft_eq_readMore]
  have row := readMore_takes (finds_operator rank) (fun _ => rank.kind_mem_marks) completes marks operands
    (by omega) (Nat.le_refl bound) ends []
  apply takes_bind_last row
  intro operands results
  exact takes_pure (by rw [unplaced_joinedRow first results, same])

theorem readUnary_completes (op : UnaryOp) {isMark : TokenKind → Bool}
    (marks : ∀ kind, isMark kind = true ↔ kind ∈ op.kinds)
    (plainBegins : ∀ kind, (Rank.ofUnary op).tighter.begins kind = true → kind ∉ op.kinds)
    (completes : operand.Completes (Rank.ofUnary op).tighter bound) {count : Nat} (within : count ≤ bound) :
    (readUnary op isMark operand count).Completes (.ofUnary op) count := by
  induction count with
  | zero =>
    intro kinds tree rest phrase enough
    obtain ⟨kind, more, rfl, _⟩ := phrase.begins
    simp at enough
  | succ count ih =>
    intro kinds tree rest phrase enough ends
    obtain plain | ⟨mark, more, operand, isOp, marked, rfl, rfl⟩ := phrase.of_unary
    · obtain ⟨kind, more, rfl, begins⟩ := plain.begins
      apply takes_here_bind
      intro position
      refine takes_peek_bind kind rfl ?_
      rw [if_neg fun isMark => plainBegins kind begins ((marks kind).mp isMark)]
      exact completes plain (by omega) ends.tighter
    · apply takes_here_bind
      intro position
      refine takes_peek_bind mark rfl ?_
      rw [if_pos ((marks mark).mpr isOp)]
      apply takes_advance_bind
      have fewer : more.length + rest.length ≤ count := by
        rw [List.length_cons] at enough
        omega
      apply takes_bind_last (ih (by omega) marked fewer ends)
      rintro expr rfl
      exact takes_pure rfl

theorem readPower_completes (completes : operand.Completes .unary bound) :
    (readPower operand).Completes .power bound := by
  intro kinds tree rest phrase enough ends
  obtain plain | ⟨base, exponent, left, right, basePhrase, exponentPhrase, rfl, rfl⟩ := phrase.of_power
  · have stops : next rest ≠ .starStar := fun same => ends.not_mem_marks (by rw [same]; decide)
    apply takes_bind_last (completes plain enough ends.tighter)
    intro base same
    apply takes_bind_last (takes_accept_none stops)
    rintro _ rfl
    exact takes_pure same
  · rw [List.length_append, List.length_cons] at enough
    have mark : TokenKind.starStar ∈ Rank.power.marks := by decide
    have behind : Ends Rank.power.tighter (.starStar :: exponent ++ rest) :=
      Rank.not_mem_continuations_tighter mark
    apply takes_bind (completes basePhrase (by simp; omega) behind)
    rintro base rfl
    apply takes_bind takes_accept
    rintro _ rfl
    apply takes_bind_last (completes exponentPhrase (by omega) ends.tighter)
    rintro exponent rfl
    exact takes_pure rfl

/-- A phrase of a rank is one of the next looser rank, where nothing is joined to it. -/
theorem Grammar.Phrase.looser (rank : Rank) {kinds : List TokenKind} {tree : Expr}
    (phrase : Phrase rank.tighter kinds tree) : Phrase rank kinds tree := by
  have binary (isBinary : rank.operators ≠ []) : Phrase rank kinds tree := by
    have alone : Phrase rank (kinds ++ Joint.row BinaryOp.kind []) (joined tree []) :=
      .binary rank isBinary phrase nofun nofun
    rwa [Joint.row, List.flatMap_nil, List.append_nil] at alone
  have logical (op : LogicalOp) (phrase : Phrase (Rank.ofLogical op).tighter kinds tree) :
      Phrase (.ofLogical op) kinds tree := by
    have alone : Phrase (.ofLogical op) (kinds ++ Joint.row id []) (connected op tree ([].map Joint.tree)) :=
      .logical op phrase nofun nofun
    rwa [Joint.row, List.flatMap_nil, List.append_nil] at alone
  cases rank with
  | or => exact logical .or phrase
  | and => exact logical .and phrase
  | not => exact .plain .not phrase
  | comparison =>
    have alone : Phrase .comparison (kinds ++ Joint.row Relation.kind [])
        (compared tree ([].map fun part : Joint Relation => (part.mark, part.tree))) :=
      .comparison phrase nofun
    rwa [Joint.row, List.flatMap_nil, List.append_nil] at alone
  | bitOr | bitXor | bitAnd | shift | sum | term => exact binary nofun
  | power => exact .base phrase
  | unary => exact .plain .negate phrase
  | suffixed =>
    have alone : Phrase .suffixed (kinds ++ bracketed []) (Grammar.indexed tree []) :=
      .indexed phrase nofun
    rwa [bracketed, List.flatMap_nil, List.append_nil] at alone
  | primary => exact phrase

theorem Grammar.Phrase.or_of_primary {kinds : List TokenKind} {tree : Expr} (phrase : Phrase .primary kinds tree) :
    Phrase .or kinds tree :=
  .looser .or <| .looser .and <| .looser .not <| .looser .comparison <| .looser .bitOr <|
    .looser .bitXor <| .looser .bitAnd <| .looser .shift <| .looser .sum <| .looser .term <|
    .looser .power <| .looser .unary <| .looser .suffixed phrase

/-- The name of a routine is a primary phrase. -/
theorem Grammar.Callee.primary {kinds : List TokenKind} {name : String} (callee : Callee kinds name) :
    Phrase .primary kinds (.name .nowhere name) := by
  induction callee with
  | name => exact .name
  | parenthesised _ ih => exact .parenthesised ih.or_of_primary

theorem Expr.eq_name_of_unplaced {expr : Expr} {name : String} (same : expr.unplaced = .name .nowhere name) :
    ∃ position, expr = .name position name := by
  cases expr with
  | name position text =>
    cases same
    exact ⟨position, rfl⟩
  | number | index | call | binary | unary => cases same
  | logical => simp at same
  | compare => simp at same

/-- All indices behind a phrase are taken. -/
theorem readSuffixes_takes (completes : inner.Completes .or bound) {count : Nat}
    {indices : List (List TokenKind × Expr)} (areIndices : ∀ index ∈ indices, Phrase .or index.1 index.2)
    {rest : List TokenKind} (enough : (bracketed indices).length + rest.length ≤ count)
    (within : count ≤ bound + 1) (ends : Ends .suffixed rest) (expr : Expr) :
    (readSuffixes inner count expr).Takes (bracketed indices) rest
      (·.unplaced = indexed expr.unplaced indices) := by
  induction indices generalizing count expr with
  | nil =>
    cases count with
    | zero => exact takes_pure rfl
    | succ count =>
      apply takes_here_bind
      intro position
      refine takes_peek_bind (next rest) rfl ?_
      have noBracket : next rest ≠ .leftBracket := fun same => ends (same ▸ by decide)
      have noParen : next rest ≠ .leftParen := fun same => ends (same ▸ by decide)
      cases kind : next rest with
      | leftBracket => exact absurd kind noBracket
      | leftParen => exact absurd kind noParen
      | _ => exact takes_pure rfl
  | cons index indices ih =>
    obtain ⟨phrase, others⟩ := List.forall_mem_cons.mp areIndices
    have size : (bracketed (index :: indices)).length =
        index.1.length + (bracketed indices).length + 2 := by
      simp [bracketed]
      omega
    have split : bracketed (index :: indices) =
        .leftBracket :: (index.1 ++ .rightBracket :: bracketed indices) := by
      simp [bracketed]
    cases count with
    | zero => omega
    | succ count =>
      rw [split]
      apply takes_here_bind
      intro position
      refine takes_peek_bind .leftBracket rfl ?_
      apply takes_advance_bind
      have behind : Ends .or (.rightBracket :: bracketed indices ++ rest) := by
        show TokenKind.rightBracket ∉ _
        decide
      apply takes_bind (completes phrase (by simp; omega) behind)
      intro place same
      apply takes_bind takes_expect
      intro _ _
      have fewer : (bracketed indices).length + rest.length ≤ count := by omega
      have behindFirst := ih others fewer (by omega) (.index expr.position expr place)
      rw [Expr.unplaced_index, same] at behindFirst
      exact behindFirst

theorem readPrimary_completes (completes : inner.Completes .or bound) :
    (readPrimary inner).Completes .primary (bound + 1) := by
  intro kinds tree rest phrase enough ends
  apply takes_here_bind
  intro position
  obtain ⟨value, rfl, rfl⟩ | ⟨name, rfl, rfl⟩ | ⟨inside, insidePhrase, rfl⟩ := phrase.of_primary
  · exact takes_peek_bind (.number value) rfl (takes_advance_bind (takes_pure rfl))
  · exact takes_peek_bind (.identifier name) rfl (takes_advance_bind (takes_pure rfl))
  · refine takes_peek_bind .leftParen rfl ?_
    apply takes_advance_bind
    have behind : Ends .or ([.rightParen] ++ rest) := by
      show TokenKind.rightParen ∉ _
      decide
    have fewer : inside.length + ([TokenKind.rightParen] ++ rest).length ≤ bound := by
      simp only [List.length_cons, List.length_append] at enough ⊢
      omega
    apply takes_bind (completes insidePhrase fewer behind)
    rintro expr rfl
    apply takes_bind_last takes_expect
    intro _ _
    exact takes_pure rfl

theorem readSuffixed_completes (completes : inner.Completes .or bound) :
    Reader.Completes .suffixed (bound + 1) (do readSuffixes inner (bound + 1) (← readPrimary inner)) := by
  intro kinds tree rest phrase enough ends
  obtain ⟨indices, areIndices, ⟨first, base, primary, rfl, rfl⟩ | ⟨first, name, callee, rfl, rfl⟩⟩ :=
    phrase.of_suffixed
  · have anything : Ends .primary (bracketed indices ++ rest) := List.not_mem_nil
    rw [List.length_append] at enough
    apply takes_bind (readPrimary_completes completes primary (by rw [List.length_append]; omega) anything)
    rintro expr rfl
    exact readSuffixes_takes completes areIndices (by omega) (Nat.le_refl _) ends expr
  · have anything : Ends .primary (.leftParen :: .rightParen :: bracketed indices ++ rest) :=
      List.not_mem_nil
    rw [List.length_append, List.length_cons, List.length_cons] at enough
    apply takes_bind (readPrimary_completes completes callee.primary (by simp; omega) anything)
    intro expr same
    obtain ⟨start, rfl⟩ := Expr.eq_name_of_unplaced same
    apply takes_here_bind
    intro position
    refine takes_peek_bind .leftParen rfl ?_
    apply takes_advance_bind
    apply takes_bind takes_accept
    rintro _ rfl
    exact readSuffixes_takes completes areIndices (by omega) (Nat.le_succ _) ends (.call start name)

/-- Operands are read with one more token allowed than the phrases in their brackets. -/
theorem readOperand_completes (completes : inner.Completes .or bound) :
    (readOperand (bound + 1) inner).Completes .power (bound + 1) := by
  apply readPower_completes
  refine readUnary_completes .negate (by simp [UnaryOp.kinds]) ?_ (readSuffixed_completes completes)
    (Nat.le_refl _)
  rintro kind begins minus
  obtain rfl := List.mem_singleton.mp minus
  cases begins

/-- Every phrase is read as an expression. -/
theorem readExpr_completes (bound : Nat) : (readExpr bound).Completes .or bound := by
  induction bound with
  | zero =>
    intro kinds tree rest phrase enough
    obtain ⟨kind, more, rfl, _⟩ := phrase.begins
    simp at enough
  | succ bound ih =>
    have arithmetic : (joinLevels (bound + 1) (readOperand (bound + 1) (readExpr bound)) binaryLevels).Completes
        .bitOr (bound + 1) := by
      rw [binaryLevels_eq]
      have operand : (joinLevels (bound + 1) (readOperand (bound + 1) (readExpr bound)) []).Completes
          .power (bound + 1) := readOperand_completes ih
      have term := joinLevels_completes .term nofun operand
      have sum := joinLevels_completes .sum nofun term
      have shift := joinLevels_completes .shift nofun sum
      have bitAnd := joinLevels_completes .bitAnd nofun shift
      have bitXor := joinLevels_completes .bitXor nofun bitAnd
      exact joinLevels_completes .bitOr nofun bitXor
    apply readLogical_completes .or
    apply readLogical_completes .and
    refine readUnary_completes .not (by simp [isNot, UnaryOp.kinds]) ?_
      (readComparison_completes arithmetic) (Nat.le_refl _)
    rintro kind begins mark
    obtain rfl | rfl := by simpa [UnaryOp.kinds] using mark
    all_goals cases begins

end Expressions

end Dcpu.Source
