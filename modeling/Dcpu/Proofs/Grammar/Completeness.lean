import Dcpu.Proofs.Grammar.ExpressionCompleteness
import Dcpu.Proofs.Grammar.Soundness
import Mathlib.Data.List.TakeWhile

/-! # What derives from the grammar is read

The token behind an expression or a statement tells every reader of statements whether to go on. So a
program is read exactly when its tokens derive from the grammar.
-/

namespace Dcpu.Source

open Effects Grammar Reader

section Statements

variable {inner : Reader Stmt} {bound : Nat} {rest : List TokenKind}

/-- The tokens behind an expression or an assignment begin with none that it could go on with. -/
def Grammar.EndsSimple (rest : List TokenKind) : Prop :=
  Ends .or rest ∧ next rest ≠ .equal

theorem Grammar.endsSimple_semicolon (more : List TokenKind) : EndsSimple (.semicolon :: more) := by
  refine ⟨?_, by simp [next]⟩
  show TokenKind.semicolon ∉ _
  decide

theorem Grammar.endsSimple_rightParen (more : List TokenKind) : EndsSimple (.rightParen :: more) := by
  refine ⟨?_, by simp [next]⟩
  show TokenKind.rightParen ∉ _
  decide

/-- An expression ends where an equal sign stands, or where the assignment ends. -/
theorem ends_equals (more : List (List TokenKind × Expr)) (ends : Ends .or rest) :
    Ends .or ((more.flatMap fun part => TokenKind.equal :: part.1) ++ rest) := by
  cases more with
  | nil => exact ends
  | cons =>
    show TokenKind.equal ∉ _
    decide

/-- A reader of assignments takes all the parts behind equality signs. -/
theorem readAssigned_takes {expr : Reader Expr} (completes : expr.Completes .or bound) {count : Nat}
    {more : List (List TokenKind × Expr)} (phrases : ∀ part ∈ more, Phrase .or part.1 part.2)
    (enough : (more.flatMap fun part => TokenKind.equal :: part.1).length + rest.length ≤ count)
    (within : count ≤ bound) (ends : EndsSimple rest) (value : Expr) (before : List Expr) :
    (readAssigned expr count value before).Takes (more.flatMap fun part => .equal :: part.1) rest
      fun result => (result.1 :: result.2).map Expr.unplaced =
        (more.map (·.2)).reverse ++ (value :: before).map Expr.unplaced := by
  induction more generalizing count value before with
  | nil =>
    cases count with
    | zero => exact takes_pure rfl
    | succ count =>
      apply takes_bind_last (takes_accept_none ends.2)
      rintro _ rfl
      exact takes_pure rfl
  | cons part more ih =>
    obtain ⟨phrase, others⟩ := List.forall_mem_cons.mp phrases
    have behind := ends_equals more ends.1
    rw [List.flatMap_cons, List.length_append, List.length_cons] at enough
    cases count with
    | zero => omega
    | succ count =>
      apply takes_bind takes_accept
      rintro _ rfl
      apply takes_bind (completes phrase (by rw [List.length_append]; omega) behind)
      intro following same
      have fewer : (more.flatMap fun part => TokenKind.equal :: part.1).length + rest.length ≤ count := by
        omega
      simpa [same] using ih others fewer (by omega) following (value :: before)

/-- Equal signs behind targets are equal signs before the other expressions. -/
theorem Grammar.flatMap_equal (targets : List (List TokenKind × Expr)) (last : List TokenKind × Expr) :
    .equal :: (targets.flatMap (fun target => target.1 ++ [.equal]) ++ last.1) =
      (targets ++ [last]).flatMap fun part => .equal :: part.1 := by
  induction targets with
  | nil => simp
  | cons target targets ih =>
    simp only [List.flatMap_cons, List.cons_append, ← ih]
    simp

/-- Positions do not decide which simple statement is read. -/
theorem unplaced_simpleOf (position : Position) (value : Expr) (targets : List Expr) :
    (simpleOf position value targets).unplaced =
      simpleOf .nowhere value.unplaced (targets.map Expr.unplaced) := by
  cases targets <;> simp [simpleOf]

/-- Expressions between equal signs are read as a statement: the last is the value, the others are its
targets. -/
theorem readSimple_takes_row {first : List TokenKind} {firstTree : Expr} (phrase : Phrase .or first firstTree)
    {more : List (List TokenKind × Expr)} (phrases : ∀ part ∈ more, Phrase .or part.1 part.2)
    (enough : first.length + (more.flatMap fun part => TokenKind.equal :: part.1).length + rest.length ≤ bound)
    (ends : EndsSimple rest) {value : Expr} {targets : List Expr}
    (split : value :: targets = (more.map (·.2)).reverse ++ [firstTree]) :
    (readSimple bound).Takes (first ++ more.flatMap fun part => .equal :: part.1) rest
      (·.unplaced = simpleOf .nowhere value targets) := by
  apply takes_here_bind
  intro position
  apply takes_bind (readExpr_completes bound phrase (by rw [List.length_append]; omega)
    (ends_equals more ends.1))
  intro expr same
  have row := readAssigned_takes (readExpr_completes bound) phrases (by omega) (Nat.le_refl bound) ends expr []
  apply takes_bind_last row
  rintro ⟨last, before⟩ results
  rw [List.map_cons, List.map_cons, List.map_nil, same, ← split] at results
  obtain ⟨rfl, rfl⟩ := List.cons.inj results
  exact takes_pure (unplaced_simpleOf position last before)

/-- Simple statements are read where what follows ends them. -/
theorem readSimple_takes {kinds : List TokenKind} {tree : Stmt} (simple : Simple kinds tree)
    (enough : kinds.length + rest.length ≤ bound) (ends : EndsSimple rest) :
    (readSimple bound).Takes kinds rest (·.unplaced = tree) := by
  cases simple with
  | @evaluate kinds value phrase =>
    have alone : ∀ part ∈ ([] : List (List TokenKind × Expr)), Phrase .or part.1 part.2 := by simp
    rw [← List.append_nil kinds]
    exact readSimple_takes_row phrase alone enough ends rfl
  | @assign targets last value nonempty areTargets phrase =>
    obtain ⟨target, others, rfl⟩ := List.exists_cons_of_ne_nil nonempty
    obtain ⟨firstPhrase, otherPhrases⟩ := List.forall_mem_cons.mp areTargets
    have phrases : ∀ part ∈ others ++ [(last, value)], Phrase .or part.1 part.2 := by
      simpa [or_imp, forall_and] using ⟨by simpa using otherPhrases, phrase⟩
    have kinds : (target :: others).flatMap (fun target => target.1 ++ [TokenKind.equal]) ++ last =
        target.1 ++ (others ++ [(last, value)]).flatMap fun part => .equal :: part.1 := by
      rw [← flatMap_equal]
      simp
    have tree : Stmt.assign .nowhere ((target :: others).map (·.2)) value =
        simpleOf .nowhere value (((target :: others).map (·.2)).reverse) := by
      cases targets : ((target :: others).map (·.2)).reverse with
      | nil => simp at targets
      | cons =>
        rw [simpleOf, ← targets, List.reverse_reverse]
        simp
    rw [kinds, List.length_append] at enough
    rw [kinds, tree]
    exact readSimple_takes_row firstPhrase phrases enough ends (by simp)

/-- Statements are followed by no `else` of their own. -/
theorem next_flatMap_ne_elseWord {parts : List (List TokenKind × Stmt)}
    (sentences : ∀ part ∈ parts, Sentence .statement part.1 part.2) (stops : next rest ≠ .elseWord) :
    next (parts.flatMap (·.1) ++ rest) ≠ .elseWord := by
  cases parts with
  | nil => exact stops
  | cons part parts =>
    obtain ⟨kind, more, same, begins⟩ := (sentences part (.head _)).begins
    rw [List.flatMap_cons, same]
    rintro rfl
    exact begins (.head _)

/-- A reader takes the tokens of a statement, given how many tokens there may be. -/
def Reader.TakesStatement (bound : Nat) (kinds : List TokenKind) (tree : Stmt) (reader : Reader Stmt) : Prop :=
  ∀ ⦃rest⦄, kinds.length + rest.length ≤ bound → next rest ≠ .elseWord →
    reader.Takes kinds rest (·.unplaced = tree)

/-- The statements of a block are taken up to its closing brace. -/
theorem readStmts_takes {count : Nat} {parts : List (List TokenKind × Stmt)}
    (sentences : ∀ part ∈ parts, Sentence .statement part.1 part.2)
    (takes : ∀ part ∈ parts, inner.TakesStatement bound part.1 part.2)
    (fits : (parts.flatMap (·.1)).length + rest.length ≤ bound)
    (enough : (parts.flatMap (·.1)).length + rest.length ≤ count) (stops : next rest = .rightBrace)
    (read : Array Stmt) :
    (readStmts inner count read).Takes (parts.flatMap (·.1)) rest fun body =>
      body.map Stmt.unplaced = read.toList.map Stmt.unplaced ++ trees parts := by
  induction parts generalizing count read with
  | nil =>
    cases count with
    | zero => exact takes_pure (by simp [trees])
    | succ count => exact takes_peek_bind .rightBrace stops (takes_pure (by simp [trees]))
  | cons part parts ih =>
    obtain ⟨sentence, otherSentences⟩ := List.forall_mem_cons.mp sentences
    obtain ⟨takesFirst, takesOthers⟩ := List.forall_mem_cons.mp takes
    obtain ⟨kind, more, same, begins⟩ := sentence.begins
    have nonempty : 0 < part.1.length := by rw [same]; exact Nat.succ_pos _
    have behind := next_flatMap_ne_elseWord otherSentences (by rw [stops]; decide)
    rw [List.flatMap_cons, List.length_append] at fits enough
    cases count with
    | zero => omega
    | succ count =>
      have goesOn : Takes (part.1 ++ parts.flatMap (·.1)) rest (fun body => body.map Stmt.unplaced =
          read.toList.map Stmt.unplaced ++ trees (part :: parts))
          (do readStmts inner count (read.push (← inner))) := by
        apply takes_bind (takesFirst (by rw [List.length_append]; omega) behind)
        intro statement tree
        have fewer : (parts.flatMap (·.1)).length + rest.length ≤ count := by omega
        simpa [trees, tree] using ih otherSentences takesOthers (by omega) fewer (read.push statement)
      refine takes_peek_bind kind (by rw [List.flatMap_cons, same]; rfl) ?_
      cases kind with
      | rightBrace | endOfInput => exact absurd (by decide) begins
      | _ => exact goesOn

theorem readBlock_takes {parts : List (List TokenKind × Stmt)}
    (sentences : ∀ part ∈ parts, Sentence .statement part.1 part.2)
    (takes : ∀ part ∈ parts, inner.TakesStatement bound part.1 part.2)
    (enough : (block parts).length + rest.length ≤ bound + 1) :
    (readBlock (bound + 1) inner).Takes (block parts) rest (·.map Stmt.unplaced = trees parts) := by
  rw [block, List.length_cons, List.length_append, List.length_singleton] at enough
  apply takes_bind takes_expect
  intro _ _
  have behind : next ([.rightBrace] ++ rest) = .rightBrace := rfl
  have fits : (parts.flatMap (·.1)).length + ([TokenKind.rightBrace] ++ rest).length ≤ bound := by
    rw [List.length_append, List.length_singleton]
    omega
  apply takes_bind (readStmts_takes sentences takes fits (Nat.le_succ_of_le fits) behind #[])
  intro body same
  apply takes_bind_last takes_expect
  intro _ _
  exact takes_pure same

theorem readCondition_takes {test : List TokenKind} {tree : Expr} (phrase : Phrase .or test tree)
    (enough : (condition test).length + rest.length ≤ bound) :
    (readCondition bound).Takes (condition test) rest (·.unplaced = tree) := by
  rw [condition, List.length_cons, List.length_append, List.length_singleton] at enough
  apply takes_bind takes_expect
  intro _ _
  apply takes_bind (readExpr_completes bound phrase (by simp; omega) (endsSimple_rightParen _).1)
  intro test same
  apply takes_bind_last takes_expect
  intro _ _
  exact takes_pure same

section Forms

variable {parts : List (List TokenKind × Stmt)} {test : List TokenKind} {tree : Expr}

theorem readRoutine_takes {name : String} (sentences : ∀ part ∈ parts, Sentence .statement part.1 part.2)
    (takes : ∀ part ∈ parts, inner.TakesStatement bound part.1 part.2)
    (enough : (block parts).length + rest.length ≤ bound + 1) :
    (readRoutine (bound + 1) inner).Takes
      (.functionWord :: .identifier name :: .leftParen :: .rightParen :: block parts) rest
      (·.unplaced = .routine .nowhere name (trees parts)) := by
  apply takes_here_bind
  intro position
  apply takes_bind takes_expect
  intro _ _
  apply takes_bind takes_identifier
  rintro _ rfl
  apply takes_bind takes_expect
  intro _ _
  apply takes_bind takes_accept
  rintro _ rfl
  apply takes_bind_last (readBlock_takes sentences takes enough)
  intro body same
  exact takes_pure (by simp [same])

/-- Read what stands behind the block of a conditional. -/
def readElse (bound : Nat) (stmt : Reader Stmt) (branch : List Stmt → Stmt) : Reader Stmt := do
  if ← accept .elseWord then
    if (← peek) = .ifWord then
      return branch [← stmt]
    return branch (← readBlock bound stmt)
  return branch []

theorem readElse_takes_block (branch : List Stmt → Stmt)
    (sentences : ∀ part ∈ parts, Sentence .statement part.1 part.2)
    (takes : ∀ part ∈ parts, inner.TakesStatement bound part.1 part.2)
    (enough : (block parts).length + rest.length ≤ bound + 1) :
    (readElse (bound + 1) inner branch).Takes (.elseWord :: block parts) rest fun statement =>
      ∃ alternative, statement = branch alternative ∧ alternative.map Stmt.unplaced = trees parts := by
  apply takes_bind takes_accept
  rintro _ rfl
  refine takes_peek_bind .leftBrace rfl ?_
  apply takes_bind_last (readBlock_takes sentences takes enough)
  intro alternative same
  exact takes_pure ⟨alternative, rfl, same⟩

theorem readElse_takes_branch (branch : List Stmt → Stmt) {kinds : List TokenKind} {other : Stmt}
    (sentence : Sentence .conditional kinds other) (takes : inner.TakesStatement bound kinds other)
    (enough : kinds.length + rest.length ≤ bound) (stops : next rest ≠ .elseWord) :
    (readElse (bound + 1) inner branch).Takes (.elseWord :: kinds) rest fun statement =>
      ∃ alternative, statement = branch alternative ∧ alternative.map Stmt.unplaced = [other] := by
  obtain ⟨more, rfl⟩ := sentence.conditional_begins
  apply takes_bind takes_accept
  rintro _ rfl
  refine takes_peek_bind .ifWord rfl ?_
  apply takes_bind_last (takes enough stops)
  rintro statement rfl
  exact takes_pure ⟨[statement], rfl, rfl⟩

/-- Without an alternative nothing is taken. -/
theorem readElse_takes_nothing (branch : List Stmt → Stmt) (stops : next rest ≠ .elseWord) :
    (readElse bound inner branch).Takes [] rest fun statement =>
      ∃ alternative, statement = branch alternative ∧ alternative.map Stmt.unplaced = [] := by
  apply takes_bind_last (takes_accept_none stops)
  rintro _ rfl
  exact takes_pure ⟨[], rfl, rfl⟩

/-- Conditionals are read, whatever their alternative is. -/
theorem readBranch_takes (phrase : Phrase .or test tree)
    (sentences : ∀ part ∈ parts, Sentence .statement part.1 part.2)
    (takes : ∀ part ∈ parts, inner.TakesStatement bound part.1 part.2) {more : List TokenKind}
    {others : List Stmt}
    (enough : (condition test).length + (block parts).length + more.length + rest.length ≤ bound + 1)
    (takesElse : ∀ branch, (readElse (bound + 1) inner branch).Takes more rest fun statement =>
      ∃ alternative, statement = branch alternative ∧ alternative.map Stmt.unplaced = others) :
    (readBranch (bound + 1) inner).Takes (.ifWord :: (condition test ++ (block parts ++ more))) rest
      (·.unplaced = .branch .nowhere tree (trees parts) others) := by
  apply takes_here_bind
  intro position
  apply takes_bind takes_expect
  intro _ _
  apply takes_bind (readCondition_takes phrase (by simp only [List.length_append]; omega))
  intro test sameTest
  apply takes_bind (readBlock_takes sentences takes (by rw [List.length_append]; omega))
  intro body sameBody
  have behind := takesElse (Stmt.branch position test body)
  intro stream left
  obtain ⟨statement, after, ran, leftAfter, alternative, rfl, sameOthers⟩ := behind left
  exact ⟨_, after, ran, leftAfter, by simp [sameTest, sameBody, sameOthers]⟩

theorem readWhile_takes (phrase : Phrase .or test tree)
    (sentences : ∀ part ∈ parts, Sentence .statement part.1 part.2)
    (takes : ∀ part ∈ parts, inner.TakesStatement bound part.1 part.2)
    (enough : (condition test).length + (block parts).length + rest.length ≤ bound + 1) :
    (readWhile (bound + 1) inner).Takes (.whileWord :: (condition test ++ block parts)) rest
      (·.unplaced = .whileLoop .nowhere tree (trees parts)) := by
  apply takes_here_bind
  intro position
  apply takes_bind takes_expect
  intro _ _
  apply takes_bind (readCondition_takes phrase (by rw [List.length_append]; omega))
  intro test sameTest
  apply takes_bind_last (readBlock_takes sentences takes (by omega))
  intro body sameBody
  exact takes_pure (by simp [sameTest, sameBody])

theorem readFor_takes {start following : List TokenKind} {init step : Stmt} (starts : Simple start init)
    (phrase : Phrase .or test tree) (steps : Simple following step)
    (sentences : ∀ part ∈ parts, Sentence .statement part.1 part.2)
    (takes : ∀ part ∈ parts, inner.TakesStatement bound part.1 part.2)
    (enough : start.length + test.length + following.length + (block parts).length + 5 + rest.length ≤
      bound + 1) :
    (readFor (bound + 1) inner).Takes
      (.forWord :: .leftParen :: (start ++ .semicolon :: (test ++ .semicolon ::
        (following ++ .rightParen :: block parts)))) rest
      (·.unplaced = .forLoop .nowhere init tree step (trees parts)) := by
  apply takes_here_bind
  intro position
  apply takes_bind takes_expect
  intro _ _
  apply takes_bind takes_expect
  intro _ _
  apply takes_bind (readSimple_takes starts (by simp; omega) (endsSimple_semicolon _))
  intro init sameInit
  apply takes_bind takes_expect
  intro _ _
  apply takes_bind (readExpr_completes _ phrase (by simp; omega) (endsSimple_semicolon _).1)
  intro test sameTest
  apply takes_bind takes_expect
  intro _ _
  apply takes_bind (readSimple_takes steps (by simp; omega) (endsSimple_rightParen _))
  intro step sameStep
  apply takes_bind takes_expect
  intro _ _
  apply takes_bind_last (readBlock_takes sentences takes (by omega))
  intro body sameBody
  exact takes_pure (by simp [sameInit, sameTest, sameStep, sameBody])

theorem readReturn_takes_value {kinds : List TokenKind} {value : Expr} (phrase : Phrase .or kinds value)
    (enough : kinds.length + 2 + rest.length ≤ bound) :
    (readReturn bound).Takes (.returnWord :: (kinds ++ [.semicolon])) rest
      (·.unplaced = .ret .nowhere (some value)) := by
  obtain ⟨kind, more, same, begins⟩ := phrase.begins
  have goesOn : next (kinds ++ [.semicolon] ++ rest) ≠ .semicolon := by
    rw [same]
    rintro rfl
    cases begins
  apply takes_here_bind
  intro position
  apply takes_bind takes_expect
  intro _ _
  apply takes_bind (takes_accept_none goesOn)
  rintro _ rfl
  apply takes_bind (readExpr_completes bound phrase (by simp; omega) (endsSimple_semicolon _).1)
  intro value sameValue
  apply takes_bind_last takes_expect
  intro _ _
  exact takes_pure (by simp [sameValue])

end Forms

/-- A statement has a token, so a bound on the tokens leaves room for the statements inside it. -/
theorem readStmt_takes_of_succ {kinds : List TokenKind} {tree : Stmt} (nonempty : kinds ≠ [])
    (takes : ∀ bound, (readStmtWith (bound + 1) (readStmt bound)).TakesStatement (bound + 1) kinds tree)
    (bound : Nat) : (readStmt bound).TakesStatement bound kinds tree := by
  intro rest enough
  cases bound with
  | zero => exact absurd (List.length_eq_zero_iff.mp (by omega)) nonempty
  | succ bound => exact takes bound enough

theorem readStmt_takes_simple {kinds : List TokenKind} {tree : Stmt} (simple : Simple kinds tree) (bound : Nat) :
    (readStmt bound).TakesStatement bound (kinds ++ [.semicolon]) tree := by
  apply readStmt_takes_of_succ (by simp)
  intro bound rest enough _
  have reads : Takes (kinds ++ [.semicolon]) rest (fun statement => statement.unplaced = tree) (do
      let statement ← readSimple (bound + 1)
      expect .semicolon
      return statement) := by
    rw [List.length_append, List.length_singleton] at enough
    apply takes_bind (readSimple_takes simple (by simp; omega) (endsSimple_semicolon _))
    intro statement same
    apply takes_bind_last takes_expect
    intro _ _
    exact takes_pure same
  obtain ⟨kind, more, rfl, begins⟩ := simple.begins
  refine takes_peek_bind kind rfl ?_
  cases kind with
  | functionWord | ifWord | whileWord | forWord | returnWord => cases begins
  | _ => exact reads

/-- Every statement of the grammar is read. -/
theorem Grammar.Sentence.takes {form : Form} {kinds : List TokenKind} {tree : Stmt}
    (sentence : Sentence form kinds tree) (bound : Nat) :
    (readStmt bound).TakesStatement bound kinds tree := by
  induction sentence generalizing bound with
  | routine sentences ih =>
    refine readStmt_takes_of_succ (List.cons_ne_nil _ _) (fun bound rest enough stops => ?_) bound
    refine takes_peek_bind .functionWord rfl (readRoutine_takes sentences (ih · · bound) ?_)
    simp only [List.length_cons] at enough
    omega
  | branch phrase sentences ih =>
    refine readStmt_takes_of_succ (List.cons_ne_nil _ _) (fun bound rest enough stops => ?_) bound
    simp only [List.length_cons, List.length_append] at enough
    refine takes_peek_bind .ifWord rfl ?_
    rw [← List.append_nil (block _)]
    refine readBranch_takes phrase sentences (ih · · bound) ?_ fun branch => readElse_takes_nothing branch stops
    rw [List.length_nil]
    omega
  | branchElse phrase sentences otherSentences ih otherIh =>
    refine readStmt_takes_of_succ (List.cons_ne_nil _ _) (fun bound rest enough stops => ?_) bound
    simp only [List.length_cons, List.length_append] at enough
    refine takes_peek_bind .ifWord rfl (readBranch_takes phrase sentences (ih · · bound) ?_ fun branch =>
      readElse_takes_block branch otherSentences (otherIh · · bound) ?_)
    · rw [List.length_cons]
      omega
    · omega
  | branchElseIf phrase sentences conditional ih otherIh =>
    refine readStmt_takes_of_succ (List.cons_ne_nil _ _) (fun bound rest enough stops => ?_) bound
    simp only [List.length_cons, List.length_append] at enough
    refine takes_peek_bind .ifWord rfl (readBranch_takes phrase sentences (ih · · bound) ?_ fun branch =>
      readElse_takes_branch branch conditional (otherIh bound) ?_ stops)
    · rw [List.length_cons]
      omega
    · omega
  | conditional _ ih => exact ih bound
  | whileLoop phrase sentences ih =>
    refine readStmt_takes_of_succ (List.cons_ne_nil _ _) (fun bound rest enough stops => ?_) bound
    simp only [List.length_cons, List.length_append] at enough
    exact takes_peek_bind .whileWord rfl (readWhile_takes phrase sentences (ih · · bound) (by omega))
  | forLoop starts phrase steps sentences ih =>
    refine readStmt_takes_of_succ (List.cons_ne_nil _ _) (fun bound rest enough stops => ?_) bound
    simp only [List.length_cons, List.length_append] at enough
    exact takes_peek_bind .forWord rfl
      (readFor_takes starts phrase steps sentences (ih · · bound) (by omega))
  | ret =>
    refine readStmt_takes_of_succ (List.cons_ne_nil _ _) (fun bound rest enough stops => ?_) bound
    refine takes_peek_bind .returnWord rfl ?_
    apply takes_here_bind
    intro position
    apply takes_bind takes_expect
    intro _ _
    apply takes_bind takes_accept
    rintro _ rfl
    exact takes_pure rfl
  | retValue phrase =>
    refine readStmt_takes_of_succ (List.cons_ne_nil _ _) (fun bound rest enough stops => ?_) bound
    simp only [List.length_cons, List.length_append, List.length_nil] at enough
    exact takes_peek_bind .returnWord rfl (readReturn_takes_value phrase (by omega))
  | simple simple => exact readStmt_takes_simple simple bound

/-- Every program of the grammar is read. -/
theorem readAll_takes {parts : List (List TokenKind × Stmt)}
    (sentences : ∀ part ∈ parts, Sentence .statement part.1 part.2) {count : Nat}
    (fits : (parts.flatMap (·.1)).length ≤ bound) (enough : (parts.flatMap (·.1)).length ≤ count)
    (read : Array Stmt) :
    (readAll (readStmt bound) count read).Takes (parts.flatMap (·.1)) [] fun program =>
      program.map Stmt.unplaced = read.toList.map Stmt.unplaced ++ trees parts := by
  induction parts generalizing count read with
  | nil =>
    cases count with
    | zero => exact takes_pure (by simp [trees])
    | succ count => exact takes_peek_bind .endOfInput rfl (takes_pure (by simp [trees]))
  | cons part parts ih =>
    obtain ⟨sentence, otherSentences⟩ := List.forall_mem_cons.mp sentences
    obtain ⟨kind, more, same, begins⟩ := sentence.begins
    have nonempty : 0 < part.1.length := by rw [same]; exact Nat.succ_pos _
    have behind : next (parts.flatMap (·.1) ++ []) ≠ .elseWord :=
      next_flatMap_ne_elseWord otherSentences (by decide)
    rw [List.flatMap_cons, List.length_append] at fits enough
    cases count with
    | zero => omega
    | succ count =>
      refine takes_peek_bind kind (by rw [List.flatMap_cons, same]; rfl) ?_
      rw [if_neg fun atEnd => begins (by rw [atEnd]; decide)]
      apply takes_bind (sentence.takes bound (by rw [List.append_nil]; omega) behind)
      intro statement tree
      have fewer : (parts.flatMap (·.1)).length ≤ count := by omega
      simpa [trees, tree] using ih otherSentences (by omega) fewer (read.push statement)

end Statements

section Programs

/-- The tokens of a stream go up to the first end of the input. -/
theorem Stream.kinds_ofTokens (tokens : List Token) :
    (Stream.ofTokens tokens).kinds = (tokens.map (·.kind)).takeWhile (· ≠ .endOfInput) := by
  rw [kinds, ofTokens, List.takeWhile_map]
  rfl

theorem Stream.ofTokens_append_stop (tokens behind : List Token) {stop : Token} (isEnd : stop.kind = .endOfInput) :
    Stream.ofTokens (tokens ++ stop :: behind) = Stream.ofTokens (tokens ++ [stop]) := by
  simp only [ofTokens, stopOf, List.takeWhile_append, List.takeWhile_cons, List.find?_append,
    List.find?_cons, isEnd]
  simp

/-- The tokens before the first end of the input are read as a program exactly when they derive from the
grammar, and the program is then the tree that the grammar gives them, up to positions. Nothing behind the
first end of the input matters. -/
theorem Program.ofTokens_iff_derives (tokens : List Token) :
    (∀ tree, (∃ program, Program.ofTokens tokens = .ok program ∧ program.map Stmt.unplaced = tree) ↔
      Derives ((tokens.map (·.kind)).takeWhile (· ≠ .endOfInput)) tree) ∧
    ∀ stop behind, stop.kind = .endOfInput →
      Program.ofTokens (tokens ++ stop :: behind) = Program.ofTokens (tokens ++ [stop]) := by
  refine ⟨fun tree => ⟨?_, ?_⟩, fun stop behind isEnd => ?_⟩
  · rintro ⟨program, parsed, rfl⟩
    rw [Program.ofTokens] at parsed
    split at parsed
    case h_2 => cases parsed
    case h_1 rest ran =>
      cases parsed
      have inside : .endOfInput ∉ (Stream.ofTokens tokens).kinds := by
        rw [Stream.kinds_ofTokens]
        intro member
        simpa using List.mem_takeWhile_imp member
      have enough : (Stream.ofTokens tokens).kinds.length ≤ (Stream.ofTokens tokens).tokens.length := by
        simp [Stream.kinds]
      obtain ⟨more, derives, same⟩ := readAll_derives (readStmt_reads _) enough inside ran
      rw [Stream.kinds_ofTokens] at derives
      rw [same]
      exact derives
  · rintro ⟨parts, sentences, kinds, rfl⟩
    rw [← Stream.kinds_ofTokens, ← List.append_nil (parts.flatMap (·.1))] at kinds
    have size : (parts.flatMap (·.1)).length ≤ (Stream.ofTokens tokens).tokens.length := by
      rw [← List.append_nil (parts.flatMap (·.1)), ← kinds, Stream.kinds, List.length_map]
    obtain ⟨program, after, ran, _, same⟩ := readAll_takes sentences size size #[] kinds
    have whole : readProgram (Stream.ofTokens tokens) = .ok program after := ran
    exact ⟨program, by rw [Program.ofTokens, whole], same⟩
  · rw [Program.ofTokens, Stream.ofTokens_append_stop tokens behind isEnd, Program.ofTokens]

theorem Program.ofTokens_iff_derives_chained_assignment :
    let kinds : List TokenKind := [.identifier "a", .equal, .identifier "b", .equal, .number 1, .semicolon]
    let tokens : List Token := kinds.map fun kind => ⟨kind, 0, .start⟩
    let stop : Token := ⟨.endOfInput, 0, .start⟩
    Derives kinds
        [.assign .nowhere [.name .nowhere "a", .name .nowhere "b"] (.number .nowhere 1)] ∧
      Program.ofTokens (tokens ++ [stop, ⟨.rightBrace, 0, .start⟩]) = Program.ofTokens (tokens ++ [stop]) := by
  intro kinds tokens stop
  obtain ⟨derives, ends⟩ := Program.ofTokens_iff_derives tokens
  refine ⟨(derives _).mp ⟨[.assign .start [.name .start "a", .name .start "b"] (.number .start 1)], ?_, ?_⟩,
    ends stop _ rfl⟩
  · rfl
  · rfl

end Programs

end Dcpu.Source
