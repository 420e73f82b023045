import Dcpu.Proofs.Grammar.Descent
import Dcpu.Proofs.Grammar.Lookahead

/-! # Recursive descent ends before the end of the input

A call of the recursive descent is followed beside the reader that does the same within a bound. What makes the
call end is that the tokens before the first end of the input get fewer: inside brackets and in each round of a
loop a token has been taken, and between two tokens the calls go down the ranks of the grammar.
-/

namespace Dcpu.Source

open Effects Grammar

namespace Tape

variable {tape : Tape}

def seek (tape : Tape) (index : Nat) : Tape :=
  { tape with index }

/-- The tokens from the next one up to the first end of the input. -/
def stream (tape : Tape) : Stream :=
  ⟨(tape.tokens.take tape.limit).drop tape.index, Stream.stopOf tape.tokens⟩

theorem stream_ofTokens (tokens : List Token) : stream ⟨tokens, 0⟩ = .ofTokens tokens := by
  simp [stream, limit, Stream.ofTokens, List.takeWhile_eq_take_findIdx_not]

theorem head?_stream (tape : Tape) : tape.stream.tokens.head? =
    if tape.index < tape.limit then tape.tokens[tape.index]? else none := by
  rw [stream, List.head?_drop, List.getElem?_take]

theorem getElem?_limit (tape : Tape) :
    tape.tokens[tape.limit]? = tape.tokens.find? (·.kind = .endOfInput) :=
  List.find?_eq_getElem?_findIdx.symm

/-- Up to the first end of the input, a tape shows what its stream does. -/
theorem kind_stream (inside : tape.index ≤ tape.limit) : tape.stream.kind = tape.kind := by
  rw [Stream.kind, head?_stream, kind]
  split
  case isTrue => rfl
  case isFalse atLimit =>
    rw [show tape.index = tape.limit by omega, getElem?_limit]
    cases found : tape.tokens.find? (·.kind = .endOfInput) with
    | none => rfl
    | some token => simpa [eq_comm] using List.find?_some found

theorem position_stream (inside : tape.index ≤ tape.limit) : tape.stream.position = tape.position := by
  rw [Stream.position, head?_stream, position]
  split
  case isTrue before =>
    have isToken : tape.index < tape.tokens.length := Nat.lt_of_lt_of_le before List.findIdx_le_length
    simp [List.getElem?_eq_getElem isToken]
  case isFalse atLimit =>
    rw [show tape.index = tape.limit by omega, getElem?_limit, stream, Stream.stopOf]
    cases tape.tokens.find? (·.kind = .endOfInput) with
    | none => rfl
    | some token => rfl

/-- Before the first end of the input the next token is none. -/
theorem kind_ne_endOfInput_iff (inside : tape.index ≤ tape.limit) :
    tape.kind ≠ .endOfInput ↔ tape.index < tape.limit := by
  constructor
  · intro other
    by_contra atLimit
    apply other
    rw [← kind_stream inside, Stream.kind, head?_stream, if_neg atLimit]
    rfl
  · intro before
    have isToken : tape.index < tape.tokens.length := Nat.lt_of_lt_of_le before List.findIdx_le_length
    have other := List.not_of_lt_findIdx before
    simpa [kind, List.getElem?_eq_getElem isToken] using other

/-- A token other than the end of the input is passed by moving on by one. -/
theorem next_eq_seek (other : tape.kind ≠ .endOfInput) : tape.next = tape.seek (tape.index + 1) :=
  if_neg other

theorem stream_succ (tape : Tape) : (tape.seek (tape.index + 1)).stream = tape.stream.drop := by
  simp [stream, seek, limit, Stream.drop, List.tail_drop]

end Tape

namespace Descent

variable {α β : Type} {steps : Nat → Descent α} {next : α → Nat → Descent β} {tape after final : Tape}

theorem peek_bind (next : TokenKind → Descent β) (tape : Tape) :
    (peek >>= next) tape = next tape.kind tape := rfl

theorem Settles.of_succ {result : Except CompileError α}
    (settles : Settles (fun depth => steps (depth + 1)) tape result final) : Settles steps tape result final := by
  obtain ⟨enough, ran⟩ := settles
  refine ⟨enough + 1, fun depth atLeast => ?_⟩
  obtain ⟨depth, rfl⟩ := Nat.exists_eq_add_of_le' (Nat.le_trans (Nat.le_add_left 1 enough) atLeast)
  exact ran depth (Nat.le_of_succ_le_succ atLeast)

/-- What a descent settles on is settled. -/
theorem Settles.unique {result other : Except CompileError α} (settles : Settles steps tape result after)
    (settlesToo : Settles steps tape other final) : result = other ∧ after = final := by
  obtain ⟨enough, ran⟩ := settles
  obtain ⟨enoughToo, ranToo⟩ := settlesToo
  have same := (ran (max enough enoughToo) (Nat.le_max_left ..)).symm.trans
    (ranToo (max enough enoughToo) (Nat.le_max_right ..))
  simpa using same

/-- A descent settles after its first part does, with as much depth as both need. -/
theorem Settles.bind_ok {value : α} {result : Except CompileError β} (settles : Settles steps tape (.ok value) after)
    (settlesNext : Settles (next value) after result final) :
    Settles (fun depth => steps depth >>= fun value => next value depth) tape result final := by
  obtain ⟨enough, ran⟩ := settles
  obtain ⟨enoughNext, ranNext⟩ := settlesNext
  refine ⟨max enough enoughNext, fun depth atLeast => ?_⟩
  change (steps depth tape >>= fun result => ExceptT.bindCont (fun value => next value depth) result.1 result.2) = _
  rw [ran depth (Nat.le_trans (Nat.le_max_left ..) atLeast)]
  exact ranNext depth (Nat.le_trans (Nat.le_max_right ..) atLeast)

theorem Settles.bind_error {error : CompileError} (settles : Settles steps tape (.error error) after) :
    Settles (fun depth => steps depth >>= fun value => next value depth) tape (.error error) after := by
  obtain ⟨enough, ran⟩ := settles
  refine ⟨enough, fun depth atLeast => ?_⟩
  change (steps depth tape >>= fun result => ExceptT.bindCont (fun value => next value depth) result.1 result.2) = _
  rw [ran depth atLeast]
  rfl

end Descent

namespace Reader

variable {α β : Type}

/-- What a result tells, apart from the stream that it leaves. -/
def told : EStateM.Result CompileError Stream α → Except CompileError α
  | .ok value _ => .ok value
  | .error error _ => .error error

/-- From a tape, a descent ends at an index and tells what a reader tells. It has not gone back, nor beyond the
first end of the input, and if it succeeds it has taken a number of tokens. -/
structure EndsAt (tape : Tape) (least : Nat) (result : EStateM.Result CompileError Stream α)
    (descent : Nat → Descent α) (index : Nat) : Prop where
  settles : Descent.Settles descent tape (told result) (tape.seek index)
  rest : left result = (tape.seek index).stream
  forward : tape.index ≤ index
  within : index ≤ tape.limit
  advanced : ∀ value, told result = .ok value → tape.index + least ≤ index

/-- Before a token of the given kind, with at most a number of tokens up to the first end of the input, a descent
ends as a reader does. -/
def GuidesAt (kind : TokenKind) (bound least : Nat) (reader : Reader α) (descent : Nat → Descent α) : Prop :=
  ∀ ⦃tape : Tape⦄, tape.kind = kind → tape.index ≤ tape.limit → tape.limit ≤ tape.index + bound →
    ∃ index, EndsAt tape least (reader tape.stream) descent index

/-- With at most a number of tokens up to the first end of the input, a descent ends as a reader does. -/
def Guides (bound least : Nat) (reader : Reader α) (descent : Nat → Descent α) : Prop :=
  ∀ kind, reader.GuidesAt kind bound least descent

variable {kind : TokenKind} {bound smaller least : Nat} {reader : Reader α} {descent : Nat → Descent α}

theorem Guides.mono (guides : reader.Guides bound least descent) (le : smaller ≤ bound) :
    reader.Guides smaller least descent :=
  fun kind _ isHere inside fits => guides kind isHere inside (Nat.le_trans fits (Nat.add_le_add_left le _))

theorem GuidesAt.any (guides : reader.GuidesAt kind bound least descent) :
    reader.GuidesAt kind bound 0 descent := by
  intro tape isHere inside fits
  obtain ⟨index, ends⟩ := guides isHere inside fits
  exact ⟨index, { ends with advanced := fun _ _ => ends.forward }⟩

theorem Guides.any (guides : reader.Guides bound least descent) : reader.Guides bound 0 descent :=
  fun kind => (guides kind).any

/-- Without tokens the input ends. -/
theorem Guides.of_zero (guides : reader.GuidesAt .endOfInput 0 least descent) : reader.Guides 0 least descent := by
  intro kind tape isHere inside fits
  refine guides ?_ inside fits
  by_contra other
  have := (Tape.kind_ne_endOfInput_iff inside).mp other
  omega

/-- Without tokens, readers that do the same at the end of the input guide the same descents. -/
theorem Guides.zero_congr {other : Reader α} (guides : reader.Guides 0 least descent)
    (same : ∀ stop, other ⟨[], stop⟩ = reader ⟨[], stop⟩) : other.Guides 0 least descent := by
  intro kind tape isHere inside fits
  obtain ⟨index, ends⟩ := guides kind isHere inside fits
  have atEnd : tape.stream = ⟨[], Stream.stopOf tape.tokens⟩ := by
    rw [Tape.stream, List.drop_eq_nil_of_le]
    exact Nat.le_trans (List.length_take_le ..) fits
  rw [atEnd] at ends
  exact ⟨index, by rwa [atEnd, same]⟩

/-- A call may go one deeper than the steps that it stands for. -/
theorem GuidesAt.of_succ (guides : reader.GuidesAt kind bound least fun depth => descent (depth + 1)) :
    reader.GuidesAt kind bound least descent := by
  intro tape isHere inside fits
  obtain ⟨index, ends⟩ := guides isHere inside fits
  exact ⟨index, { ends with settles := ends.settles.of_succ }⟩

theorem Guides.of_succ (guides : reader.Guides bound least fun depth => descent (depth + 1)) :
    reader.Guides bound least descent :=
  fun kind => (guides kind).of_succ

theorem guides_pure (value : α) : (pure value : Reader α).Guides bound 0 fun _ => pure value :=
  fun _ tape _ inside _ => ⟨tape.index, ⟨0, fun _ _ => rfl⟩, rfl, .refl, inside, fun _ _ => .refl⟩

theorem guides_throw (error : CompileError) : (throw error : Reader α).Guides bound least fun _ => throw error :=
  fun _ tape _ inside _ => ⟨tape.index, ⟨0, fun _ _ => rfl⟩, rfl, .refl, inside, by simp [told]⟩

theorem guides_throw_bind (error : CompileError) (following : α → Reader β) (next : α → Nat → Descent β) :
    (throw error >>= following).Guides bound least fun depth => throw error >>= fun value => next value depth := by
  intro kind tape _ inside _
  have refused : told ((throw error >>= following) tape.stream) = .error error := rfl
  exact ⟨tape.index, ⟨0, fun _ _ => rfl⟩, rfl, .refl, inside, by simp [refused]⟩

/-- Two descents end as two readers do, the second with fewer tokens before it. -/
theorem guidesAt_bind {following : α → Reader β} {next : α → Nat → Descent β} (taken : Nat)
    (guides : reader.GuidesAt kind bound taken descent)
    (guidesNext : ∀ value, (following value).Guides (bound - taken) (least - taken) (next value)) :
    (reader >>= following).GuidesAt kind bound least fun depth => descent depth >>= fun value => next value depth := by
  intro tape isHere inside fits
  obtain ⟨index, ends⟩ := guides isHere inside fits
  rw [bind_apply]
  cases ran : reader tape.stream with
  | error error rest =>
    rw [ran] at ends
    exact ⟨index, ends.settles.bind_error, ends.rest, ends.forward, ends.within, by simp [told]⟩
  | ok value rest =>
    rw [ran] at ends
    have moved := ends.advanced value rfl
    have fitsNext : tape.limit ≤ index + (bound - taken) := by omega
    obtain ⟨final, endsNext⟩ :=
      guidesNext value _ (rfl : (tape.seek index).kind = _) ends.within fitsNext
    rw [← show rest = (tape.seek index).stream from ends.rest] at endsNext
    refine ⟨final, ends.settles.bind_ok endsNext.settles, endsNext.rest,
      Nat.le_trans ends.forward endsNext.forward, endsNext.within, fun result succeeded => ?_⟩
    have movedNext : index + (least - taken) ≤ final := endsNext.advanced result succeeded
    omega

theorem guides_bind {following : α → Reader β} {next : α → Nat → Descent β} (taken : Nat)
    (guides : reader.Guides bound taken descent)
    (guidesNext : ∀ value, (following value).Guides (bound - taken) (least - taken) (next value)) :
    (reader >>= following).Guides bound least fun depth => descent depth >>= fun value => next value depth :=
  fun kind => guidesAt_bind taken (guides kind) guidesNext

/-- Behind a part of which nothing is asked, the rest has to do with the same bound. -/
theorem guides_then {following : α → Reader β} {next : α → Nat → Descent β} (guides : reader.Guides bound 0 descent)
    (guidesNext : ∀ value, (following value).Guides bound least (next value)) :
    (reader >>= following).Guides bound least fun depth => descent depth >>= fun value => next value depth :=
  guides_bind 0 guides guidesNext

/-- A descent may look at the next token where the reader does not. -/
theorem guidesAt_of_peek {next : TokenKind → Nat → Descent α} (guides : reader.GuidesAt kind bound least (next kind)) :
    reader.GuidesAt kind bound least fun depth => Descent.peek >>= fun kind => next kind depth := by
  rintro tape rfl inside fits
  obtain ⟨index, ends⟩ := guides rfl inside fits
  exact ⟨index, { ends with settles := ends.settles }⟩

theorem guidesAt_peek_bind {following : TokenKind → Reader β} {next : TokenKind → Nat → Descent β}
    (guides : (following kind).GuidesAt kind bound least (next kind)) :
    (peek >>= following).GuidesAt kind bound least fun depth => Descent.peek >>= fun kind => next kind depth := by
  intro tape isHere inside fits
  rw [show (peek >>= following) tape.stream = following kind tape.stream by
    rw [← isHere, ← Tape.kind_stream inside]; rfl]
  exact guidesAt_of_peek guides isHere inside fits

theorem guidesAt_of_here {next : Position → Nat → Descent α}
    (guides : ∀ position, reader.GuidesAt kind bound least (next position)) :
    reader.GuidesAt kind bound least fun depth => Descent.here >>= fun position => next position depth := by
  intro tape isHere inside fits
  obtain ⟨index, ends⟩ := guides tape.position isHere inside fits
  exact ⟨index, { ends with settles := ends.settles }⟩

theorem guidesAt_here_bind {following : Position → Reader β} {next : Position → Nat → Descent β}
    (guides : ∀ position, (following position).GuidesAt kind bound least (next position)) :
    (here >>= following).GuidesAt kind bound least fun depth =>
      Descent.here >>= fun position => next position depth := by
  intro tape isHere inside fits
  obtain ⟨index, ends⟩ := guides tape.position isHere inside fits
  refine ⟨index, ?_⟩
  rw [show (here >>= following) tape.stream = following tape.position tape.stream by
    rw [← Tape.position_stream inside]; rfl]
  exact { ends with settles := ends.settles }

/-- Behind a token there are fewer of them, so that the bound is smaller. -/
theorem guidesAt_advance_bind {following : Unit → Reader β} {next : Unit → Nat → Descent β}
    (other : kind ≠ .endOfInput)
    (guides : ∀ smaller < bound, (following ()).Guides smaller (least - 1) (next ())) :
    (advance >>= following).GuidesAt kind bound least fun depth =>
      Descent.advance >>= fun done => next done depth := by
  rintro tape rfl inside fits
  have before := (Tape.kind_ne_endOfInput_iff inside).mp other
  have fitsNext : tape.limit ≤ tape.index + 1 + (bound - 1) := by omega
  obtain ⟨index, ends⟩ :=
    guides (bound - 1) (by omega) _ (rfl : (tape.seek (tape.index + 1)).kind = _) before fitsNext
  refine ⟨index, ?_⟩
  rw [show (advance >>= following) tape.stream = following () (tape.seek (tape.index + 1)).stream by
    rw [Tape.stream_succ]; rfl]
  have moved : tape.index + 1 ≤ index := ends.forward
  have stepped : Descent.Settles (fun _ => Descent.advance) tape (.ok ()) (tape.seek (tape.index + 1)) := by
    refine ⟨0, fun _ _ => ?_⟩
    rw [← Tape.next_eq_seek other]
    rfl
  refine ⟨stepped.bind_ok ends.settles, ends.rest, by omega, ends.within, fun value succeeded => ?_⟩
  have advanced : tape.index + 1 + (least - 1) ≤ index := ends.advanced value succeeded
  omega

theorem guides_unexpected (expectation : Expectation) :
    (unexpected expectation : Reader α).Guides bound least fun _ => Descent.unexpected expectation :=
  fun kind => guidesAt_peek_bind (guidesAt_here_bind fun _ => guides_throw _ kind)

theorem guidesAt_of_accept? {choose : TokenKind → Option α} (missing : choose kind = none) {reader : Reader β}
    {next : Option α → Nat → Descent β} (guides : reader.GuidesAt kind bound least (next none)) :
    reader.GuidesAt kind bound least fun depth => Descent.accept? choose >>= fun found => next found depth := by
  simp only [Descent.accept?, bind_assoc]
  apply guidesAt_of_peek
  simpa only [missing, pure_bind] using guides

theorem guidesAt_of_accept {other : TokenKind} (different : kind ≠ other) {reader : Reader β}
    {next : Bool → Nat → Descent β} (guides : reader.GuidesAt kind bound least (next false)) :
    reader.GuidesAt kind bound least fun depth => Descent.accept other >>= fun accepted => next accepted depth := by
  simp only [Descent.accept, bind_assoc]
  apply guidesAt_of_peek
  simpa only [if_neg different, pure_bind] using guides

/-- A token that is accepted leaves fewer tokens for what follows. -/
theorem guides_accept_bind (kind : TokenKind) (inside : kind ≠ .endOfInput) {following : Bool → Reader β}
    {next : Bool → Nat → Descent β}
    (yes : ∀ smaller < bound, (following true).Guides smaller (least - 1) (next true))
    (no : (following false).Guides bound least (next false)) :
    (accept kind >>= following).Guides bound least fun depth =>
      Descent.accept kind >>= fun accepted => next accepted depth := by
  intro first
  simp only [accept, Descent.accept, bind_assoc]
  apply guidesAt_peek_bind
  by_cases same : first = kind
  · simp only [if_pos same, bind_assoc, pure_bind]
    exact guidesAt_advance_bind (same ▸ inside) yes
  · simpa only [if_neg same, pure_bind] using no first

theorem guides_accept?_bind {choose : TokenKind → Option α} (none_end : choose .endOfInput = none)
    {following : Option α → Reader β} {next : Option α → Nat → Descent β}
    (found : ∀ value, ∀ smaller < bound, (following (some value)).Guides smaller (least - 1) (next (some value)))
    (missing : (following none).Guides bound least (next none)) :
    (accept? choose >>= following).Guides bound least fun depth =>
      Descent.accept? choose >>= fun found => next found depth := by
  intro kind
  simp only [accept?, Descent.accept?, bind_assoc]
  apply guidesAt_peek_bind
  cases chosen : choose kind with
  | none => simpa only [pure_bind] using missing kind
  | some value =>
    have inside : kind ≠ .endOfInput := by
      rintro rfl
      rw [none_end] at chosen
      cases chosen
    simp only [bind_assoc, pure_bind]
    exact guidesAt_advance_bind inside (found value)

theorem guides_expect_bind (kind : TokenKind) (inside : kind ≠ .endOfInput) {following : Unit → Reader β}
    {next : Unit → Nat → Descent β}
    (guides : ∀ smaller < bound, (following ()).Guides smaller (least - 1) (next ())) :
    (expect kind >>= following).Guides bound least fun depth =>
      Descent.expect kind >>= fun done => next done depth := by
  simp only [expect, Descent.expect, bind_assoc]
  apply guides_accept_bind kind inside
  · simpa using guides
  · intro first
    simp only [unexpected, Descent.unexpected, bind_assoc, Bool.false_eq_true, if_false]
    exact guidesAt_peek_bind (guidesAt_here_bind fun _ => guides_throw_bind _ following next first)

theorem guides_identifier : identifier.Guides bound 1 fun _ => Descent.identifier := by
  intro kind
  apply guidesAt_peek_bind
  cases kind with
  | identifier name => exact guidesAt_advance_bind (by simp) fun _ _ => guides_pure name
  | _ => exact guides_unexpected _ _

end Reader

open Reader Nonterminal

section Expressions

variable {bound count : Nat} {operand inner : Reader Expr}

/-- A loop over operands behind marks, beside the reader of a row of them. -/
theorem readMore_guides {α β : Type} (mark? : TokenKind → Option α) (none_end : mark? .endOfInput = none)
    (finish : List (α × Expr) → β) (loop : List (α × Expr) → Nat → Descent β)
    {operandDescent : Nat → Descent Expr}
    (unfolds : ∀ read depth, loop read (depth + 1) = Descent.accept? mark? >>= fun found =>
      found.elim (pure (finish read.reverse)) fun mark => operandDescent depth >>= fun next =>
        loop ((mark, next) :: read) depth)
    (fits : bound ≤ count) (guides : operand.Guides bound 1 operandDescent) (read : List (α × Expr)) :
    Guides bound 0 (do return finish (← readMore mark? operand count read)) (loop read) := by
  induction count generalizing bound read with
  | zero =>
    obtain rfl := Nat.le_zero.mp fits
    apply Guides.of_succ
    simp only [unfolds]
    exact .of_zero (guidesAt_of_accept? none_end (guides_pure _ _))
  | succ count ih =>
    apply Guides.of_succ
    simp only [unfolds]
    simp only [readMore, bind_assoc]
    apply guides_accept?_bind none_end
    · intro mark smaller less
      simp only [bind_assoc, Option.elim_some]
      apply guides_then (guides.mono (Nat.le_of_lt less)).any
      intro next
      exact ih (by omega) (guides.mono (Nat.le_of_lt less)) _
    · exact guides_pure _

/-- The descent into marks ends, for each mark is a token fewer. -/
theorem readUnary_guides (op : UnaryOp) (fits : bound ≤ count)
    (guides : operand.Guides bound 1 (expr (Rank.ofUnary op).tighter).descend) :
    (readUnary op (isMark op) operand count).Guides bound 1 (expr (.ofUnary op)).descend := by
  have unmarked : isMark op .endOfInput = false := by cases op <;> rfl
  induction count generalizing bound with
  | zero =>
    obtain rfl := Nat.le_zero.mp fits
    apply Guides.of_succ
    simp only [descend_unary]
    refine .of_zero (guidesAt_of_here fun position => guidesAt_of_peek ?_)
    rw [unmarked]
    exact guides _
  | succ count ih =>
    intro kind
    apply GuidesAt.of_succ
    simp only [descend_unary]
    apply guidesAt_here_bind
    intro position
    apply guidesAt_peek_bind
    split
    case isTrue marked =>
      have inside : kind ≠ .endOfInput := by
        rintro rfl
        rw [unmarked] at marked
        cases marked
      refine guidesAt_advance_bind inside fun smaller less => ?_
      exact guides_then (ih (by omega) (guides.mono (Nat.le_of_lt less))).any fun expr => guides_pure _
    case isFalse => exact guides kind

theorem callOf_guides (position : Position) (callee : Expr) :
    (callOf position callee).Guides bound 0 fun _ => Descent.callOf position callee := by
  cases callee with
  | name start name => exact guides_pure _
  | _ => exact guides_throw _

/-- The descent into suffixes ends, for each bracket is a token fewer. -/
theorem readSuffixes_guides (fits : bound ≤ count)
    (inside : ∀ smaller < bound, inner.Guides smaller 1 (expr .or).descend) (operand : Expr) :
    (readSuffixes inner count operand).Guides bound 0 (suffixes operand).descend := by
  induction count generalizing bound operand with
  | zero =>
    obtain rfl := Nat.le_zero.mp fits
    apply Guides.of_succ
    simp only [descend]
    exact .of_zero (guidesAt_of_here fun position => guidesAt_of_peek (guides_pure _ _))
  | succ count ih =>
    intro kind
    apply GuidesAt.of_succ
    simp only [descend]
    apply guidesAt_here_bind
    intro position
    apply guidesAt_peek_bind
    cases kind with
    | leftBracket =>
      refine guidesAt_advance_bind (by simp) fun smaller less => ?_
      apply guides_then (inside smaller less).any
      intro index
      refine guides_expect_bind .rightBracket (by simp) fun fewer lessStill => ?_
      exact ih (by omega) (fun least isLess => inside least (by omega)) _
    | leftParen =>
      refine guidesAt_advance_bind (by simp) fun smaller less => ?_
      apply guides_accept_bind .rightParen (by simp)
      · intro fewer lessStill
        apply guides_then (callOf_guides position operand)
        intro call
        exact ih (by omega) (fun least isLess => inside least (by omega)) call
      · exact fun kind => guidesAt_here_bind fun _ => guides_throw _ kind
    | _ => exact guides_pure _ _

theorem readPrimary_guides (inside : ∀ smaller < bound, inner.Guides smaller 1 (expr .or).descend) :
    (readPrimary inner).Guides bound 1 (expr .primary).descend := by
  intro kind
  apply GuidesAt.of_succ
  simp only [descend]
  apply guidesAt_here_bind
  intro position
  apply guidesAt_peek_bind
  cases kind with
  | number | identifier => exact guidesAt_advance_bind (by simp) fun _ _ => guides_pure _
  | leftParen =>
    refine guidesAt_advance_bind (by simp) fun smaller less => ?_
    apply guides_then (inside smaller less).any
    intro expr
    exact guides_expect_bind .rightParen (by simp) fun _ _ => guides_pure expr
  | _ => exact guides_unexpected _ _

theorem readPower_guides (guides : operand.Guides bound 1 (expr .unary).descend) :
    (readPower operand).Guides bound 1 (expr .power).descend := by
  apply Guides.of_succ
  simp only [descend]
  apply guides_bind 1 guides
  intro base
  apply guides_accept_bind .starStar (by simp)
  · intro smaller less
    exact guides_then (guides.mono (by omega)).any fun exponent => guides_pure _
  · exact guides_pure base

/-- The descent along operators ends, for each operator is a token fewer. -/
theorem joined_guides (rank : Rank) (fits : bound ≤ count)
    (guides : operand.Guides bound 1 (expr rank.tighter).descend) (left : Expr) :
    (joinLeft rank.operator? operand count left).Guides bound 0 (joined rank left).descend := by
  rw [show left = joinedRow left [].reverse from rfl, joinLeft_eq_readMore]
  refine readMore_guides _ (finds_operator rank).none_end (joinedRow left)
    (fun read => (joined rank (joinedRow left read.reverse)).descend) (fun read depth => ?_) fits guides []
  simp only [descend_joined rank (joinedRow left read.reverse), List.reverse_cons]
  simp [joinedRow]

theorem joinLevels_guides (rank : Rank) (binary : rank.operators ≠ []) (bound : Nat)
    {tighter : List (TokenKind → Option BinaryOp)}
    (guides : (joinLevels bound operand tighter).Guides bound 1 (expr rank.tighter).descend) :
    (joinLevels bound operand (rank.operator? :: tighter)).Guides bound 1 (expr rank).descend := by
  apply Guides.of_succ
  simp only [descend_binary rank binary]
  apply guides_bind 1 guides
  intro first
  exact joined_guides rank (Nat.sub_le bound 1) (guides.mono (Nat.sub_le bound 1)) first

theorem operands_guides (op : LogicalOp) (fits : bound ≤ count)
    (guides : operand.Guides bound 1 (expr (Rank.ofLogical op).tighter).descend) (read : List (Unit × Expr)) :
    Guides bound 0 (do
      let more ← readMore (fun kind => if isConnective op kind then some () else none) operand count read
      return more.map (·.2)) (operands op (read.map (·.2))).descend := by
  refine readMore_guides (fun kind => if isConnective op kind then some () else none)
    (finds_connective op).none_end (·.map (·.2))
    (fun read => (operands op (read.map (·.2))).descend) (fun read depth => ?_) fits guides read
  rw [descend_operands, ← List.map_reverse]
  rfl

/-- The operands behind the first of a connective. -/
theorem chain_guides (op : LogicalOp) (fits : bound ≤ count)
    (guides : operand.Guides bound 1 (expr (Rank.ofLogical op).tighter).descend) (first : Expr) :
    Guides bound 0 (do
      let more ← readMore (fun kind => if isConnective op kind then some () else none) operand count []
      if more.isEmpty then return first
      return .logical first.position op (first :: more.map (·.2))) (chain op first).descend := by
  apply Guides.of_succ
  simp only [descend]
  have further (more : List Expr) : Guides bound 0
      (if more.isEmpty then return first else return .logical first.position op (first :: more))
      (fun _ => if more.isEmpty then return first else return .logical first.position op (first :: more)) := by
    split <;> exact guides_pure _
  simpa using guides_then (operands_guides op fits guides []) further

theorem readLogical_guides (op : LogicalOp) (bound : Nat)
    (guides : operand.Guides bound 1 (expr (Rank.ofLogical op).tighter).descend) :
    (readLogical op (isConnective op) bound operand).Guides bound 1 (expr (.ofLogical op)).descend := by
  apply Guides.of_succ
  simp only [descend_logical]
  apply guides_bind 1 guides
  intro first
  exact chain_guides op (Nat.sub_le bound 1) (guides.mono (Nat.sub_le bound 1)) first

theorem stages_guides (fits : bound ≤ count) (guides : operand.Guides bound 1 (expr .bitOr).descend)
    (read : List (Relation × Expr)) :
    (readMore relation? operand count read).Guides bound 0 (stages read).descend := by
  simpa using readMore_guides _ finds_relation.none_end id (fun read => (stages read).descend) descend_stages
    fits guides read

theorem readComparison_guides (bound : Nat) (guides : operand.Guides bound 1 (expr .bitOr).descend) :
    (readComparison bound operand).Guides bound 1 (expr .comparison).descend := by
  apply Guides.of_succ
  simp only [descend]
  apply guides_bind 1 guides
  intro first
  apply guides_then (stages_guides (Nat.sub_le bound 1) (guides.mono (Nat.sub_le bound 1)) [])
  intro stages
  split <;> exact guides_pure _

/-- The reader of the expressions of a rank, given how to read one inside brackets. -/
def readRank (bound : Nat) (inner : Reader Expr) (rank : Rank) : Reader Expr :=
  let suffixed := do readSuffixes inner bound (← readPrimary inner)
  let comparison := readComparison bound (joinLevels bound (readOperand bound inner) binaryLevels)
  match rank with
  | .or => readLevels bound inner
  | .and => readLogical .and isAnd bound (readUnary .not isNot comparison bound)
  | .not => readUnary .not isNot comparison bound
  | .comparison => comparison
  | .bitOr => joinLevels bound (readOperand bound inner) binaryLevels
  | .bitXor => joinLevels bound (readOperand bound inner) (binaryLevels.drop 1)
  | .bitAnd => joinLevels bound (readOperand bound inner) (binaryLevels.drop 2)
  | .shift => joinLevels bound (readOperand bound inner) (binaryLevels.drop 3)
  | .sum => joinLevels bound (readOperand bound inner) (binaryLevels.drop 4)
  | .term => joinLevels bound (readOperand bound inner) (binaryLevels.drop 5)
  | .power => readOperand bound inner
  | .unary => readUnary .negate (· = .minus) suffixed bound
  | .suffixed => suffixed
  | .primary => readPrimary inner

/-- Down the ranks of the grammar every call ends, if the calls between parentheses and brackets do. -/
theorem readRank_guides (bound : Nat) (inside : ∀ smaller < bound, inner.Guides smaller 1 (expr .or).descend)
    (rank : Rank) : (readRank bound inner rank).Guides bound 1 (expr rank).descend := by
  have primary := readPrimary_guides inside
  have suffixed : Guides bound 1 (do readSuffixes inner bound (← readPrimary inner)) (expr .suffixed).descend := by
    apply Guides.of_succ
    simp only [descend]
    apply guides_bind 1 primary
    intro operand
    exact readSuffixes_guides (Nat.sub_le bound 1) (fun smaller less => inside smaller (by omega)) operand
  have unary := readUnary_guides .negate (Nat.le_refl bound) suffixed
  have power : (joinLevels bound (readOperand bound inner) []).Guides bound 1 (expr .power).descend :=
    readPower_guides unary
  have term := joinLevels_guides .term (by decide) bound power
  have sum := joinLevels_guides .sum (by decide) bound term
  have shift := joinLevels_guides .shift (by decide) bound sum
  have bitAnd := joinLevels_guides .bitAnd (by decide) bound shift
  have bitXor := joinLevels_guides .bitXor (by decide) bound bitAnd
  have bitOr := joinLevels_guides .bitOr (by decide) bound bitXor
  have comparison := readComparison_guides bound bitOr
  have not := readUnary_guides .not (Nat.le_refl bound) comparison
  have and := readLogical_guides .and bound not
  have or := readLogical_guides .or bound and
  simp only [readRank, readLevels, binaryLevels_eq]
  cases rank with
  | or => exact or
  | and => exact and
  | not => exact not
  | comparison => exact comparison
  | bitOr => exact bitOr
  | bitXor => exact bitXor
  | bitAnd => exact bitAnd
  | shift => exact shift
  | sum => exact sum
  | term => exact term
  | power => exact power
  | unary => exact unary
  | suffixed => exact suffixed
  | primary => exact primary

/-- The call for an expression ends. The induction is on the number of tokens up to the end of the input. -/
theorem readExpr_guides (bound : Nat) : (readExpr bound).Guides bound 1 (expr .or).descend := by
  induction bound with
  | zero =>
    have inside : ∀ smaller < 0, (readExpr 0).Guides smaller 1 (expr .or).descend := by simp
    exact (readRank_guides 0 inside .or).zero_congr fun _ => rfl
  | succ bound ih => exact readRank_guides (bound + 1) (fun smaller less => ih.mono (Nat.le_of_lt_succ less)) .or

end Expressions

section Statements

variable {bound count : Nat} {inner : Reader Stmt}

theorem readAssigned_guides {reader : Reader Expr} (fits : bound ≤ count)
    (guides : reader.Guides bound 1 (expr .or).descend) (value : Expr) (targets : List Expr) :
    (readAssigned reader count value targets).Guides bound 0 (assigned value targets).descend := by
  induction count generalizing bound value targets with
  | zero =>
    obtain rfl := Nat.le_zero.mp fits
    apply Guides.of_succ
    simp only [descend]
    apply Guides.of_zero
    apply guidesAt_of_accept (show TokenKind.endOfInput ≠ .equal by decide)
    exact guides_pure _ _
  | succ count ih =>
    apply Guides.of_succ
    simp only [descend]
    apply guides_accept_bind .equal (by simp)
    · intro smaller less
      have further := guides.mono (Nat.le_of_lt less)
      exact guides_then further.any fun following => ih (by omega) further _ _
    · exact guides_pure _

theorem readSimple_guides (fits : bound ≤ count) : (readSimple count).Guides bound 1 simple.descend := by
  have guides := (readExpr_guides count).mono fits
  intro kind
  apply GuidesAt.of_succ
  simp only [descend]
  apply guidesAt_here_bind
  intro position
  apply guidesAt_bind 1 (guides kind)
  intro first
  apply guides_then (readAssigned_guides (by omega) (guides.mono (Nat.sub_le bound 1)) first [])
  intro result
  exact guides_pure _

theorem readCondition_guides (fits : bound ≤ count) : (readCondition count).Guides bound 1 condition.descend := by
  apply Guides.of_succ
  simp only [descend]
  refine guides_expect_bind .leftParen (by simp) fun smaller less => ?_
  apply guides_then ((readExpr_guides count).mono (by omega)).any
  intro test
  exact guides_expect_bind .rightParen (by simp) fun _ _ => guides_pure test

/-- Each round of the loop over statements takes a token, since a statement does. -/
theorem readStmts_guides (fits : bound ≤ count) (guides : inner.Guides bound 1 statement.descend)
    (read : Array Stmt) : (readStmts inner count read).Guides bound 0 (statements read).descend := by
  induction count generalizing bound read with
  | zero =>
    obtain rfl := Nat.le_zero.mp fits
    apply Guides.of_succ
    simp only [descend]
    exact .of_zero (guidesAt_of_peek (guides_pure _ _))
  | succ count ih =>
    intro kind
    have further : GuidesAt kind bound 0 (inner >>= fun following => readStmts inner count (read.push following))
        (fun depth => statement.descend depth >>= fun following =>
          (statements (read.push following)).descend depth) :=
      guidesAt_bind 1 (guides kind) fun _ => ih (by omega) (guides.mono (Nat.sub_le bound 1)) _
    apply GuidesAt.of_succ
    simp only [descend]
    apply guidesAt_peek_bind
    cases kind with
    | rightBrace | endOfInput => exact guides_pure _ _
    | _ => exact further

/-- The descent into a block ends, if that into its statements does. -/
theorem readBlock_guides (fits : bound ≤ count) (guides : inner.Guides bound 1 statement.descend) :
    (readBlock count inner).Guides bound 1 block.descend := by
  apply Guides.of_succ
  simp only [descend]
  refine guides_expect_bind .leftBrace (by simp) fun smaller less => ?_
  apply guides_then (readStmts_guides (by omega) (guides.mono (Nat.le_of_lt less)) #[])
  intro body
  exact guides_expect_bind .rightBrace (by simp) fun _ _ => guides_pure body

theorem readRoutine_guides (fits : bound ≤ count)
    (inside : ∀ smaller < bound, inner.Guides smaller 1 statement.descend) :
    (readRoutine count inner).Guides bound 1 routine.descend := by
  intro kind
  apply GuidesAt.of_succ
  simp only [descend]
  apply guidesAt_here_bind
  intro position
  refine guides_expect_bind .functionWord (by simp) (fun smaller less => ?_) kind
  apply guides_then guides_identifier.any
  intro name
  refine guides_expect_bind .leftParen (by simp) fun fewer lessStill => ?_
  apply guides_accept_bind .rightParen (by simp)
  · intro least isLess
    have block := readBlock_guides (show least ≤ count by omega) (inside least (by omega))
    exact guides_then block.any fun body => guides_pure _
  · exact fun kind => guidesAt_here_bind fun _ => guides_throw _ kind

/-- Before `if` the call for a statement is the call for a conditional. -/
theorem guidesAt_branch {reader : Reader Stmt} {least : Nat}
    (guides : reader.GuidesAt .ifWord bound least statement.descend) :
    reader.GuidesAt .ifWord bound least branch.descend := by
  intro tape isHere inside fits
  obtain ⟨index, ends⟩ := guides isHere inside fits
  have same (depth : Nat) : statement.descend (depth + 1) tape = branch.descend depth tape := by
    rw [descend, Descent.peek_bind, isHere]
  obtain ⟨enough, ran⟩ := ends.settles
  have settles : Descent.Settles branch.descend tape (told (reader tape.stream)) (tape.seek index) :=
    ⟨enough, fun depth atLeast => (same depth).symm.trans (ran (depth + 1) (Nat.le_succ_of_le atLeast))⟩
  exact ⟨index, { ends with settles }⟩

theorem readBranch_guides (fits : bound ≤ count)
    (inside : ∀ smaller < bound, inner.Guides smaller 1 statement.descend) :
    (readBranch count inner).Guides bound 1 branch.descend := by
  intro kind
  apply GuidesAt.of_succ
  simp only [descend]
  apply guidesAt_here_bind
  intro position
  refine guides_expect_bind .ifWord (by simp) (fun smaller less => ?_) kind
  have block := readBlock_guides (show smaller ≤ count by omega) (inside smaller less)
  apply guides_then (readCondition_guides (by omega)).any
  intro test
  apply guides_then block.any
  intro body
  apply guides_accept_bind .elseWord (by simp)
  · intro fewer lessStill following
    apply guidesAt_peek_bind
    by_cases isIf : following = .ifWord
    · subst isIf
      simp only [if_true]
      have another := guidesAt_branch (inside fewer (by omega) .ifWord)
      exact guidesAt_bind 0 another.any fun _ => guides_pure _
    · simp only [if_neg isIf]
      exact guidesAt_bind 0 ((block.mono (Nat.le_of_lt lessStill)).any following) fun _ => guides_pure _
  · exact guides_pure _

theorem readWhile_guides (fits : bound ≤ count)
    (inside : ∀ smaller < bound, inner.Guides smaller 1 statement.descend) :
    (readWhile count inner).Guides bound 1 whileLoop.descend := by
  intro kind
  apply GuidesAt.of_succ
  simp only [descend]
  apply guidesAt_here_bind
  intro position
  refine guides_expect_bind .whileWord (by simp) (fun smaller less => ?_) kind
  apply guides_then (readCondition_guides (by omega)).any
  intro test
  exact guides_then (readBlock_guides (by omega) (inside smaller less)).any fun body => guides_pure _

theorem readFor_guides (fits : bound ≤ count)
    (inside : ∀ smaller < bound, inner.Guides smaller 1 statement.descend) :
    (readFor count inner).Guides bound 1 forLoop.descend := by
  intro kind
  apply GuidesAt.of_succ
  simp only [descend]
  apply guidesAt_here_bind
  intro position
  refine guides_expect_bind .forWord (by simp) (fun _ _ => ?_) kind
  refine guides_expect_bind .leftParen (by simp) fun _ _ => ?_
  apply guides_then (readSimple_guides (by omega)).any
  intro init
  refine guides_expect_bind .semicolon (by simp) fun _ _ => ?_
  apply guides_then ((readExpr_guides count).mono (by omega)).any
  intro test
  refine guides_expect_bind .semicolon (by simp) fun _ _ => ?_
  apply guides_then (readSimple_guides (by omega)).any
  intro step
  refine guides_expect_bind .rightParen (by simp) fun _ _ => ?_
  exact guides_then (readBlock_guides (by omega) (inside _ (by omega))).any fun body => guides_pure _

theorem readReturn_guides (fits : bound ≤ count) : (readReturn count).Guides bound 1 ret.descend := by
  intro kind
  apply GuidesAt.of_succ
  simp only [descend]
  apply guidesAt_here_bind
  intro position
  refine guides_expect_bind .returnWord (by simp) (fun smaller less => ?_) kind
  apply guides_accept_bind .semicolon (by simp)
  · exact fun _ _ => guides_pure _
  · apply guides_then ((readExpr_guides count).mono (by omega)).any
    intro value
    exact guides_expect_bind .semicolon (by simp) fun _ _ => guides_pure _

/-- The descent into a statement ends, if that into the statements within it does with fewer tokens. -/
theorem readStmtWith_guides (bound : Nat) (inside : ∀ smaller < bound, inner.Guides smaller 1 statement.descend) :
    (readStmtWith bound inner).Guides bound 1 statement.descend := by
  intro kind
  have simple : Guides bound 1 (do
        let statement ← readSimple bound
        Reader.expect .semicolon
        return statement) (fun depth => do
        let statement ← simple.descend depth
        Descent.expect .semicolon
        return statement) := by
    apply guides_bind 1 (readSimple_guides .refl)
    intro statement
    exact guides_expect_bind .semicolon (by simp) fun _ _ => guides_pure statement
  apply GuidesAt.of_succ
  simp only [descend]
  apply guidesAt_peek_bind
  cases kind with
  | functionWord => exact readRoutine_guides .refl inside _
  | ifWord => exact readBranch_guides .refl inside _
  | whileWord => exact readWhile_guides .refl inside _
  | forWord => exact readFor_guides .refl inside _
  | returnWord => exact readReturn_guides .refl _
  | _ => exact simple _

/-- The call for a statement ends. The induction is on the number of tokens up to the end of the input. -/
theorem readStmt_guides (bound : Nat) : (readStmt bound).Guides bound 1 statement.descend := by
  induction bound with
  | zero =>
    have inside : ∀ smaller < 0, (readStmt 0).Guides smaller 1 statement.descend := by simp
    exact (readStmtWith_guides 0 inside).zero_congr fun _ => rfl
  | succ bound ih => exact readStmtWith_guides (bound + 1) fun smaller less => ih.mono (Nat.le_of_lt_succ less)

/-- The descent into a program ends, for each statement is a token fewer at least. -/
theorem readAll_guides (fits : bound ≤ count) (guides : inner.Guides bound 1 statement.descend)
    (read : Array Stmt) : (readAll inner count read).Guides bound 0 (program read).descend := by
  induction count generalizing bound read with
  | zero =>
    obtain rfl := Nat.le_zero.mp fits
    apply Guides.of_succ
    simp only [descend]
    exact .of_zero (guidesAt_of_peek (guides_pure _ _))
  | succ count ih =>
    intro kind
    apply GuidesAt.of_succ
    simp only [descend]
    apply guidesAt_peek_bind
    split
    case isTrue => exact guides_pure _ _
    case isFalse =>
      exact guidesAt_bind 1 (guides kind) fun _ => ih (by omega) (guides.mono (Nat.sub_le bound 1)) _

end Statements

/-- The reader of what a call of the recursive descent reads. -/
def Nonterminal.reader {α : Type} (bound : Nat) : Nonterminal α → Reader α
  | .expr rank => readRank bound (readExpr bound) rank
  | .chain op first => do
    let operand := readRank bound (readExpr bound) (Rank.ofLogical op).tighter
    let more ← readMore (fun kind => if isConnective op kind then some () else none) operand bound []
    if more.isEmpty then return first
    return .logical first.position op (first :: more.map (·.2))
  | .operands op read => do
    let operand := readRank bound (readExpr bound) (Rank.ofLogical op).tighter
    let more ← readMore (fun kind => if isConnective op kind then some () else none) operand bound
      (read.map ((), ·))
    return more.map (·.2)
  | .stages read => readMore relation? (readRank bound (readExpr bound) .bitOr) bound read
  | .joined rank left => joinLeft rank.operator? (readRank bound (readExpr bound) rank.tighter) bound left
  | .suffixes operand => readSuffixes (readExpr bound) bound operand
  | .simple => readSimple bound
  | .assigned value targets => readAssigned (readExpr bound) bound value targets
  | .condition => readCondition bound
  | .block => readBlock bound (readStmt bound)
  | .statements read => readStmts (readStmt bound) bound read
  | .routine => readRoutine bound (readStmt bound)
  | .branch => readBranch bound (readStmt bound)
  | .whileLoop => readWhile bound (readStmt bound)
  | .forLoop => readFor bound (readStmt bound)
  | .ret => readReturn bound
  | .statement => readStmt bound
  | .program read => readAll (readStmt bound) bound read

/-- Every call of the recursive descent ends as its reader does. -/
theorem Nonterminal.reader_guides {α : Type} (goal : Nonterminal α) (bound : Nat) :
    (goal.reader bound).Guides bound goal.least goal.descend := by
  have expressions := readRank_guides bound fun smaller less => (readExpr_guides bound).mono (Nat.le_of_lt less)
  have inside : ∀ smaller < bound, (readStmt bound).Guides smaller 1 statement.descend := fun smaller less =>
    (readStmt_guides bound).mono (Nat.le_of_lt less)
  cases goal with
  | expr rank => exact expressions rank
  | chain op first => exact chain_guides op .refl (expressions _) first
  | operands op read =>
    have row := operands_guides op (Nat.le_refl bound) (expressions _) (read.map ((), ·))
    rwa [show (read.map ((), ·)).map (·.2) = read by simp [Function.comp_def]] at row
  | stages read => exact stages_guides .refl (expressions .bitOr) read
  | joined rank left => exact joined_guides rank .refl (expressions rank.tighter) left
  | suffixes operand =>
    exact readSuffixes_guides .refl (fun _ less => (readExpr_guides bound).mono (Nat.le_of_lt less)) operand
  | simple => exact readSimple_guides .refl
  | assigned value targets => exact readAssigned_guides .refl (readExpr_guides bound) value targets
  | condition => exact readCondition_guides .refl
  | block => exact readBlock_guides .refl (readStmt_guides bound)
  | statements read => exact readStmts_guides .refl (readStmt_guides bound) read
  | routine => exact readRoutine_guides .refl inside
  | branch => exact readBranch_guides .refl inside
  | whileLoop => exact readWhile_guides .refl inside
  | forLoop => exact readFor_guides .refl inside
  | ret => exact readReturn_guides .refl
  | statement => exact readStmt_guides bound
  | program read => exact readAll_guides .refl (readStmt_guides bound) read

/-- The program that tokens make is what its reader tells. -/
theorem told_reader_program (tokens : List Token) :
    told ((program #[]).reader (Stream.ofTokens tokens).tokens.length (.ofTokens tokens)) =
      Program.ofTokens tokens := by
  change told (readProgram (.ofTokens tokens)) = _
  rw [Program.ofTokens]
  cases readProgram (.ofTokens tokens) with
  | ok | error => rfl

/-- Recursive descent is total, whatever the tokens are. From an index up to the first end of the input every call
ends, at an index that is not smaller and no more than that of the first end of the input; if it succeeds, it has
taken at least one token, but for the loops and the rest of a row. It tells what its reader tells and leaves what
its reader leaves, with the number of tokens before the end as the bound or more. From the first token the descent
finds the program that the tokens make. -/
theorem Nonterminal.descend_total (tokens : List Token) :
    (∀ {α : Type} (goal : Nonterminal α) (index : Nat), index ≤ Tape.limit ⟨tokens, index⟩ →
      ∃ (result : Except CompileError α) (final : Nat),
        Descent.Settles goal.descend ⟨tokens, index⟩ result ⟨tokens, final⟩ ∧
        index ≤ final ∧ final ≤ Tape.limit ⟨tokens, index⟩ ∧
        (∀ value, result = .ok value → index + goal.least ≤ final) ∧
        ∀ bound, Tape.limit ⟨tokens, index⟩ ≤ index + bound →
          told (goal.reader bound (Tape.stream ⟨tokens, index⟩)) = result ∧
          left (goal.reader bound (Tape.stream ⟨tokens, index⟩)) = Tape.stream ⟨tokens, final⟩) ∧
    ∃ final, Descent.Settles (program #[]).descend ⟨tokens, 0⟩ (Program.ofTokens tokens) ⟨tokens, final⟩ := by
  constructor
  · intro α goal index inside
    let tape : Tape := ⟨tokens, index⟩
    obtain ⟨final, ends⟩ := goal.reader_guides tape.limit tape.kind rfl inside (Nat.le_add_left ..)
    refine ⟨_, final, ends.settles, ends.forward, ends.within, ends.advanced, fun bound fits => ?_⟩
    -- The descent has one result, so that the readers of all bounds tell and leave the same.
    obtain ⟨other, endsToo⟩ := goal.reader_guides bound tape.kind rfl inside fits
    obtain ⟨tells, sameEnd⟩ := endsToo.settles.unique ends.settles
    exact ⟨tells, endsToo.rest.trans (congrArg Tape.stream sameEnd)⟩
  · let tape : Tape := ⟨tokens, 0⟩
    have bounded : tape.limit ≤ 0 + tape.stream.tokens.length := by
      simp [Tape.stream, Tape.limit, tape, List.findIdx_le_length]
    obtain ⟨final, ends⟩ := (program #[]).reader_guides _ tape.kind rfl (Nat.zero_le _) bounded
    refine ⟨final, ?_⟩
    rw [← told_reader_program, ← Tape.stream_ofTokens]
    exact ends.settles

/-- A statement, the end of the input, and a token that is never read. -/
def endInside : List Token :=
  [⟨.identifier "x", 0, ⟨1, 1⟩⟩, ⟨.semicolon, 1, ⟨1, 2⟩⟩, ⟨.endOfInput, 2, ⟨1, 3⟩⟩, ⟨.bang, 3, ⟨1, 4⟩⟩]

theorem Nonterminal.descend_total_endInside :
    1 ≤ Tape.limit ⟨endInside, 1⟩ ∧
    (∃ (result : Except CompileError Stmt) (final : Nat),
      Descent.Settles statement.descend ⟨endInside, 1⟩ result ⟨endInside, final⟩ ∧ 1 ≤ final ∧ final ≤ 2) ∧
    ∃ final, Descent.Settles (program #[]).descend ⟨endInside, 0⟩
      (.ok [.evaluate ⟨1, 1⟩ (.name ⟨1, 1⟩ "x")]) ⟨endInside, final⟩ := by
  have inside : 1 ≤ Tape.limit ⟨endInside, 1⟩ := by decide
  obtain ⟨result, final, settles, forward, within, -⟩ := (descend_total endInside).1 statement 1 inside
  exact ⟨inside, ⟨result, final, settles, forward, within⟩, (descend_total endInside).2⟩

end Dcpu.Source
