import Dcpu.Proofs.Source.Lexemes
import Mathlib.Data.List.DropRight

/-! # Tokens tile their source text

A source text that is scanned is a sequence of gaps and lexemes. A gap is made of blanks and comments and
goes as far as it can, a lexeme is the longest text that spells a token, and each token tells where its
lexeme begins: the number of characters before it, and its line and column.
-/

namespace Dcpu.Source

open Text

section Positions

/-- The position behind a text: its line feeds give the line, and the characters behind the last of them
the column. -/
def Position.behind (text : List Char) : Position :=
  ⟨1 + text.count '\n', 1 + (text.rtakeWhile (· ≠ '\n')).length⟩

theorem Position.after_behind (text : List Char) (c : Char) :
    (behind text).after c = behind (text ++ [c]) := by
  simp only [behind, after, List.count_append, List.rtakeWhile_concat]
  split
  case isTrue feed =>
    subst feed
    simp [Nat.add_assoc]
  case isFalse other => simp [other, Nat.add_assoc]

/-- The position behind a text is that of its characters one by one. -/
theorem Position.foldl_after_behind (text read : List Char) :
    read.foldl after (behind text) = behind (text ++ read) := by
  induction read generalizing text with
  | nil => simp
  | cons c read ih => rw [List.foldl_cons, after_behind, ih, List.append_assoc, List.singleton_append]

/-- The place in a text between two parts of it. -/
def Cursor.between (before rest : List Char) : Cursor :=
  ⟨before.length, .behind before, rest⟩

/-- A cursor that passes characters stands behind them. -/
theorem Cursor.past_between (before read text rest : List Char) :
    (between before text).past read rest = between (before ++ read) rest := by
  simp only [between, past, Position.foldl_after_behind, List.length_append]

theorem Cursor.ofString_eq (source : String) : Cursor.ofString source = between [] source.toList := rfl

end Positions

section Gaps

/-- A gap, given the text behind it: blanks, and comments that end before a line feed or at the end. -/
inductive Gap : List Char → List Char → Prop where
  | none {rest : List Char} : Gap [] rest
  | blank {c : Char} {gap rest : List Char} : isBlank c = true → Gap gap rest → Gap (c :: gap) rest
  | comment {mark body gap rest : List Char} : mark = ['#'] ∨ mark = ['/', '/'] → '\n' ∉ body →
      (∀ c ∈ (gap ++ rest).head?, c = '\n') → Gap gap rest → Gap (mark ++ body ++ gap) rest

/-- Whether a text begins with a blank or a comment. -/
def beginsGap (text : List Char) : Bool :=
  text.head?.any isBlank || beginsComment text

/-- What is skipped before a token, given what stands behind it: a gap, or inside a comment what is left
of it and then a gap. -/
def Skipped (rest : List Char) : Bool → List Char → Prop
  | false, skipped => Gap skipped rest
  | true, skipped => ∃ body gap, skipped = body ++ gap ∧ '\n' ∉ body ∧
      (∀ c ∈ (gap ++ rest).head?, c = '\n') ∧ Gap gap rest

namespace Skipped

variable {rest skipped : List Char} {inComment : Bool} {c : Char}

theorem nil : Skipped [] inComment [] := by
  cases inComment with
  | false => exact .none
  | true => exact ⟨[], [], rfl, by simp, by simp, .none⟩

/-- A line feed ends a comment. -/
theorem lineFeed (gap : Skipped rest false skipped) : Skipped rest inComment ('\n' :: skipped) := by
  have longer : Gap ('\n' :: skipped) rest := .blank (by decide +kernel) gap
  cases inComment with
  | false => exact longer
  | true => exact ⟨[], '\n' :: skipped, rfl, by simp, by simp, longer⟩

theorem cons (other : c ≠ '\n') (fits : (inComment || isBlank c) = true)
    (skips : Skipped rest inComment skipped) : Skipped rest inComment (c :: skipped) := by
  cases inComment with
  | false => exact Gap.blank fits skips
  | true =>
    obtain ⟨body, gap, rfl, noFeed, feed, isGap⟩ := skips
    exact ⟨c :: body, gap, rfl, by simp [noFeed, other.symm], feed, isGap⟩

/-- The mark of a comment begins a comment. -/
theorem mark (begins : beginsComment (c :: (skipped ++ rest)) = true) (skips : Skipped rest true skipped) :
    Skipped rest false (c :: skipped) := by
  obtain ⟨body, gap, rfl, noFeed, feed, isGap⟩ := skips
  unfold beginsComment at begins
  split at begins
  case h_1 same =>
    obtain ⟨rfl, _⟩ := List.cons.inj same
    exact Gap.comment (.inl rfl) noFeed feed isGap
  case h_2 same =>
    obtain ⟨rfl, slash⟩ := List.cons.inj same
    cases body with
    | nil => exact absurd (feed '/' (by rw [← List.nil_append gap, slash]; rfl)) (by decide)
    | cons d body =>
      obtain ⟨rfl, _⟩ := List.cons.inj slash
      exact Gap.comment (.inr rfl) (fun member => noFeed (.tail _ member)) feed isGap
  case h_3 => cases begins

end Skipped

/-- Where a gap ends: behind blanks and comments, at the end or before a token. -/
theorem gapEnd_skipped (inComment : Bool) (offset : Nat) (position : Position) (text : List Char) :
    ∃ skipped rest, text = skipped ++ rest ∧ Skipped rest inComment skipped ∧ beginsGap rest = false ∧
      gapEnd inComment offset position text = Cursor.past ⟨offset, position, text⟩ skipped rest := by
  induction text generalizing inComment offset position with
  | nil => exact ⟨[], [], rfl, .nil, rfl, rfl⟩
  | cons c text ih =>
    -- One more character is skipped before a gap that ends as the induction hypothesis says.
    have extend (after : Bool) (step : ∀ skipped rest, text = skipped ++ rest →
        Skipped rest after skipped → Skipped rest inComment (c :: skipped))
        (goesOn : gapEnd inComment offset position (c :: text) =
          gapEnd after (offset + 1) (position.after c) text) :
        ∃ skipped rest, c :: text = skipped ++ rest ∧ Skipped rest inComment skipped ∧
          beginsGap rest = false ∧ gapEnd inComment offset position (c :: text) =
            Cursor.past ⟨offset, position, c :: text⟩ skipped rest := by
      obtain ⟨skipped, rest, split, skips, ends, place⟩ := ih after (offset + 1) (position.after c)
      refine ⟨c :: skipped, rest, by rw [split]; rfl, step skipped rest split skips, ends, ?_⟩
      rw [goesOn, place, Cursor.past, Cursor.past, List.foldl_cons, List.length_cons, Nat.add_assoc,
        Nat.add_comm 1]
    by_cases feed : c = '\n'
    · subst feed
      exact extend false (fun _ _ _ skips => skips.lineFeed) (by rw [gapEnd, if_pos rfl])
    by_cases fits : (inComment || isBlank c) = true
    · exact extend inComment (fun _ _ _ skips => skips.cons feed fits)
        (by rw [gapEnd, if_neg feed, if_pos fits])
    obtain ⟨outside, unblank⟩ := Bool.or_eq_false_iff.mp (Bool.eq_false_iff.mpr fits)
    subst outside
    by_cases begins : beginsComment (c :: text) = true
    · exact extend true (fun _ _ split skips => skips.mark (split ▸ begins))
        (by rw [gapEnd, if_neg feed, if_neg fits, if_pos begins])
    · exact ⟨[], c :: text, rfl, .none, by simp [beginsGap, unblank, begins],
        by rw [gapEnd, if_neg feed, if_neg fits, if_neg begins]; rfl⟩

/-- The next token begins behind the gap that begins here. -/
theorem Cursor.skipGap_between (before text : List Char) :
    ∃ gap rest, text = gap ++ rest ∧ Gap gap rest ∧ beginsGap rest = false ∧
      (between before text).skipGap = between (before ++ gap) rest := by
  obtain ⟨gap, rest, split, isGap, ends, place⟩ :=
    gapEnd_skipped false before.length (.behind before) text
  exact ⟨gap, rest, split, isGap, ends, place.trans (past_between before gap text rest)⟩

end Gaps

section Tiles

/-- The tokens of the second of two parts of a text: gaps and the longest lexemes follow one another, and
each token is placed behind all that stands before its lexeme. -/
inductive Tiled : List Char → List Char → List Token → Prop where
  | done {before gap : List Char} : Gap gap [] →
      Tiled before gap [⟨.endOfInput, (before ++ gap).length, .behind (before ++ gap)⟩]
  | next {before gap lexeme rest : List Char} {kind : TokenKind} {tokens : List Token} :
      Gap gap (lexeme ++ rest) → beginsGap (lexeme ++ rest) = false → Spells lexeme kind →
      IsLongest lexeme rest → Tiled (before ++ gap ++ lexeme) rest tokens →
      Tiled before (gap ++ lexeme ++ rest)
        (⟨kind, (before ++ gap).length, .behind (before ++ gap)⟩ :: tokens)

/-- The tokens of a text end with the end of the input, which no other of them is. -/
theorem Tiled.ends {before text : List Char} {tokens : List Token} (tiled : Tiled before text tokens) :
    ∃ front, tokens = front ++ [⟨.endOfInput, (before ++ text).length, .behind (before ++ text)⟩] ∧
      ∀ token ∈ front, token.kind ≠ .endOfInput := by
  induction tiled with
  | done => exact ⟨[], rfl, by simp⟩
  | next _ _ spells _ _ ih =>
    obtain ⟨front, rfl, inside⟩ := ih
    rw [← List.append_assoc, ← List.append_assoc]
    exact ⟨_ :: front, rfl, List.forall_mem_cons.mpr ⟨spells.ne_nil.2, inside⟩⟩

/-- Scanning on from a place tiles what is left of the text. -/
theorem scanTokens_tiled {bound : Nat} {before text : List Char} {read : Array Token}
    {tokens : List Token} (enough : text.length ≤ bound)
    (scanned : scanTokens bound (.between before text) read = .ok tokens) :
    ∃ more, tokens = read.toList ++ more ∧ Tiled before text more := by
  induction bound generalizing before text read with
  | zero =>
    obtain rfl := List.length_eq_zero_iff.mp (Nat.le_zero.mp enough)
    cases scanned
    have tiled : Tiled before [] _ := .done .none
    rw [List.append_nil] at tiled
    exact ⟨_, Array.toList_push, tiled⟩
  | succ bound ih =>
    obtain ⟨gap, rest, rfl, isGap, ends, place⟩ := Cursor.skipGap_between before text
    rw [scanTokens, Cursor.next, place] at scanned
    cases lexed : (Cursor.between (before ++ gap) rest).lexeme with
    | error error =>
      rw [lexed] at scanned
      cases scanned
    | ok lexeme =>
      simp only [lexed, bind, Except.bind, pure, Except.pure] at scanned
      obtain ⟨atEnd, rfl⟩ | ⟨whole, spells, longest⟩ := Cursor.lexeme_spells lexed
      · obtain rfl : rest = [] := atEnd
        cases scanned
        rw [List.append_nil]
        exact ⟨_, Array.toList_push, .done isGap⟩
      · obtain rfl : lexeme.text ++ lexeme.rest = rest := whole
        obtain ⟨nonempty, notEnd⟩ := spells.ne_nil
        have shorter : lexeme.rest.length ≤ bound := by
          have := List.length_pos_iff.mpr nonempty
          simp only [List.length_append] at enough
          omega
        rw [Cursor.token, if_neg notEnd, Cursor.past_between] at scanned
        obtain ⟨more, rfl, tiled⟩ := ih shorter scanned
        refine ⟨_ :: more, by rw [Array.toList_push, List.append_assoc]; rfl, ?_⟩
        rw [← List.append_assoc]
        exact .next isGap ends spells longest tiled

/-- A source text that is scanned is tiled by its tokens, the last of which alone is the end of the input
and stands behind the whole text. -/
theorem scan_tiled {source : String} {tokens : List Token} (scanned : scan source = .ok tokens) :
    Tiled [] source.toList tokens ∧
      ∃ front, tokens = front ++ [⟨.endOfInput, source.length, .behind source.toList⟩] ∧
        ∀ token ∈ front, token.kind ≠ .endOfInput := by
  rw [scan, Cursor.ofString_eq] at scanned
  obtain ⟨_, rfl, tiled⟩ := scanTokens_tiled String.length_toList.le scanned
  exact ⟨tiled, tiled.ends⟩

theorem scan_tiled_behind_comments :
    let source := "# one\nrow<<=0X1f//two"
    let tokens : List Token := [⟨.identifier "row", 6, ⟨2, 1⟩⟩, ⟨.lessLess, 9, ⟨2, 4⟩⟩, ⟨.equal, 11, ⟨2, 6⟩⟩,
      ⟨.number 31, 12, ⟨2, 7⟩⟩, ⟨.endOfInput, 21, ⟨2, 16⟩⟩]
    scan source = .ok tokens ∧ Tiled [] source.toList tokens := by
  intro source tokens
  have scanned : scan source = .ok tokens := by decide +kernel
  exact ⟨scanned, (scan_tiled scanned).1⟩

end Tiles

end Dcpu.Source
