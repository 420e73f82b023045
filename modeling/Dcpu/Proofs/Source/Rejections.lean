import Dcpu.Proofs.Source.Rendering

/-! # Where scanning stops

A source text that is not scanned is tiled by tokens up to the place where no further token can be read. There
stands a literal that begins with a digit and spells no token, or a character with which no token begins, and this
is the place that the error names.
-/

namespace Dcpu.Source

open Text

section Places

/-- A token begins between two parts of a text: it tells this place, and behind it stands the longest of its
spellings, or for the end of the input nothing. -/
def Token.BeginsBetween (token : Token) (front rest : List Char) : Prop :=
  token.offset = front.length ∧ token.position = .behind front ∧
    (token.kind = .endOfInput ∧ rest = [] ∨
      ∃ lexeme more, rest = lexeme ++ more ∧ Spells lexeme token.kind ∧ IsLongest lexeme more)

/-- Every token of a text begins at the place in the text that it tells. -/
theorem Tiled.begins {before text : List Char} {tokens : List Token} (tiled : Tiled before text tokens) :
    ∀ token ∈ tokens, ∃ front rest, before ++ text = front ++ rest ∧ token.BeginsBetween front rest := by
  induction tiled with
  | @done before gap =>
    intro token member
    obtain rfl := List.mem_singleton.mp member
    exact ⟨before ++ gap, [], by simp, rfl, rfl, .inl ⟨rfl, rfl⟩⟩
  | @next before gap lexeme rest kind tokens _ _ spells longest _ ih =>
    intro token member
    obtain rfl | member := List.mem_cons.mp member
    · exact ⟨before ++ gap, lexeme ++ rest, by simp, rfl, rfl, .inr ⟨lexeme, rest, rfl, spells, longest⟩⟩
    · obtain ⟨front, behind, split, begins⟩ := ih token member
      exact ⟨front, behind, by rw [← split]; simp, begins⟩

/-- The tokens of a source that is scanned tile it. -/
theorem tiled_of_scan {source : String} {tokens : List Token} (scanned : scan source = .ok tokens) :
    Tiled [] source.toList tokens := by
  rw [scan, Cursor.ofString_eq] at scanned
  obtain ⟨_, rfl, tiled⟩ := scanTokens_tiled String.length_toList.le scanned
  exact tiled

end Places

section Refusals

/-- What stands where no token can be read, and the error: a literal that begins with a digit and spells no token,
or a character with which no token begins. -/
inductive Rejects (position : Position) : List Char → CompileError → Prop where
  | literal {c : Char} {rest : List Char} {fault : NumberFault} : isDigit 10 c = true →
      (∀ kind, ¬ Spells ((c :: rest).takeWhile isNamePart) kind) →
      Rejects position (c :: rest) (.number fault position)
  | character {c : Char} {rest : List Char} : (∀ lexeme kind, lexeme <+: c :: rest → ¬ Spells lexeme kind) →
      Rejects position (c :: rest) (.unexpectedCharacter c position)

theorem Rejects.position? {position : Position} {rest : List Char} {error : CompileError}
    (rejects : Rejects position rest error) : error.position? = some position := by
  cases rejects <;> rfl

variable {c : Char} {rest : List Char}

/-- Where a symbol is spelled, it or a longer one is found. -/
theorem isSome_symbol?_spelling {kind : TokenKind} (isSymbol : kind.isSymbol = true) (rest : List Char) :
    (symbol? (kind.spelling.toList ++ rest)).isSome = true := by
  by_cases apart : ∀ c ∈ ['*', '=', '&', '|', '<', '>'], ∀ tail, rest ≠ c :: tail
  · rw [symbol?_of_apart isSymbol apart]
    rfl
  · simp only [not_forall, not_not] at apart
    obtain ⟨c, member, tail, rfl⟩ := apart
    simp only [List.mem_cons, List.not_mem_nil, or_false] at member
    obtain rfl | rfl | rfl | rfl | rfl | rfl := member
    all_goals
      cases kind with
      | number | identifier | endOfInput | functionWord | returnWord | ifWord | elseWord | whileWord | forWord
      | andWord | orWord | notWord => cases isSymbol
      | _ => rfl

/-- Every token begins with a symbol, a digit or the first character of a name. -/
theorem Spells.head {lexeme : List Char} {kind : TokenKind} (spells : Spells lexeme kind)
    (begins : lexeme <+: c :: rest) :
    (symbol? (c :: rest)).isSome = true ∨ isDigit 10 c = true ∨ isNameStart c = true := by
  obtain ⟨more, same⟩ := begins
  cases spells with
  | symbol isSymbol =>
    left
    rw [← same]
    exact isSome_symbol?_spelling isSymbol more
  | keyword isKeyword =>
    obtain ⟨d, tail, head, start⟩ := keyword_head isKeyword
    rw [head] at same
    obtain ⟨rfl, _⟩ := List.cons.inj same
    exact .inr (.inr start)
  | identifier start _ _ =>
    obtain ⟨rfl, _⟩ := List.cons.inj same
    exact .inr (.inr start)
  | decimal nonempty digits _ =>
    obtain ⟨d, tail, rfl⟩ := List.exists_cons_of_ne_nil nonempty
    obtain ⟨rfl, _⟩ := List.cons.inj same
    exact .inr (.inl (digits d (by simp)))
  | hexadecimal =>
    obtain ⟨rfl, _⟩ := List.cons.inj same
    exact .inr (.inl (by decide))

/-- A literal that spells a token is read as the token. -/
theorem Cursor.lexeme_of_spells_literal {cursor : Cursor} {kind : TokenKind} (text : cursor.rest = c :: rest)
    (digit : isDigit 10 c = true) (spells : Spells ((c :: rest).takeWhile isNamePart) kind) :
    ∃ lexeme, cursor.lexeme = .ok lexeme := by
  have split : cursor.rest = (c :: rest).takeWhile isNamePart ++ (c :: rest).dropWhile isNamePart := by
    rw [text, List.takeWhile_append_dropWhile]
  have ends : ∀ d ∈ ((c :: rest).dropWhile isNamePart).head?, isNamePart d = false := by
    intro d head
    have stops := List.head?_dropWhile_not isNamePart (c :: rest)
    rw [Option.mem_def.mp head] at stops
    simpa using stops
  have plain : kind.isSymbol = false := by
    rw [Bool.eq_false_iff]
    intro isSymbol
    obtain ⟨d, tail, head, notPart⟩ := symbol_head isSymbol
    have literal := spells.eq_spelling isSymbol
    rw [head, List.takeWhile_cons_of_pos (isNamePart_of_isDigit digit)] at literal
    obtain ⟨rfl, _⟩ := List.cons.inj literal
    rw [isNamePart_of_isDigit digit] at notPart
    cases notPart
  exact ⟨_, lexeme_of_spells_plain spells plain split ends⟩

/-- Where no token can be read, the error tells the place, and what stands there is at fault. -/
theorem Cursor.rejects_of_lexeme_eq_error {cursor : Cursor} {error : CompileError}
    (refused : cursor.lexeme = .error error) : Rejects cursor.position cursor.rest error := by
  have failed := refused
  rw [Cursor.lexeme] at failed
  cases text : cursor.rest with
  | nil =>
    rw [text] at failed
    cases failed
  | cons c rest =>
    simp only [text] at failed
    cases symbol : symbol? (c :: rest) with
    | some kind =>
      simp only [symbol] at failed
      cases failed
    | none =>
      simp only [symbol] at failed
      split at failed
      case isTrue digit =>
        cases number : Lexeme.number (c :: rest) with
        | ok lexeme =>
          rw [number] at failed
          cases failed
        | error fault =>
          rw [number] at failed
          cases failed
          refine .literal digit fun kind spells => ?_
          obtain ⟨lexeme, read⟩ := lexeme_of_spells_literal text digit spells
          rw [read] at refused
          cases refused
      case isFalse notDigit =>
        split at failed
        case isTrue => cases failed
        case isFalse notStart =>
          cases failed
          refine .character fun lexeme kind begins spells => ?_
          simpa [symbol, notDigit, notStart] using spells.head begins

/-- The tokens of the second of two parts of a text up to a place in it. As far as that place gaps and the longest
lexemes follow one another, with a gap before it and none behind it. -/
inductive TiledTo (front rest : List Char) : List Char → List Char → List Token → Prop where
  | here {before gap : List Char} : Gap gap rest → beginsGap rest = false → before ++ gap = front →
      TiledTo front rest before (gap ++ rest) []
  | next {before gap lexeme behind : List Char} {kind : TokenKind} {tokens : List Token} :
      Gap gap (lexeme ++ behind) → beginsGap (lexeme ++ behind) = false → Spells lexeme kind →
      IsLongest lexeme behind → TiledTo front rest (before ++ gap ++ lexeme) behind tokens →
      TiledTo front rest before (gap ++ lexeme ++ behind)
        (⟨kind, (before ++ gap).length, .behind (before ++ gap)⟩ :: tokens)

/-- What is tiled and what is left are the whole text. -/
theorem TiledTo.split {front rest before text : List Char} {tokens : List Token}
    (tiled : TiledTo front rest before text tokens) : before ++ text = front ++ rest := by
  induction tiled with
  | here _ _ reached => rw [← reached, List.append_assoc]
  | next _ _ _ _ _ ih =>
    rw [← ih]
    simp

/-- Scanning on from a place fails where no token can be read behind those that tile the text up to there. -/
theorem scanTokens_rejects {bound : Nat} {before text : List Char} {read : Array Token} {error : CompileError}
    (failed : scanTokens bound (.between before text) read = .error error) :
    ∃ tokens front rest, TiledTo front rest before text tokens ∧ Rejects (.behind front) rest error := by
  induction bound generalizing before text read with
  | zero => cases failed
  | succ bound ih =>
    obtain ⟨gap, rest, rfl, isGap, ends, place⟩ := Cursor.skipGap_between before text
    rw [scanTokens, Cursor.next, place] at failed
    cases lexed : (Cursor.between (before ++ gap) rest).lexeme with
    | error refusal =>
      rw [lexed] at failed
      cases failed
      exact ⟨[], before ++ gap, rest, .here isGap ends rfl, Cursor.rejects_of_lexeme_eq_error lexed⟩
    | ok lexeme =>
      simp only [lexed, bind, Except.bind, pure, Except.pure] at failed
      obtain ⟨_, rfl⟩ | ⟨whole, spells, longest⟩ := Cursor.lexeme_spells lexed
      · cases failed
      · obtain rfl : lexeme.text ++ lexeme.rest = rest := whole
        rw [Cursor.token, if_neg spells.ne_nil.2, Cursor.past_between] at failed
        obtain ⟨tokens, front, rest, tiled, rejects⟩ := ih failed
        have longer := TiledTo.next isGap ends spells longest tiled
        rw [List.append_assoc] at longer
        exact ⟨_, front, rest, longer, rejects⟩

/-- A source text that is not scanned is tiled by tokens up to the place where the next one cannot be read. -/
theorem scan_rejects {source : String} {error : CompileError} (failed : scan source = .error error) :
    ∃ tokens front rest, TiledTo front rest [] source.toList tokens ∧ Rejects (.behind front) rest error := by
  rw [scan, Cursor.ofString_eq] at failed
  exact scanTokens_rejects failed

end Refusals

end Dcpu.Source
