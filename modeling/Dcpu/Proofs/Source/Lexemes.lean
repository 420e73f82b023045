import Dcpu.Proofs.Text.Characters
import Dcpu.Source.Scan
import Mathlib.Data.List.TakeWhile
import Mathlib.Data.Nat.Digits.Defs
import Mathlib.Tactic.Ring

/-! # How tokens are spelled

Symbols and keywords have one spelling each. A word that is no keyword is an identifier, and a number is
spelled in decimal or hexadecimal digits. The token that is read at a place has the longest spelling
that begins there.
-/

namespace Dcpu.Source

open Text

/-- The number that digits stand for, the most significant first. -/
def numeral (base : Nat) (digits : List Char) : Nat :=
  Nat.ofDigits base (digits.map fun c => (digit? base c).getD 0).reverse

namespace TokenKind

def isKeyword : TokenKind → Bool
  | functionWord | returnWord | ifWord | elseWord | whileWord | forWord | andWord | orWord
  | notWord => true
  | _ => false

def isSymbol (kind : TokenKind) : Bool :=
  match kind with
  | number _ | identifier _ | endOfInput => false
  | _ => !kind.isKeyword

end TokenKind

/-- A text is a spelling of a token. -/
inductive Spells : List Char → TokenKind → Prop where
  | symbol {kind : TokenKind} : kind.isSymbol = true → Spells kind.spelling.toList kind
  | keyword {kind : TokenKind} : kind.isKeyword = true → Spells kind.spelling.toList kind
  | identifier {c : Char} {rest : List Char} : isNameStart c = true →
      (∀ d ∈ rest, isNamePart d = true) →
      (∀ kind : TokenKind, kind.isKeyword = true → kind.spelling.toList ≠ c :: rest) →
      Spells (c :: rest) (.identifier (String.ofList (c :: rest)))
  | decimal {digits : List Char} {value : Word} : digits ≠ [] → (∀ d ∈ digits, isDigit 10 d = true) →
      numeral 10 digits = value.toNat → Spells digits (.number value)
  | hexadecimal {mark : Char} {digits : List Char} {value : Word} : mark = 'x' ∨ mark = 'X' →
      digits ≠ [] → (∀ d ∈ digits, isDigit 16 d = true) →
      numeral 16 digits = value.toNat → Spells ('0' :: mark :: digits) (.number value)

/-- No longer beginning of a text than the given one spells a token. -/
def IsLongest (lexeme rest : List Char) : Prop :=
  ∀ more kind, more ≠ [] → more <+: rest → ¬ Spells (lexeme ++ more) kind

section Symbols

/-- The symbol at the head of a text is spelled there. -/
theorem symbol?_eq_some {text : List Char} {kind : TokenKind} (found : symbol? text = some kind) :
    kind.isSymbol = true ∧ kind.spelling.toList <+: text := by
  unfold symbol? at found
  split at found <;> cases found <;>
    exact ⟨rfl, List.prefix_append _ _⟩

/-- Symbols begin with characters that no name or number has. -/
theorem symbol_head {kind : TokenKind} (symbol : kind.isSymbol = true) : ∃ c rest,
    kind.spelling.toList = c :: rest ∧ isNamePart c = false := by
  have apart (c : Char) (member : c ∈ "{}[]();+-/%^*=!&|<>".toList) : isNamePart c = false := by
    have all : ("{}[]();+-/%^*=!&|<>".toList.all fun d => !isNamePart d) = true := by decide +kernel
    simpa using List.all_eq_true.mp all c member
  cases kind with
  | number | identifier | endOfInput | functionWord | returnWord | ifWord | elseWord | whileWord | forWord
  | andWord | orWord | notWord => cases symbol
  | _ => exact ⟨_, _, rfl, apart _ (by decide)⟩

/-- A symbol of more than one character is found wherever it is spelled. -/
theorem symbol?_spelling {kind : TokenKind} (symbol : kind.isSymbol = true)
    (long : 1 < kind.spelling.toList.length) (rest : List Char) :
    symbol? (kind.spelling.toList ++ rest) = some kind := by
  cases kind with
  | number | identifier | endOfInput | functionWord | returnWord | ifWord | elseWord | whileWord | forWord
  | andWord | orWord | notWord => cases symbol
  | equalEqual | notEqual | starStar | lessEqual | lessLess | greaterEqual | greaterGreater | doubleAmpersand
  | doublePipe => rfl
  | _ => exact absurd long (by decide)

end Symbols

section Characters

variable {c : Char} {text rest lexeme : List Char} {kind : TokenKind}

theorem isNamePart_of_isNameStart (start : isNameStart c = true) : isNamePart c = true := by
  simp only [isNameStart, Bool.or_eq_true] at start
  simp only [isNamePart, isAlphanumeric, Bool.or_eq_true]
  tauto

theorem isNamePart_of_isDigit_sixteen (digit : isDigit 16 c = true) : isNamePart c = true := by
  have codes : ∀ code < 103, isDigit 16 (Char.ofNat code) = true → isNamePart (Char.ofNat code) = true := by
    decide +kernel
  have small : c.toNat < 103 := by
    have below (d : Char) (atMost : c ≤ d) : c.toNat ≤ d.toNat := atMost
    have letters : 'a'.toNat = 97 ∧ '9'.toNat = 57 ∧ 'A'.toNat = 65 := by decide
    simp only [isDigit, digit?] at digit
    split at digit
    case isTrue range => have := below '9' range.2; omega
    case isFalse =>
      split at digit
      case isTrue range =>
        split at digit
        · omega
        · cases digit
      case isFalse =>
        split at digit
        case isTrue range =>
          split at digit
          · omega
          · cases digit
        case isFalse => cases digit
  rw [← Char.ofNat_toNat c] at digit ⊢
  exact codes c.toNat small digit

theorem keyword_parts (isKeyword : kind.isKeyword = true) :
    ∀ c ∈ kind.spelling.toList, isNamePart c = true := by
  refine List.all_eq_true.mp ?_
  cases kind with
  | functionWord | returnWord | ifWord | elseWord | whileWord | forWord | andWord | orWord | notWord =>
    decide +kernel
  | _ => cases isKeyword

/-- A token that is no symbol is made of characters of names. -/
theorem Spells.parts (spells : Spells text kind) :
    kind.isSymbol = true ∧ text = kind.spelling.toList ∨ ∀ c ∈ text, isNamePart c = true := by
  cases spells with
  | symbol isSymbol => exact .inl ⟨isSymbol, rfl⟩
  | keyword isKeyword => exact .inr (keyword_parts isKeyword)
  | identifier start parts _ =>
    exact .inr (List.forall_mem_cons.mpr ⟨isNamePart_of_isNameStart start, parts⟩)
  | decimal _ digits _ => exact .inr fun c member => isNamePart_of_isDigit (digits c member)
  | hexadecimal marked _ digits _ =>
    have marks : ∀ c ∈ ['0', 'x', 'X'], isNamePart c = true := List.all_eq_true.mp (by decide +kernel)
    refine .inr (List.forall_mem_cons.mpr ⟨marks _ (by simp), List.forall_mem_cons.mpr ⟨?_, ?_⟩⟩)
    · obtain rfl | rfl := marked <;> exact marks _ (by simp)
    · exact fun c member => isNamePart_of_isDigit_sixteen (digits c member)

/-- Every token but the end of the input is spelled by at least one character. -/
theorem Spells.ne_nil (spells : Spells text kind) : text ≠ [] ∧ kind ≠ .endOfInput := by
  cases spells with
  | symbol isSymbol =>
    obtain ⟨c, rest, head, _⟩ := symbol_head isSymbol
    exact ⟨by simp [head], by rintro rfl; cases isSymbol⟩
  | keyword isKeyword =>
    refine ⟨?_, by rintro rfl; cases isKeyword⟩
    cases kind with
    | functionWord | returnWord | ifWord | elseWord | whileWord | forWord | andWord | orWord
    | notWord => decide
    | _ => cases isKeyword
  | identifier | hexadecimal => simp
  | decimal nonempty => exact ⟨nonempty, by simp⟩

/-- The symbol that is found at the head of a text is the longest token there. -/
theorem isLongest_symbol (found : symbol? (kind.spelling.toList ++ rest) = some kind) :
    IsLongest kind.spelling.toList rest := by
  rintro more other nonempty ⟨behind, rfl⟩ spells
  obtain ⟨c, tail, head, notPart⟩ := symbol_head (symbol?_eq_some found).1
  obtain ⟨isSymbol, whole⟩ | parts := spells.parts
  · have long : 1 < other.spelling.toList.length := by
      have := List.length_pos_iff.mpr nonempty
      rw [← whole, head, List.length_append, List.length_cons]
      omega
    have foundOther := symbol?_spelling isSymbol long behind
    rw [← whole, List.append_assoc, found] at foundOther
    cases foundOther
    exact nonempty (List.append_right_eq_self.mp whole)
  · rw [parts c (by simp [head])] at notPart
    cases notPart

/-- A token that is no symbol and is not followed by a character of names is the longest token where it
begins. -/
theorem Spells.isLongest (spells : Spells lexeme kind) (plain : kind.isSymbol = false)
    (ends : ∀ c ∈ rest.head?, isNamePart c = false) : IsLongest lexeme rest := by
  have parts : ∀ c ∈ lexeme, isNamePart c = true := by
    obtain ⟨isSymbol, _⟩ | parts := spells.parts
    · rw [plain] at isSymbol
      cases isSymbol
    · exact parts
  rintro (_ | ⟨d, more⟩) other nonempty ⟨behind, rfl⟩ longer
  · exact nonempty rfl
  · obtain ⟨c, tail, rfl⟩ := List.exists_cons_of_ne_nil spells.ne_nil.1
    obtain ⟨isSymbol, whole⟩ | allParts := longer.parts
    · obtain ⟨first, others, head, notPart⟩ := symbol_head isSymbol
      rw [head] at whole
      obtain ⟨rfl, _⟩ := List.cons.inj whole
      rw [parts c (by simp)] at notPart
      cases notPart
    · have stops := ends d rfl
      rw [allParts d (by simp)] at stops
      cases stops

end Characters

section Numbers

variable {base : Nat} {text : List Char}

theorem numeral_cons (c : Char) (text : List Char) :
    numeral base (c :: text) = (digit? base c).getD 0 * base ^ text.length + numeral base text := by
  rw [numeral, List.map_cons, List.reverse_cons, Nat.ofDigits_append, Nat.ofDigits_singleton,
    List.length_reverse, List.length_map, numeral]
  ring

/-- Digits that are read have the value of their numeral behind those read before. -/
theorem foldlM_digit?_eq_some {value result : Nat}
    (read : text.foldlM (fun value c => (digit? base c).map (value * base + ·)) value = some result) :
    (∀ c ∈ text, isDigit base c = true) ∧ result = value * base ^ text.length + numeral base text := by
  induction text generalizing value with
  | nil =>
    cases read
    simp [numeral]
  | cons c text ih =>
    rw [List.foldlM_cons] at read
    cases digit : digit? base c with
    | none =>
      rw [digit] at read
      cases read
    | some first =>
      rw [digit] at read
      obtain ⟨digits, rfl⟩ := ih read
      refine ⟨List.forall_mem_cons.mpr ⟨by rw [isDigit, digit]; rfl, digits⟩, ?_⟩
      rw [numeral_cons, digit, Option.getD_some, List.length_cons, pow_succ]
      ring

/-- What is read as digits is a nonempty run of them and has their value. -/
theorem digits?_eq_some {value : Nat} (read : digits? base text = some value) :
    text ≠ [] ∧ (∀ c ∈ text, isDigit base c = true) ∧ numeral base text = value := by
  rw [digits?] at read
  split at read
  case isTrue => cases read
  case isFalse nonempty =>
    obtain ⟨digits, rfl⟩ := foldlM_digit?_eq_some read
    exact ⟨by simpa using nonempty, digits, by simp⟩

theorem foldlM_digit?_of_isDigit (digits : ∀ d ∈ text, isDigit base d = true) (value : Nat) :
    (text.foldlM (fun value d => (digit? base d).map (value * base + ·)) value).isSome = true := by
  induction text generalizing value with
  | nil => rfl
  | cons d text ih =>
    obtain ⟨first, others⟩ := List.forall_mem_cons.mp digits
    obtain ⟨digit, found⟩ := Option.isSome_iff_exists.mp first
    rw [List.foldlM_cons, found]
    exact ih others _

/-- Digits are read as the number that they stand for. -/
theorem digits?_eq_numeral (nonempty : text ≠ []) (digits : ∀ d ∈ text, isDigit base d = true) :
    digits? base text = some (numeral base text) := by
  obtain ⟨value, read⟩ := Option.isSome_iff_exists.mp (foldlM_digit?_of_isDigit digits 0)
  have found : digits? base text = some value := by rw [digits?, if_neg (by simpa using nonempty), read]
  rw [found, (digits?_eq_some found).2.2]

/-- A number that is read has digits, a value that fits in a word, and no character of names behind. -/
theorem numberValue_eq_ok {digits rest : List Char} {value : Word}
    (read : numberValue base digits rest = .ok value) :
    (digits ≠ [] ∧ (∀ c ∈ digits, isDigit base c = true) ∧ numeral base digits = value.toNat) ∧
      ∀ c ∈ rest.head?, isNamePart c = false := by
  unfold numberValue at read
  split at read
  case h_1 => cases read
  case h_2 ends =>
    split at read
    case h_1 => cases read
    case h_2 number found =>
      obtain ⟨nonempty, isDigits, rfl⟩ := digits?_eq_some found
      refine ⟨⟨nonempty, isDigits, ?_⟩, fun c head => ?_⟩
      · unfold Word.ofNat? at read
        split at read
        case isTrue small =>
          cases read
          exact (UInt16.toNat_ofNat_of_lt small).symm
        case isFalse => cases read
      · simpa using Option.filter_eq_none_iff.mp ends c head

/-- The mark of a number is that of hexadecimal digits, or there is none. -/
theorem numberBase_cases (text : List Char) :
    (∃ mark rest, (mark = 'x' ∨ mark = 'X') ∧ text = '0' :: mark :: rest ∧
      numberBase text = (16, ['0', mark], rest)) ∨ numberBase text = (10, [], text) := by
  unfold numberBase
  split
  · exact .inl ⟨_, _, .inl rfl, rfl, rfl⟩
  · exact .inl ⟨_, _, .inr rfl, rfl, rfl⟩
  · exact .inr rfl

/-- A number that is read is spelled by what is read, and no more of the text spells a token. -/
theorem Lexeme.number_spells {lexeme : Lexeme} (read : Lexeme.number text = .ok lexeme) :
    lexeme.text ++ lexeme.rest = text ∧ Spells lexeme.text lexeme.kind ∧
      IsLongest lexeme.text lexeme.rest := by
  simp only [Lexeme.number, bind, Except.bind] at read
  obtain ⟨mark, rest, marked, rfl, base⟩ | base := numberBase_cases text
  · rw [base] at read
    split at read
    case h_1 => cases read
    case h_2 valued =>
      obtain ⟨⟨nonempty, digits, value⟩, ends⟩ := numberValue_eq_ok valued
      have spells := Spells.hexadecimal marked nonempty digits value
      cases read
      exact ⟨by simp, spells, spells.isLongest rfl ends⟩
  · rw [base] at read
    split at read
    case h_1 => cases read
    case h_2 valued =>
      obtain ⟨⟨nonempty, digits, value⟩, ends⟩ := numberValue_eq_ok valued
      have spells := Spells.decimal nonempty digits value
      cases read
      exact ⟨by simp, spells, spells.isLongest rfl ends⟩

end Numbers

section Words

/-- A word that begins like a name spells its kind. -/
theorem spells_ofWord {c : Char} {rest : List Char} (start : isNameStart c = true)
    (parts : ∀ d ∈ rest, isNamePart d = true) :
    Spells (c :: rest) (.ofWord (String.ofList (c :: rest))) ∧
      (TokenKind.ofWord (String.ofList (c :: rest))).isSymbol = false := by
  rw [TokenKind.ofWord]
  cases found : TokenKind.keywords.lookup (String.ofList (c :: rest)) with
  | none =>
    refine ⟨.identifier start parts fun kind isKeyword same => ?_, rfl⟩
    have absent := List.lookup_eq_none_iff.mp found
    have member : (kind.spelling, kind) ∈ TokenKind.keywords := by
      cases kind with
      | functionWord | returnWord | ifWord | elseWord | whileWord | forWord | andWord | orWord
      | notWord => decide
      | _ => cases isKeyword
    simpa [← same] using absent _ member
  | some kind =>
    obtain ⟨before, behind, split, _⟩ := List.lookup_eq_some_iff.mp found
    have keyword : ∀ entry ∈ TokenKind.keywords, entry.2.isKeyword = true ∧
        entry.2.isSymbol = false ∧ entry.1 = entry.2.spelling := by decide
    obtain ⟨isKeyword, notSymbol, spelling⟩ := keyword (String.ofList (c :: rest), kind) (by simp [split])
    refine ⟨?_, notSymbol⟩
    have text : kind.spelling.toList = c :: rest := by simp [← spelling]
    rw [← text]
    exact .keyword isKeyword

/-- A word that is read is spelled by what is read, and no more of the text spells a token. -/
theorem Lexeme.word_spells {c : Char} {rest : List Char} (start : isNameStart c = true) :
    (Lexeme.word (c :: rest)).text ++ (Lexeme.word (c :: rest)).rest = c :: rest ∧
      Spells (Lexeme.word (c :: rest)).text (Lexeme.word (c :: rest)).kind ∧
      IsLongest (Lexeme.word (c :: rest)).text (Lexeme.word (c :: rest)).rest := by
  have word : (c :: rest).takeWhile isNamePart = c :: rest.takeWhile isNamePart :=
    List.takeWhile_cons_of_pos (isNamePart_of_isNameStart start)
  obtain ⟨spells, plain⟩ :=
    spells_ofWord start fun d (member : d ∈ rest.takeWhile isNamePart) => List.mem_takeWhile_imp member
  rw [← word] at spells plain
  refine ⟨List.takeWhile_append_dropWhile, spells, spells.isLongest plain fun d head => ?_⟩
  have stops := List.head?_dropWhile_not isNamePart (c :: rest)
  rw [Lexeme.word, Option.mem_def] at head
  rw [head] at stops
  simpa using stops

end Words

/-- What is read at a place that is no gap: the end of the input, or the longest token there. -/
theorem Cursor.lexeme_spells {cursor : Cursor} {lexeme : Lexeme} (read : cursor.lexeme = .ok lexeme) :
    cursor.rest = [] ∧ lexeme = ⟨.endOfInput, [], []⟩ ∨
      lexeme.text ++ lexeme.rest = cursor.rest ∧ Spells lexeme.text lexeme.kind ∧
        IsLongest lexeme.text lexeme.rest := by
  rw [Cursor.lexeme] at read
  cases text : cursor.rest with
  | nil =>
    rw [text] at read
    cases read
    exact .inl ⟨rfl, rfl⟩
  | cons c rest =>
    right
    simp only [text] at read
    cases symbol : symbol? (c :: rest) with
    | some kind =>
      simp only [symbol] at read
      cases read
      obtain ⟨isSymbol, behind, whole⟩ := symbol?_eq_some symbol
      rw [← whole] at symbol ⊢
      rw [← String.length_toList, List.take_left, List.drop_left]
      exact ⟨rfl, .symbol isSymbol, isLongest_symbol symbol⟩
    | none =>
      simp only [symbol] at read
      split at read
      · cases number : Lexeme.number (c :: rest) with
        | error fault =>
          rw [number] at read
          cases read
        | ok numeral =>
          rw [number] at read
          cases read
          exact Lexeme.number_spells number
      · split at read
        case isTrue start =>
          cases read
          exact Lexeme.word_spells start
        case isFalse => cases read

end Dcpu.Source
