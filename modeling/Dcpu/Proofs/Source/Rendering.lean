import Dcpu.Proofs.Source.Tiling

/-! # Scanning undoes rendering

Tokens are rendered by writing a spelling of each and separators between them. A separator is made of
blanks and of comments that are ended by line feeds, and it begins with a blank, so that it neither
prolongs the token before it nor turns a slash into a comment. Scanning such a text gives the tokens
back.
-/

namespace Dcpu.Source

open Text

/-- The kinds of tokens that can be written: all but the end of the input. An identifier begins with an
alphabetic character or an underscore, goes on with alphanumeric characters or underscores, and is no
keyword. -/
def TokenKind.IsRenderable : TokenKind → Prop
  | endOfInput => False
  | identifier name => ∃ c rest, name.toList = c :: rest ∧ (isAlphabetic c = true ∨ c = '_') ∧
      (∀ d ∈ rest, isAlphanumeric d = true ∨ d = '_') ∧
      ∀ kind : TokenKind, kind.isKeyword = true → kind.spelling ≠ name
  | _ => True

/-- Blanks, and comments that are ended by line feeds. -/
inductive Filling : List Char → Prop where
  | nil : Filling []
  | blank {c : Char} {text : List Char} : isBlank c = true → Filling text → Filling (c :: text)
  | comment {mark body text : List Char} : mark = ['#'] ∨ mark = ['/', '/'] → '\n' ∉ body →
      Filling text → Filling (mark ++ body ++ '\n' :: text)

/-- What can stand between two tokens: blanks and comments, a blank first. -/
structure IsSeparator (text : List Char) : Prop where
  filling : Filling text
  begins : ∃ c ∈ text.head?, isBlank c = true

/-- What can stand before the first token and behind the last one. -/
def IsMargin (text : List Char) : Prop :=
  text = [] ∨ IsSeparator text

/-- Tokens written one after another, with separators between them. -/
inductive Rendered : List TokenKind → List Char → Prop where
  | nil : Rendered [] []
  | single {kind : TokenKind} {lexeme : List Char} : Spells lexeme kind → Rendered [kind] lexeme
  | cons {kind next : TokenKind} {kinds : List TokenKind} {lexeme gap rest : List Char} :
      Spells lexeme kind → IsSeparator gap → Rendered (next :: kinds) rest →
      Rendered (kind :: next :: kinds) (lexeme ++ gap ++ rest)

section Kinds

theorem isNameStart_iff {c : Char} : isNameStart c = true ↔ isAlphabetic c = true ∨ c = '_' := by
  rw [isNameStart, Bool.or_eq_true, beq_iff_eq]

theorem isNamePart_iff {c : Char} : isNamePart c = true ↔ isAlphanumeric c = true ∨ c = '_' := by
  rw [isNamePart, Bool.or_eq_true, beq_iff_eq]

/-- The digits of a number spell it. -/
theorem spells_toDigits (word : Word) : Spells (Nat.toDigits 10 word.toNat) (.number word) := by
  obtain ⟨nonempty, digits, value⟩ := digits?_eq_some (digits?_toDigits word.toNat)
  exact .decimal nonempty digits value

/-- The kinds that can be written are those with a spelling. -/
theorem isRenderable_iff {kind : TokenKind} : kind.IsRenderable ↔ ∃ text, Spells text kind := by
  constructor
  · intro renderable
    cases kind with
    | endOfInput => exact absurd renderable id
    | number word => exact ⟨_, spells_toDigits word⟩
    | identifier name =>
      obtain ⟨c, rest, text, start, parts, notKeyword⟩ := renderable
      have spells := Spells.identifier (isNameStart_iff.mpr start) (fun d member => isNamePart_iff.mpr (parts d member))
        fun kind isKeyword same => notKeyword kind isKeyword (String.toList_inj.mp (same.trans text.symm))
      rw [← text, String.ofList_toList] at spells
      exact ⟨_, spells⟩
    | functionWord | returnWord | ifWord | elseWord | whileWord | forWord | andWord | orWord | notWord =>
      exact ⟨_, .keyword rfl⟩
    | _ => exact ⟨_, .symbol rfl⟩
  · rintro ⟨text, spells⟩
    cases spells with
    | symbol isSymbol => cases kind <;> trivial
    | keyword isKeyword => cases kind <;> trivial
    | identifier start parts notKeyword =>
      refine ⟨_, _, String.toList_ofList, isNameStart_iff.mp start, fun d member => isNamePart_iff.mp (parts d member),
        fun kind isKeyword same => notKeyword kind isKeyword ?_⟩
      rw [same, String.toList_ofList]
    | decimal | hexadecimal => trivial

end Kinds

section Lexemes

variable {kind : TokenKind} {lexeme rest : List Char} {c : Char} {base : Nat}

/-- A blank is no character of a name. -/
theorem isNamePart_of_isBlank (blank : isBlank c = true) : isNamePart c = false := by
  by_contra part
  rw [isBlank_of_isNamePart (Bool.not_eq_false _ ▸ part)] at blank
  cases blank

/-- A symbol is found where none of the characters is behind it with which longer symbols go on. -/
theorem symbol?_of_apart (isSymbol : kind.isSymbol = true)
    (apart : ∀ c ∈ ['*', '=', '&', '|', '<', '>'], ∀ tail, rest ≠ c :: tail) :
    symbol? (kind.spelling.toList ++ rest) = some kind := by
  simp only [List.forall_mem_cons] at apart
  cases kind with
  | number | identifier | endOfInput | functionWord | returnWord | ifWord | elseWord | whileWord | forWord
  | andWord | orWord | notWord => cases isSymbol
  | star | equal | bang | ampersand | pipe | less | greater =>
    simp [TokenKind.spelling, symbol?, apart]
  | _ => rfl

/-- A symbol is found where a blank or the end of the text is behind it. -/
theorem symbol?_of_ends (isSymbol : kind.isSymbol = true) (ends : ∀ d ∈ rest.head?, isBlank d = true) :
    symbol? (kind.spelling.toList ++ rest) = some kind := by
  apply symbol?_of_apart isSymbol
  have solid : (['*', '=', '&', '|', '<', '>'].any isBlank) = false := by decide
  rintro c member tail rfl
  exact List.any_eq_false.mp solid c member (ends c rfl)

theorem symbol?_of_isNamePart (part : isNamePart c = true) (rest : List Char) : symbol? (c :: rest) = none := by
  cases found : symbol? (c :: rest) with
  | none => rfl
  | some kind =>
    obtain ⟨isSymbol, spelled⟩ := symbol?_eq_some found
    obtain ⟨d, tail, head, notPart⟩ := symbol_head isSymbol
    rw [head, List.cons_prefix_cons] at spelled
    rw [spelled.1, part] at notPart
    cases notPart

/-- A character that may begin a name is no digit. -/
theorem isDigit_of_isNameStart (start : isNameStart c = true) : isDigit 10 c = false := by
  rw [isDigit_ten, Bool.eq_false_iff]
  intro digit
  obtain ⟨atLeast, atMost⟩ := (isDigit_iff c).mp digit
  obtain alphabetic | rfl := isNameStart_iff.mp start
  · have apart : Ranges.covers [(0x30, 0x39)] c = false :=
      Ranges.not_covers_of_areApart (by decide +kernel) alphabetic
    have low : 0x30 ≤ c.toNat := atLeast
    have high : c.toNat ≤ 0x39 := atMost
    simp [Ranges.covers, Ranges.has, low, high] at apart
  · cases digit

/-- Characters are taken as far as a class goes. -/
theorem takeWhile_of_ends {p : Char → Bool} (all : ∀ d ∈ lexeme, p d = true) (ends : ∀ d ∈ rest.head?, p d = false) :
    (lexeme ++ rest).takeWhile p = lexeme ∧ (lexeme ++ rest).dropWhile p = rest := by
  rw [List.takeWhile_append_of_pos all, List.dropWhile_append_of_pos all]
  cases rest with
  | nil => simp
  | cons d tail => simp [ends d rfl]

/-- A word is read up to a blank. -/
theorem Cursor.lexeme_word {cursor : Cursor} (text : cursor.rest = c :: lexeme ++ rest) (start : isNameStart c = true)
    (parts : ∀ d ∈ lexeme, isNamePart d = true) (ends : ∀ d ∈ rest.head?, isNamePart d = false) :
    cursor.lexeme = .ok ⟨.ofWord (String.ofList (c :: lexeme)), c :: lexeme, rest⟩ := by
  have allParts : ∀ d ∈ c :: lexeme, isNamePart d = true :=
    List.forall_mem_cons.mpr ⟨isNamePart_of_isNameStart start, parts⟩
  obtain ⟨taken, dropped⟩ := takeWhile_of_ends allParts ends
  rw [List.cons_append] at text taken dropped
  simp [Cursor.lexeme, text, symbol?_of_isNamePart (isNamePart_of_isNameStart start), isDigit_of_isNameStart start,
    start, Lexeme.word, taken, dropped]

theorem ofWord_spelling (isKeyword : kind.isKeyword = true) : TokenKind.ofWord kind.spelling = kind := by
  cases kind with
  | functionWord | returnWord | ifWord | elseWord | whileWord | forWord | andWord | orWord | notWord => rfl
  | _ => cases isKeyword

/-- A word that no keyword is spelled with is read as a name. -/
theorem ofWord_of_notKeyword {name : String}
    (notKeyword : ∀ kind : TokenKind, kind.isKeyword = true → kind.spelling ≠ name) :
    TokenKind.ofWord name = .identifier name := by
  have keyword : ∀ entry ∈ TokenKind.keywords, entry.2.isKeyword = true ∧ entry.1 = entry.2.spelling := by decide
  have absent : TokenKind.keywords.lookup name = none := by
    rw [List.lookup_eq_none_iff]
    intro entry member
    obtain ⟨isKeyword, spelling⟩ := keyword entry member
    simpa [spelling] using (notKeyword entry.2 isKeyword).symm
  rw [TokenKind.ofWord, absent, Option.getD_none]

/-- A number is read from its digits up to a blank. -/
theorem numberValue_of_ends {digits : List Char} {value : Word} (nonempty : digits ≠ [])
    (all : ∀ d ∈ digits, isDigit base d = true) (valued : numeral base digits = value.toNat)
    (ends : ∀ d ∈ rest.head?, isNamePart d = false) : numberValue base digits rest = .ok value := by
  have stops : rest.head?.filter isNamePart = none :=
    Option.filter_eq_none_iff.mpr fun d head => by simp [ends d head]
  simp [numberValue, stops, digits?_eq_numeral nonempty all, valued, Word.ofNat?_toNat]

/-- Digits up to a character that cannot follow them are read as their number. -/
theorem Lexeme.number_of_ends {text mark digits : List Char} {value : Word}
    (based : numberBase text = (base, mark, digits ++ rest)) (nonempty : digits ≠ [])
    (all : ∀ d ∈ digits, isDigit base d = true) (valued : numeral base digits = value.toNat)
    (parts : ∀ d, isDigit base d = true → isNamePart d = true) (ends : ∀ d ∈ rest.head?, isNamePart d = false) :
    Lexeme.number text = .ok ⟨.number value, mark ++ digits, rest⟩ := by
  have noDigit (d : Char) (head : d ∈ rest.head?) : isDigit base d = false := by
    rw [Bool.eq_false_iff]
    intro digit
    exact absurd (parts d digit) (by simp [ends d head])
  obtain ⟨taken, dropped⟩ := takeWhile_of_ends all noDigit
  simp [Lexeme.number, based, taken, dropped, numberValue_of_ends nonempty all valued ends, bind, Except.bind, pure,
    Except.pure]

/-- Decimal digits do not begin like a hexadecimal number. -/
theorem numberBase_of_digits {digits : List Char} (nonempty : digits ≠ []) (all : ∀ d ∈ digits, isDigit 10 d = true)
    (ends : ∀ d ∈ rest.head?, isNamePart d = false) : numberBase (digits ++ rest) = (10, [], digits ++ rest) := by
  obtain ⟨mark, tail, marked, text, _⟩ | based := numberBase_cases (digits ++ rest)
  · have isMark : isNamePart mark = true ∧ isDigit 10 mark = false := by
      obtain rfl | rfl := marked <;> decide +kernel
    exfalso
    obtain ⟨first, others, rfl⟩ := List.exists_cons_of_ne_nil nonempty
    rw [List.cons_append, List.cons.injEq] at text
    cases others with
    | nil =>
      have behind : rest = mark :: tail := text.2
      simpa [isMark.1] using ends mark (by simp [behind])
    | cons second others =>
      rw [List.cons_append, List.cons.injEq] at text
      simpa [text.2.1, isMark.2] using all second (by simp)
  · exact based

/-- A number is read from a text that begins with a digit. -/
theorem Cursor.lexeme_number {cursor : Cursor} {lexeme : Lexeme} {tail : List Char} (text : cursor.rest = c :: tail)
    (digit : isDigit 10 c = true) (read : Lexeme.number (c :: tail) = .ok lexeme) : cursor.lexeme = .ok lexeme := by
  simp [Cursor.lexeme, text, symbol?_of_isNamePart (isNamePart_of_isDigit digit), digit, read, Except.mapError]

/-- A symbol has one spelling. -/
theorem Spells.eq_spelling (spells : Spells lexeme kind) (isSymbol : kind.isSymbol = true) :
    lexeme = kind.spelling.toList := by
  cases spells with
  | symbol | keyword => rfl
  | identifier | decimal | hexadecimal => cases isSymbol

theorem keyword_head (isKeyword : kind.isKeyword = true) :
    ∃ c tail, kind.spelling.toList = c :: tail ∧ isNameStart c = true := by
  cases kind with
  | functionWord | returnWord | ifWord | elseWord | whileWord | forWord | andWord | orWord | notWord =>
    exact ⟨_, _, rfl, by decide +kernel⟩
  | _ => cases isKeyword

/-- A word or a number is read as the token that it spells where no character of names is behind it. -/
theorem Cursor.lexeme_of_spells_plain {cursor : Cursor} (spells : Spells lexeme kind) (plain : kind.isSymbol = false)
    (text : cursor.rest = lexeme ++ rest) (ends : ∀ d ∈ rest.head?, isNamePart d = false) :
    cursor.lexeme = .ok ⟨kind, lexeme, rest⟩ := by
  cases spells with
  | symbol isSymbol =>
    rw [isSymbol] at plain
    cases plain
  | keyword isKeyword =>
    obtain ⟨c, tail, head, start⟩ := keyword_head isKeyword
    have parts := keyword_parts isKeyword
    rw [head] at text parts
    rw [lexeme_word text start (List.forall_mem_cons.mp parts).2 ends, ← head, String.ofList_toList,
      ofWord_spelling isKeyword]
  | identifier start parts notKeyword =>
    rw [lexeme_word text start parts ends, ofWord_of_notKeyword]
    intro kind isKeyword same
    exact notKeyword kind isKeyword (by rw [same, String.toList_ofList])
  | decimal nonempty all valued =>
    obtain ⟨c, tail, rfl⟩ := List.exists_cons_of_ne_nil nonempty
    exact lexeme_number text (all c (by simp)) (Lexeme.number_of_ends (numberBase_of_digits nonempty all ends) nonempty
      all valued (fun _ => isNamePart_of_isDigit) ends)
  | @hexadecimal mark digits _ marked nonempty all valued =>
    have based : numberBase ('0' :: mark :: digits ++ rest) = (16, ['0', mark], digits ++ rest) := by
      obtain rfl | rfl := marked <;> rfl
    exact lexeme_number text (by decide) (Lexeme.number_of_ends based nonempty all valued
      (fun _ => isNamePart_of_isDigit_sixteen) ends)

/-- A spelling of a token is read as the token where a blank or the end of the text is behind it. -/
theorem Cursor.lexeme_of_spells {cursor : Cursor} (spells : Spells lexeme kind) (text : cursor.rest = lexeme ++ rest)
    (ends : ∀ d ∈ rest.head?, isBlank d = true) : cursor.lexeme = .ok ⟨kind, lexeme, rest⟩ := by
  cases symbolic : kind.isSymbol with
  | false =>
    exact lexeme_of_spells_plain spells symbolic text fun d head => isNamePart_of_isBlank (ends d head)
  | true =>
    obtain rfl : lexeme = kind.spelling.toList := spells.eq_spelling symbolic
    have found := symbol?_of_ends symbolic ends
    obtain ⟨c, tail, head, _⟩ := symbol_head symbolic
    rw [head, List.cons_append] at text found
    simp only [Cursor.lexeme, text, found, ← String.length_toList, head]
    simp

end Lexemes

section Fillings

variable {gap more rest : List Char}

theorem Filling.append (first : Filling gap) (second : Filling more) : Filling (gap ++ more) := by
  induction first with
  | nil => exact second
  | blank isBlank _ ih => exact .blank isBlank ih
  | comment marked unbroken _ ih =>
    rw [List.append_assoc, List.cons_append]
    exact .comment marked unbroken ih

theorem IsMargin.filling (margin : IsMargin gap) : Filling gap := by
  obtain rfl | separator := margin
  · exact .nil
  · exact separator.filling

/-- A blank is the first character of a separator, whatever follows. -/
theorem IsSeparator.isBlank_head (separator : IsSeparator gap) (rest : List Char) :
    ∀ c ∈ (gap ++ rest).head?, isBlank c = true := by
  obtain ⟨first, begins, blank⟩ := separator.begins
  have same : (gap ++ rest).head? = some first := by simp [Option.mem_def.mp begins]
  intro c head
  rw [Option.mem_unique head same]
  exact blank

theorem IsMargin.isBlank_head (margin : IsMargin gap) : ∀ c ∈ gap.head?, isBlank c = true := by
  obtain rfl | separator := margin
  · simp
  · simpa using separator.isBlank_head []

/-- A comment is skipped up to and with its line feed. -/
theorem gapEnd_comment {body : List Char} (unbroken : '\n' ∉ body) (rest : List Char) (offset : Nat)
    (position : Position) :
    ∃ offset' position', gapEnd true offset position (body ++ '\n' :: rest) = gapEnd false offset' position' rest := by
  induction body generalizing offset position with
  | nil => exact ⟨_, _, by rw [List.nil_append, gapEnd, if_pos rfl]⟩
  | cons c body ih =>
    obtain ⟨noFeed, others⟩ := not_or.mp (mt List.mem_cons.mpr unbroken)
    obtain ⟨offset', position', skipped⟩ := ih others (offset + 1) (position.after c)
    exact ⟨offset', position', by simp [gapEnd, Ne.symm noFeed, skipped]⟩

/-- Blanks and comments are skipped. -/
theorem gapEnd_filling (filling : Filling gap) (rest : List Char) (offset : Nat) (position : Position) :
    ∃ offset' position', gapEnd false offset position (gap ++ rest) = gapEnd false offset' position' rest := by
  induction filling generalizing offset position with
  | nil => exact ⟨_, _, rfl⟩
  | @blank c text blank _ ih =>
    obtain ⟨offset', position', skipped⟩ := ih (offset + 1) (position.after c)
    refine ⟨offset', position', ?_⟩
    rw [← skipped, List.cons_append, gapEnd]
    simp [blank]
  | @comment mark body text marked unbroken _ ih =>
    -- the second slash of a mark counts as part of the comment
    have skips (inside : List Char) (unbroken : '\n' ∉ inside) (offset : Nat) (position : Position) :
        ∃ offset' position', gapEnd true offset position (inside ++ '\n' :: (text ++ rest)) =
          gapEnd false offset' position' rest := by
      obtain ⟨_, _, behind⟩ := gapEnd_comment unbroken (text ++ rest) offset position
      rw [behind]
      exact ih _ _
    have solid : isBlank '#' = false ∧ isBlank '/' = false := by decide
    obtain rfl | rfl := marked
    · obtain ⟨offset', position', skipped⟩ := skips body unbroken (offset + 1) (position.after '#')
      refine ⟨offset', position', ?_⟩
      simp [gapEnd, beginsComment, solid, skipped]
    · obtain ⟨offset', position', skipped⟩ := skips ('/' :: body) (by simp [unbroken]) (offset + 1)
        (position.after '/')
      refine ⟨offset', position', ?_⟩
      rw [List.cons_append] at skipped
      rw [← skipped]
      simp only [List.cons_append, List.nil_append, List.append_assoc]
      rw [gapEnd]
      simp [beginsComment, solid]

end Fillings

section Scanning

variable {kind : TokenKind} {kinds : List TokenKind} {gap lexeme body rest after : List Char} {cursor : Cursor}
  {bound : Nat}

/-- A token begins neither with a blank nor like a comment. -/
theorem Spells.beginsGap_eq_false (spells : Spells lexeme kind) (ends : ∀ c ∈ rest.head?, isBlank c = true) :
    beginsGap (lexeme ++ rest) = false := by
  obtain ⟨isSymbol, rfl⟩ | parts := spells.parts
  · have noSlash (tail : List Char) : rest ≠ '/' :: tail := by
      rintro rfl
      exact absurd (ends '/' rfl) (by decide)
    cases kind with
    | number | identifier | endOfInput | functionWord | returnWord | ifWord | elseWord | whileWord | forWord
    | andWord | orWord | notWord => cases isSymbol
    | slash => simp [beginsGap, TokenKind.spelling, beginsComment, noSlash, show isBlank '/' = false by decide]
    | _ => rfl
  · obtain ⟨c, tail, rfl⟩ := List.exists_cons_of_ne_nil spells.ne_nil.1
    have part := parts c (by simp)
    have solid := isBlank_of_isNamePart part
    have noMark : c ≠ '#' ∧ c ≠ '/' := by
      constructor <;>
      · rintro rfl
        exact absurd part (by decide +kernel)
    simp [beginsGap, beginsComment, solid, noMark]

theorem gapEnd_of_beginsGap (solid : beginsGap rest = false) (offset : Nat) (position : Position) :
    gapEnd false offset position rest = ⟨offset, position, rest⟩ := by
  cases rest with
  | nil => rfl
  | cons c tail =>
    obtain ⟨unblank, uncommented⟩ : isBlank c = false ∧ beginsComment (c :: tail) = false := by
      simpa [beginsGap] using solid
    have noFeed : c ≠ '\n' := by
      rintro rfl
      exact absurd unblank (by decide)
    simp [gapEnd, noFeed, unblank, uncommented]

/-- The next token is looked for behind a filling. -/
theorem Cursor.skipGap_filling (filling : Filling gap) (solid : beginsGap rest = false)
    (text : cursor.rest = gap ++ rest) : cursor.skipGap.rest = rest := by
  obtain ⟨offset, position, skipped⟩ := gapEnd_filling filling rest cursor.offset cursor.position
  rw [skipGap, text, skipped, gapEnd_of_beginsGap solid]

/-- One token is scanned behind a filling, and the others are behind it. -/
theorem scanTokens_token (filling : Filling gap) (spells : Spells lexeme kind)
    (ends : ∀ c ∈ rest.head?, isBlank c = true) (text : cursor.rest = gap ++ (lexeme ++ rest))
    (enough : cursor.rest.length ≤ bound) (read : Array Token) : ∃ left behind token,
      scanTokens bound cursor read = scanTokens left behind (read.push token) ∧ token.kind = kind ∧
        behind.rest = rest ∧ rest.length ≤ left := by
  have place := Cursor.skipGap_filling filling (spells.beginsGap_eq_false ends) text
  have lexed := Cursor.lexeme_of_spells spells place ends
  obtain ⟨nonempty, notEnd⟩ := spells.ne_nil
  have long := List.length_pos_iff.mpr nonempty
  rw [text, List.length_append, List.length_append] at enough
  obtain ⟨left, rfl⟩ := Nat.exists_eq_add_of_lt (Nat.lt_of_lt_of_le long (by omega) : 0 < bound)
  refine ⟨left, cursor.skipGap.past lexeme rest, cursor.skipGap.token kind, ?_, rfl, rfl, by omega⟩
  rw [Nat.zero_add, scanTokens, Cursor.next, lexed]
  simp [bind, Except.bind, pure, Except.pure, Cursor.token, notEnd]

/-- Behind the last token there is the end of the input. -/
theorem scanTokens_end (filling : Filling gap) (text : cursor.rest = gap) (enough : cursor.rest.length ≤ bound)
    (read : Array Token) : ∃ token : Token,
      scanTokens bound cursor read = .ok (read.push token).toList ∧ token.kind = .endOfInput := by
  cases bound with
  | zero => exact ⟨_, rfl, rfl⟩
  | succ bound =>
    have place : cursor.skipGap.rest = [] := Cursor.skipGap_filling filling rfl (by rw [text, List.append_nil])
    refine ⟨cursor.skipGap.token .endOfInput, ?_, rfl⟩
    simp [scanTokens, Cursor.next, Cursor.lexeme, place, bind, Except.bind, pure, Except.pure, Cursor.token]

/-- Tokens that were rendered are scanned behind a filling. -/
theorem scanTokens_rendered (rendered : Rendered kinds body) (closes : IsMargin after) (filling : Filling gap)
    (text : cursor.rest = gap ++ (body ++ after)) (enough : cursor.rest.length ≤ bound) (read : Array Token) :
    ∃ tokens, scanTokens bound cursor read = .ok tokens ∧
      tokens.map Token.kind = read.toList.map Token.kind ++ kinds ++ [.endOfInput] := by
  induction rendered generalizing gap cursor bound read with
  | nil =>
    obtain ⟨token, scanned, isEnd⟩ := scanTokens_end (filling.append closes.filling) text enough read
    exact ⟨_, scanned, by simp [isEnd]⟩
  | single spells =>
    obtain ⟨left, behind, token, scanned, rfl, place, within⟩ :=
      scanTokens_token filling spells closes.isBlank_head text enough read
    obtain ⟨last, ended, isEnd⟩ := scanTokens_end closes.filling place (place ▸ within) (read.push token)
    exact ⟨_, scanned.trans ended, by simp [isEnd]⟩
  | @cons kind next kinds lexeme separator rest spells separates _ ih =>
    rw [List.append_assoc, List.append_assoc] at text
    obtain ⟨left, behind, token, scanned, rfl, place, within⟩ :=
      scanTokens_token filling spells (separates.isBlank_head _) text enough read
    obtain ⟨tokens, scannedOn, same⟩ := ih separates.filling place (place ▸ within) (read.push token)
    exact ⟨tokens, scanned.trans scannedOn, by simp [same]⟩

end Scanning

/-- Scanning undoes rendering. Exactly the kinds of tokens that can be written have spellings, and a text
that consists of spellings with separators between them, and nothing or separators at its two ends, is
scanned as the tokens that were spelled and the end of the input. -/
theorem scan_undoes_rendering :
    (∀ kind : TokenKind, kind.IsRenderable ↔ ∃ lexeme, Spells lexeme kind) ∧
    ∀ (kinds : List TokenKind) (before body after : List Char), Rendered kinds body → IsMargin before →
      IsMargin after → ∃ tokens, scan (String.ofList (before ++ body ++ after)) = .ok tokens ∧
        tokens.map Token.kind = kinds ++ [.endOfInput] := by
  refine ⟨fun kind => isRenderable_iff, fun kinds before body after rendered opens closes => ?_⟩
  have text : (Cursor.ofString (String.ofList (before ++ body ++ after))).rest = before ++ (body ++ after) := by
    rw [Cursor.ofString, String.toList_ofList, List.append_assoc]
  have enough : (Cursor.ofString (String.ofList (before ++ body ++ after))).rest.length ≤
      (String.ofList (before ++ body ++ after)).length := String.length_toList.le
  obtain ⟨tokens, scanned, same⟩ := scanTokens_rendered rendered closes opens.filling text enough #[]
  exact ⟨tokens, scanned, by simpa using same⟩

theorem scan_undoes_rendering_commented : ∃ tokens,
    scan "\u2003# one\ngröße // if\n / 0X001f\t<\u00a0<< #\n" = .ok tokens ∧
      tokens.map Token.kind = [.identifier "größe", .slash, .number 31, .less, .lessLess] ++ [.endOfInput] := by
  have name : Spells "größe".toList (.identifier "größe") := by
    refine @Spells.identifier 'g' ['r', 'ö', 'ß', 'e'] (by decide +kernel) (List.all_eq_true.mp (by decide +kernel)) ?_
    intro kind isKeyword
    cases kind with
    | functionWord | returnWord | ifWord | elseWord | whileWord | forWord | andWord | orWord | notWord => decide
    | _ => cases isKeyword
  have number : Spells "0X001f".toList (.number 31) :=
    .hexadecimal (.inr rfl) (by decide) (List.all_eq_true.mp (by decide)) (by decide)
  have blank (c : Char) (isBlank : isBlank c = true) : IsSeparator [c] := ⟨.blank isBlank .nil, c, rfl, isBlank⟩
  have comment (c : Char) (isBlank : isBlank c = true) {mark body text : List Char}
      (marked : mark = ['#'] ∨ mark = ['/', '/']) (unbroken : '\n' ∉ body) (filling : Filling text) :
      IsSeparator (c :: (mark ++ body ++ '\n' :: text)) :=
    ⟨.blank isBlank (.comment marked unbroken filling), c, rfl, isBlank⟩
  have commented := comment ' ' (by decide) (.inr rfl) (by decide : '\n' ∉ " if".toList) (blank ' ' (by decide)).filling
  have rendered :=
    Rendered.cons name commented
      (.cons (@Spells.symbol .slash rfl) (blank ' ' (by decide)) (.cons number (blank '\t' (by decide))
        (.cons (@Spells.symbol .less rfl) (blank '\u00a0' (by decide)) (.single (@Spells.symbol .lessLess rfl)))))
  have opens := comment '\u2003' (by decide) (.inl rfl) (by decide : '\n' ∉ " one".toList) .nil
  have closes := comment ' ' (by decide) (.inl rfl) (List.not_mem_nil (a := '\n')) .nil
  obtain ⟨tokens, scanned, kinds⟩ := scan_undoes_rendering.2 _ _ _ _ rendered (.inr opens) (.inr closes)
  exact ⟨tokens, (congrArg scan (by decide +kernel)).trans scanned, kinds⟩

end Dcpu.Source
