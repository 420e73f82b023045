import Dcpu.Listing.Basic
import Dcpu.Proofs.Listing.Operands
import Dcpu.Proofs.Source.Lexemes
import Mathlib.Data.List.TakeWhile

/-! # Formatted listings are read

The text of a listing leaves much to its author: the case of mnemonics, registers and digits, the blanks
around lines and operands, the base of numbers, the ends of lines, comments and blank lines. Every text
that a listing can be formatted as is read as the listing, if the labels in it are legible.
-/

namespace Dcpu

open Text

namespace Text

/-- Blanks that do not end a line. -/
def IsPadding (text : List Char) : Prop :=
  ∀ c ∈ text, isBlank c = true ∧ c ≠ '\n'

/-- The letters of a word, each of them in lower or in upper case. -/
def IsCaseOf (text word : List Char) : Prop :=
  List.Forall₂ (fun c d => c = d.toLower ∨ c = d.toUpper) text word

/-- Digits that stand for a word, perhaps behind zeros. -/
structure IsNumeral (base : Nat) (text : List Char) (word : Word) : Prop where
  nonempty : text ≠ []
  digits : ∀ d ∈ text, isDigit base d = true
  value : Source.numeral base text = word.toNat

variable {text word : List Char}

theorem isPadding_nil : IsPadding [] :=
  fun _ member => absurd member List.not_mem_nil

theorem IsPadding.blank (padding : IsPadding text) : ∀ c ∈ text, isBlank c = true :=
  fun c member => (padding c member).1

/-- What is blind to case does not tell a text from the word whose letters it has. -/
theorem IsCaseOf.map_eq {f : Char → Char} (isCase : IsCaseOf text word)
    (blind : (word.all fun d => f d.toLower == f d && f d.toUpper == f d) = true) : text.map f = word.map f := by
  induction isCase with
  | nil => rfl
  | cons same _ ih =>
    simp only [List.all_cons, Bool.and_eq_true, beq_iff_eq] at blind
    obtain ⟨⟨lower, upper⟩, others⟩ := blind
    rw [List.map_cons, List.map_cons, ih others]
    obtain rfl | rfl := same
    · rw [lower]
    · rw [upper]

theorem IsCaseOf.ne_nil (isCase : IsCaseOf text word) (nonempty : word ≠ []) : text ≠ [] := by
  rintro rfl
  cases isCase
  exact nonempty rfl

theorem IsCaseOf.isNamePart (isCase : IsCaseOf text word)
    (parts : (word.all fun d => isNamePart d.toLower && isNamePart d.toUpper) = true) :
    ∀ c ∈ text, isNamePart c = true := by
  induction isCase with
  | nil => simp
  | cons same _ ih =>
    simp only [List.all_cons, Bool.and_eq_true] at parts
    obtain ⟨⟨lower, upper⟩, others⟩ := parts
    refine List.forall_mem_cons.mpr ⟨?_, ih others⟩
    obtain rfl | rfl := same
    · exact lower
    · exact upper

/-- A numeral of a base is read as its value. -/
theorem IsNumeral.word?_eq {base : Nat} {value : Word} (numeral : IsNumeral base text value)
    (unsigned : isDigit base '+' = false) : word? base text = some value := by
  have noSign : unsigned? base text = digits? base text := by
    obtain ⟨c, rest, rfl⟩ := List.exists_cons_of_ne_nil numeral.nonempty
    apply unsigned?_of_head
    rintro rfl
    rw [numeral.digits '+' (List.mem_cons_self ..)] at unsigned
    cases unsigned
  rw [word?, noSign, Source.digits?_eq_numeral numeral.nonempty numeral.digits, numeral.value, Option.bind_some,
    Word.ofNat?_toNat]

end Text

namespace Operand

/-- The texts that a number between brackets can be formatted as. -/
inductive IsNumber : Word → List Char → Prop where
  | decimal {word : Word} {digits : List Char} : IsNumeral 10 digits word → IsNumber word digits
  | hexadecimal {word : Word} {mark : Char} {digits : List Char} : mark = 'x' ∨ mark = 'X' →
      IsNumeral 16 digits word → IsNumber word ('0' :: mark :: digits)

/-- The texts that an operand can be formatted as. -/
inductive Formatted : Operand → List Char → Prop where
  | register {r : Register} {text : List Char} : IsCaseOf text r.text.toList → Formatted (.register r) text
  | indirect {r : Register} {left text right : List Char} : IsPadding left → IsCaseOf text r.text.toList →
      IsPadding right → Formatted (.indirect r) ('[' :: (left ++ text ++ right ++ [']']))
  | memory {word : Word} {left text right : List Char} : IsPadding left → IsNumber word text →
      IsPadding right → Formatted (.memory word) ('[' :: (left ++ text ++ right ++ [']']))
  | address {word : Word} {mark : Char} {digits : List Char} : mark = 'x' ∨ mark = 'X' →
      IsNumeral 16 digits word → Formatted (.address word) ('0' :: mark :: digits)
  | literal {word : Word} {digits : List Char} : IsNumeral 10 digits word → Formatted (.literal word) digits
  | label {name : String} : Formatted (.label name) name.toList
  | push {text : List Char} : IsCaseOf text "PUSH".toList → Formatted .push text
  | pop {text : List Char} : IsCaseOf text "POP".toList → Formatted .pop text

section Parts

variable {text digits : List Char} {r : Register} {word : Word} {mark : Char}

theorem ofName?_of_isCaseOf {letters : List Char} (isCase : IsCaseOf text letters)
    (blind : (letters.all fun d => d.toLower.toLower == d.toLower && d.toUpper.toLower == d.toLower) = true) :
    Register.ofName? text = Register.ofName? letters := by
  rw [Register.ofName?, isCase.map_eq blind, Register.ofName?]

/-- Registers are read in upper and lower case. -/
theorem ofName?_register (isCase : IsCaseOf text r.text.toList) : Register.ofName? text = some r := by
  rw [ofName?_of_isCaseOf isCase (by cases r <;> decide)]
  cases r <;> decide

theorem isNamePart_register (isCase : IsCaseOf text r.text.toList) : ∀ c ∈ text, isNamePart c = true :=
  isCase.isNamePart (by cases r <;> decide +kernel)

theorem readTrimmed_register (isCase : IsCaseOf text r.text.toList) : readTrimmed text = .ok (.register r) := by
  have nonempty : text ≠ [] := isCase.ne_nil (by cases r <;> decide)
  simp [readTrimmed, nonempty, bracketed?_of_parts (isNamePart_register isCase), ofName?_register isCase]

theorem isNamePart_stack {operand : Operand} (isStack : operand = .push ∨ operand = .pop)
    (isCase : IsCaseOf text operand.text.toList) : ∀ c ∈ text, isNamePart c = true :=
  isCase.isNamePart (by obtain rfl | rfl := isStack <;> decide +kernel)

/-- The stack operands are read in upper and lower case. -/
theorem readTrimmed_stack {operand : Operand} (isStack : operand = .push ∨ operand = .pop)
    (isCase : IsCaseOf text operand.text.toList) : readTrimmed text = .ok operand := by
  have nonempty : text ≠ [] := isCase.ne_nil (by obtain rfl | rfl := isStack <;> decide)
  have noRegister : Register.ofName? text = none := by
    rw [ofName?_of_isCaseOf isCase (by obtain rfl | rfl := isStack <;> decide)]
    obtain rfl | rfl := isStack <;> decide
  have found : stackOperand? text = some operand := by
    rw [stackOperand?, isCase.map_eq (by obtain rfl | rfl := isStack <;> decide)]
    obtain rfl | rfl := isStack <;> decide
  simp [readTrimmed, nonempty, bracketed?_of_parts (isNamePart_stack isStack isCase), noRegister, found]

theorem isNamePart_marked (marked : mark = 'x' ∨ mark = 'X') (numeral : IsNumeral 16 digits word) :
    ∀ c ∈ '0' :: mark :: digits, isNamePart c = true := by
  refine List.forall_mem_cons.mpr ⟨by decide +kernel, List.forall_mem_cons.mpr ⟨?_, fun c member => ?_⟩⟩
  · obtain rfl | rfl := marked <;> decide +kernel
  · exact Source.isNamePart_of_isDigit_sixteen (numeral.digits c member)

theorem IsNumber.isNamePart (isNumber : IsNumber word text) : ∀ c ∈ text, isNamePart c = true := by
  cases isNumber with
  | decimal numeral => exact fun c member => isNamePart_of_isDigit (numeral.digits c member)
  | hexadecimal marked numeral => exact isNamePart_marked marked numeral

/-- A number in one of its forms is read as its value. -/
theorem IsNumber.number?_eq (isNumber : IsNumber word text) : number? text = some word := by
  cases isNumber with
  | decimal numeral =>
    have unmarked : hexBody? text = none := hexBody?_of_digits fun c member =>
      isDigit_ten c ▸ numeral.digits c member
    simp only [number?, unmarked, numeral.word?_eq (by decide)]
  | hexadecimal marked numeral => rw [number?_marked marked, numeral.word?_eq (by decide)]

theorem IsNumber.isDigit_head? (isNumber : IsNumber word text) : ∀ c ∈ text.head?, c.isDigit = true := by
  cases isNumber with
  | decimal numeral => exact fun c head => isDigit_ten c ▸ numeral.digits c (List.mem_of_head? head)
  | hexadecimal => simp

/-- Padding between brackets is trimmed away. -/
theorem readTrimmed_padded {left right : List Char} {operand : Operand} (leftPadding : IsPadding left)
    (parts : ∀ c ∈ text, isNamePart c = true) (rightPadding : IsPadding right)
    (inside : readInside? text = some operand) :
    readTrimmed ('[' :: (left ++ text ++ right ++ [']'])) = .ok operand := by
  apply readTrimmed_bracketed
  rw [trim_padded leftPadding.blank rightPadding.blank (trim_of_unblank fun c member =>
    isBlank_of_isNamePart (parts c member)), inside]

end Parts

section Formatted

variable {operand : Operand} {text : List Char}

/-- A formatted operand is read as the operand. -/
theorem readTrimmed_formatted (legible : operand.IsLegible) (formatted : Formatted operand text) :
    readTrimmed text = .ok operand := by
  cases formatted with
  | register isCase => exact readTrimmed_register isCase
  | indirect leftPadding isCase rightPadding =>
    apply readTrimmed_padded leftPadding (isNamePart_register isCase) rightPadding
    rw [readInside?, ofName?_register isCase]
  | memory leftPadding isNumber rightPadding =>
    apply readTrimmed_padded leftPadding isNumber.isNamePart rightPadding
    exact readInside?_number isNumber.isDigit_head? isNumber.number?_eq
  | address marked numeral => exact readTrimmed_marked marked (numeral.word?_eq (by decide))
  | literal numeral => exact readTrimmed_digits numeral.nonempty numeral.digits (numeral.word?_eq (by decide))
  | label => exact readTrimmed_eq_label_iff.mpr ⟨legible, String.ofList_toList.symm⟩
  | push isCase => exact readTrimmed_stack (.inl rfl) isCase
  | pop isCase => exact readTrimmed_stack (.inr rfl) isCase

/-- A formatted operand is made of characters of names, alone or padded between brackets. -/
theorem Formatted.shape (legible : operand.IsLegible) (formatted : Formatted operand text) :
    (∀ c ∈ text, isNamePart c = true) ∨ ∃ left inner right, IsPadding left ∧
      (∀ c ∈ inner, isNamePart c = true) ∧ IsPadding right ∧ text = '[' :: (left ++ inner ++ right ++ [']']) := by
  cases formatted with
  | register isCase => exact .inl (isNamePart_register isCase)
  | indirect leftPadding isCase rightPadding =>
    exact .inr ⟨_, _, _, leftPadding, isNamePart_register isCase, rightPadding, rfl⟩
  | memory leftPadding isNumber rightPadding =>
    exact .inr ⟨_, _, _, leftPadding, isNumber.isNamePart, rightPadding, rfl⟩
  | address marked numeral => exact .inl (isNamePart_marked marked numeral)
  | literal numeral => exact .inl fun c member => isNamePart_of_isDigit (numeral.digits c member)
  | label => exact .inl legible.parts
  | push isCase => exact .inl (isNamePart_stack (.inl rfl) isCase)
  | pop isCase => exact .inl (isNamePart_stack (.inr rfl) isCase)

theorem Formatted.ne_nil (legible : operand.IsLegible) (formatted : Formatted operand text) : text ≠ [] := by
  rintro rfl
  cases readTrimmed_formatted legible formatted

/-- No blanks stand around a formatted operand. -/
theorem Formatted.trim_eq (legible : operand.IsLegible) (formatted : Formatted operand text) : trim text = text := by
  obtain parts | ⟨left, inner, right, _, _, _, rfl⟩ := formatted.shape legible
  · exact trim_of_unblank fun c member => isBlank_of_isNamePart (parts c member)
  · have trimmed : trim (['['] ++ (left ++ inner ++ right) ++ [']']) = ['['] ++ (left ++ inner ++ right) ++ [']'] :=
      trim_between (by simp) (by decide) _ (by simp) (by decide)
    exact trimmed

theorem Formatted.forall_mem {p : Char → Prop} (legible : operand.IsLegible) (formatted : Formatted operand text)
    (ofPart : ∀ {c}, isNamePart c = true → p c) (ofPadding : ∀ {c}, isBlank c = true → c ≠ '\n' → p c)
    (left : p '[') (right : p ']') : ∀ c ∈ text, p c := by
  obtain parts | ⟨leftPadding, inner, rightPadding, isLeft, parts, isRight, rfl⟩ := formatted.shape legible
  · exact fun c member => ofPart (parts c member)
  · intro c member
    simp only [List.mem_cons, List.mem_append, List.not_mem_nil, or_false] at member
    obtain rfl | ((member | member) | member) | rfl := member
    · exact left
    · exact ofPadding (isLeft c member).1 (isLeft c member).2
    · exact ofPart (parts c member)
    · exact ofPadding (isRight c member).1 (isRight c member).2
    · exact right

end Formatted

end Operand

namespace Line

/-- Whether a line is read from its text. -/
def IsLegible : Line → Prop
  | label name => name ≠ "" ∧ trim name.toList = name.toList ∧ ∀ c ∈ name.toList, c ≠ '\n' ∧ c ≠ ';'
  | instruction (.basic _ b a) => b.IsLegible ∧ a.IsLegible
  | instruction (.jsr target) => target.IsLegible

/-- The texts that a line can be formatted as, without the blanks around it. -/
inductive Formatted : Line → List Char → Prop where
  | label {name : String} {gap : List Char} : IsPadding gap → Formatted (.label name) (':' :: (gap ++ name.toList))
  | basic {op : Opcode} {b a : Operand} {mnemonic gap bText left right aText : List Char} :
      IsCaseOf mnemonic op.mnemonic.toList → gap ≠ [] → IsPadding gap →
      b.Formatted bText → IsPadding left → IsPadding right → a.Formatted aText →
      Formatted (.instruction (.basic op b a)) (mnemonic ++ gap ++ (bText ++ (left ++ ',' :: right) ++ aText))
  | jsr {target : Operand} {mnemonic gap text : List Char} :
      IsCaseOf mnemonic "jsr".toList → gap ≠ [] → IsPadding gap → target.Formatted text →
      Formatted (.instruction (.jsr target)) (mnemonic ++ gap ++ text)

/-- Whether a character can stand inside a line, which a line feed and a semicolon end. -/
def isInner (c : Char) : Bool :=
  c != '\n' && c != ';'

theorem isInner_of_isNamePart {c : Char} (part : isNamePart c = true) : isInner c = true := by
  rw [isInner, Bool.and_eq_true, bne_iff_ne, bne_iff_ne]
  constructor <;> rintro rfl <;> exact absurd part (by decide +kernel)

theorem isInner_of_isBlank {c : Char} (blank : isBlank c = true) (noFeed : c ≠ '\n') : isInner c = true := by
  rw [isInner, Bool.and_eq_true, bne_iff_ne, bne_iff_ne]
  refine ⟨noFeed, ?_⟩
  rintro rfl
  exact absurd blank (by decide)

theorem isInner_of_isPadding {padding : List Char} (isPadding : IsPadding padding) :
    ∀ c ∈ padding, isInner c = true :=
  fun c member => isInner_of_isBlank (isPadding c member).1 (isPadding c member).2

/-- What is read as a label can be a line's label. -/
theorem isLegible_label {name : String} (isLabel : Operand.IsLabelText name.toList) :
    (label name).IsLegible := by
  refine ⟨mt String.toList_eq_nil_iff.mpr isLabel.nonempty, ?_, fun c member => ?_⟩
  · exact trim_of_unblank fun c member => isBlank_of_isNamePart (isLabel.parts c member)
  · simpa [isInner] using isInner_of_isNamePart (isLabel.parts c member)

section Instructions

variable {op : Opcode} {operand b a : Operand} {mnemonic gap text operands bText left right aText : List Char}

/-- What can be the first word of a line with an instruction. -/
structure IsMnemonic (word : List Char) : Prop where
  nonempty : word ≠ []
  parts : ∀ c ∈ word, isNamePart c = true

theorem isMnemonic_opcode (isCase : IsCaseOf mnemonic op.mnemonic.toList) : IsMnemonic mnemonic :=
  ⟨isCase.ne_nil (by cases op <;> decide), isCase.isNamePart (by cases op <;> decide +kernel)⟩

theorem isMnemonic_jsr (isCase : IsCaseOf mnemonic "jsr".toList) : IsMnemonic mnemonic :=
  ⟨isCase.ne_nil (by decide), isCase.isNamePart (by decide +kernel)⟩

theorem IsMnemonic.isBlank (isMnemonic : IsMnemonic mnemonic) : ∀ c ∈ mnemonic, Text.isBlank c = false :=
  fun c member => isBlank_of_isNamePart (isMnemonic.parts c member)

/-- No blanks stand around a formatted line. -/
theorem IsMnemonic.trim_line (isMnemonic : IsMnemonic mnemonic) (nonempty : operands ≠ [])
    (trimmed : trim operands = operands) : trim (mnemonic ++ gap ++ operands) = mnemonic ++ gap ++ operands :=
  trim_between isMnemonic.nonempty (trim_of_unblank isMnemonic.isBlank) gap nonempty trimmed

/-- A mnemonic and its operands are told apart by the blanks between them. -/
theorem IsMnemonic.readTrimmed_line (isMnemonic : IsMnemonic mnemonic) (nonempty : gap ≠ [])
    (padding : IsPadding gap) (trimmed : trim operands = operands) :
    readTrimmed (mnemonic ++ gap ++ operands) = (readInstruction mnemonic operands).map .instruction := by
  have unblank (c : Char) (member : c ∈ mnemonic) : (!Text.isBlank c) = true := by
    simp [isMnemonic.isBlank c member]
  obtain ⟨space, spaces, rfl⟩ := List.exists_cons_of_ne_nil nonempty
  have blank : Text.isBlank space = true := padding.blank space (List.mem_cons_self ..)
  have word : (mnemonic ++ space :: spaces ++ operands).takeWhile (!Text.isBlank ·) = mnemonic := by
    rw [List.append_assoc, List.takeWhile_append_of_pos unblank]
    simp [blank]
  have rest : trim ((mnemonic ++ space :: spaces ++ operands).dropWhile (!Text.isBlank ·)) = operands := by
    have padded : trim (space :: spaces ++ operands ++ []) = operands := trim_padded padding.blank (by simp) trimmed
    rw [List.append_nil] at padded
    rw [List.append_assoc, List.dropWhile_append_of_pos unblank, List.cons_append,
      List.dropWhile_cons_of_neg (by simp [blank])]
    exact padded
  rw [readTrimmed]
  · simp only [word, rest]
    cases readInstruction mnemonic operands <;> rfl
  · -- a colon would make the line a label, but begins no mnemonic
    intro name same
    obtain ⟨c, letters, rfl⟩ := List.exists_cons_of_ne_nil isMnemonic.nonempty
    have part := isMnemonic.parts c (List.mem_cons_self ..)
    rw [(List.cons.inj same).1] at part
    exact absurd part (by decide +kernel)

/-- Padding around a formatted operand is free. -/
theorem readOperand_padded (legible : operand.IsLegible) (formatted : operand.Formatted text)
    (leftPadding : IsPadding left) (rightPadding : IsPadding right) :
    readOperand (left ++ text ++ right) = .ok operand := by
  rw [readOperand, Operand.read, trim_padded leftPadding.blank rightPadding.blank (formatted.trim_eq legible),
    Operand.readTrimmed_formatted legible formatted]
  rfl

theorem readInstruction_jsr (isCase : IsCaseOf mnemonic "jsr".toList) (legible : operand.IsLegible)
    (formatted : operand.Formatted text) : readInstruction mnemonic text = .ok (.jsr operand) := by
  have lower : mnemonic.map Char.toLower = ['j', 's', 'r'] := isCase.map_eq (by decide)
  have reads : readOperand ([] ++ text ++ []) = .ok operand :=
    readOperand_padded legible formatted isPadding_nil isPadding_nil
  rw [List.nil_append, List.append_nil] at reads
  rw [readInstruction, if_pos lower, reads]
  rfl

theorem noComma_padded (legible : operand.IsLegible) (formatted : operand.Formatted text)
    (padding : IsPadding right) : ∀ c ∈ text ++ right, (c != ',') = true := by
  have ofPart {c : Char} (part : isNamePart c = true) : (c != ',') = true := by
    rw [bne_iff_ne]
    rintro rfl
    exact absurd part (by decide +kernel)
  have ofBlank {c : Char} (blank : isBlank c = true) : (c != ',') = true := by
    rw [bne_iff_ne]
    rintro rfl
    exact absurd blank (by decide)
  refine List.forall_mem_append.mpr ⟨?_, fun c member => ofBlank (padding.blank c member)⟩
  exact formatted.forall_mem legible ofPart (fun blank _ => ofBlank blank) (by decide) (by decide)

/-- The first comma stands between the operands. -/
theorem readInstruction_basic (isCase : IsCaseOf mnemonic op.mnemonic.toList)
    (bLegible : b.IsLegible) (bFormatted : b.Formatted bText) (leftPadding : IsPadding left)
    (aLegible : a.IsLegible) (aFormatted : a.Formatted aText) (rightPadding : IsPadding right) :
    readInstruction mnemonic (bText ++ (left ++ ',' :: right) ++ aText) = .ok (.basic op b a) := by
  have lower : mnemonic.map Char.toLower = op.mnemonic.toList := by
    rw [isCase.map_eq (by cases op <;> decide)]
    cases op <;> decide
  have notJsr : mnemonic.map Char.toLower ≠ ['j', 's', 'r'] := by
    rw [lower]
    cases op <;> decide
  have found : Opcode.ofMnemonic? mnemonic = some op := by
    rw [Opcode.ofMnemonic?, lower]
    cases op <;> decide
  have destination : readOperand ([] ++ bText ++ left) = .ok b :=
    readOperand_padded bLegible bFormatted isPadding_nil leftPadding
  have source : readOperand (right ++ aText ++ []) = .ok a :=
    readOperand_padded aLegible aFormatted rightPadding isPadding_nil
  have split : bText ++ (left ++ ',' :: right) ++ aText = bText ++ left ++ ',' :: (right ++ aText) := by simp
  have noComma := noComma_padded bLegible bFormatted leftPadding
  rw [List.nil_append] at destination
  rw [List.append_nil] at source
  rw [readInstruction, if_neg notJsr, found, split, List.dropWhile_append_of_pos noComma,
    List.takeWhile_append_of_pos noComma]
  simp only [List.dropWhile_cons_of_neg, List.takeWhile_cons_of_neg, bne_self_eq_false,
    Bool.false_eq_true, not_false_eq_true, List.append_nil, destination, source]
  rfl

theorem trim_operands (bLegible : b.IsLegible) (bFormatted : b.Formatted bText) (comma : List Char)
    (aLegible : a.IsLegible) (aFormatted : a.Formatted aText) :
    trim (bText ++ comma ++ aText) = bText ++ comma ++ aText :=
  trim_between (bFormatted.ne_nil bLegible) (bFormatted.trim_eq bLegible) comma (aFormatted.ne_nil aLegible)
    (aFormatted.trim_eq aLegible)

end Instructions

section Formatted

variable {line : Line} {text : List Char}

/-- A formatted line is read as the line. -/
theorem readTrimmed_formatted (legible : line.IsLegible) (formatted : Formatted line text) :
    readTrimmed text = .ok line := by
  cases formatted with
  | @label name gap padding =>
    obtain ⟨nonempty, trimmed, _⟩ := legible
    have letters : name.toList ≠ [] := mt String.toList_eq_nil_iff.mp nonempty
    have padded : trim (gap ++ name.toList ++ []) = name.toList := trim_padded padding.blank (by simp) trimmed
    rw [List.append_nil] at padded
    rw [readTrimmed, padded, if_neg (mt List.isEmpty_iff.mp letters), String.ofList_toList]
  | basic isCase nonempty padding bFormatted leftPadding rightPadding aFormatted =>
    obtain ⟨bLegible, aLegible⟩ := legible
    rw [(isMnemonic_opcode isCase).readTrimmed_line nonempty padding
        (trim_operands bLegible bFormatted _ aLegible aFormatted),
      readInstruction_basic isCase bLegible bFormatted leftPadding aLegible aFormatted rightPadding]
    rfl
  | jsr isCase nonempty padding formatted =>
    rw [(isMnemonic_jsr isCase).readTrimmed_line nonempty padding (formatted.trim_eq legible),
      readInstruction_jsr isCase legible formatted]
    rfl

theorem Formatted.trim_eq (legible : line.IsLegible) (formatted : Formatted line text) : trim text = text := by
  cases formatted with
  | @label name gap padding =>
    obtain ⟨nonempty, trimmed, _⟩ := legible
    have whole : trim ([':'] ++ gap ++ name.toList) = [':'] ++ gap ++ name.toList :=
      trim_between (by simp) (by decide) gap (mt String.toList_eq_nil_iff.mp nonempty) trimmed
    exact whole
  | basic isCase _ _ bFormatted _ _ aFormatted =>
    obtain ⟨bLegible, aLegible⟩ := legible
    exact (isMnemonic_opcode isCase).trim_line (by simp) (trim_operands bLegible bFormatted _ aLegible aFormatted)
  | jsr isCase _ _ formatted =>
    exact (isMnemonic_jsr isCase).trim_line (formatted.ne_nil legible) (formatted.trim_eq legible)

theorem Formatted.ne_nil (formatted : Formatted line text) : text ≠ [] := by
  cases formatted with
  | label => exact List.cons_ne_nil _ _
  | basic => simp
  | jsr isCase nonempty => simp [nonempty]

/-- Nothing in a formatted line ends the line. -/
theorem Formatted.isInner (legible : line.IsLegible) (formatted : Formatted line text) :
    ∀ c ∈ text, isInner c = true := by
  have operand {operand : Operand} {text : List Char} (legible : operand.IsLegible)
      (formatted : operand.Formatted text) : ∀ c ∈ text, Line.isInner c = true :=
    formatted.forall_mem legible isInner_of_isNamePart isInner_of_isBlank (by decide) (by decide)
  have mnemonic {word : List Char} (isMnemonic : IsMnemonic word) : ∀ c ∈ word, Line.isInner c = true :=
    fun c member => isInner_of_isNamePart (isMnemonic.parts c member)
  cases formatted with
  | label padding =>
    obtain ⟨_, _, inner⟩ := legible
    simp only [List.forall_mem_cons, List.forall_mem_append]
    exact ⟨by decide, isInner_of_isPadding padding, fun c member => by simpa [Line.isInner] using inner c member⟩
  | basic isCase _ padding bFormatted leftPadding rightPadding aFormatted =>
    obtain ⟨bLegible, aLegible⟩ := legible
    simp only [List.forall_mem_append, List.forall_mem_cons]
    exact ⟨⟨mnemonic (isMnemonic_opcode isCase), isInner_of_isPadding padding⟩, ⟨operand bLegible bFormatted,
      isInner_of_isPadding leftPadding, by decide, isInner_of_isPadding rightPadding⟩, operand aLegible aFormatted⟩
  | jsr isCase _ padding formatted =>
    simp only [List.forall_mem_append]
    exact ⟨⟨mnemonic (isMnemonic_jsr isCase), isInner_of_isPadding padding⟩, operand legible formatted⟩

end Formatted

end Line

namespace Listing

/-- Nothing, or a comment. -/
def IsRemark (text : List Char) : Prop :=
  text = [] ∨ ∃ body, '\n' ∉ body ∧ text = ';' :: body

/-- The texts that stand between two ends of lines, with the line that each of them has, if any. -/
inductive Row : Listing → List Char → Prop where
  | blank {padding remark : List Char} : IsPadding padding → IsRemark remark → Row [] (padding ++ remark)
  | line {line : Line} {left text right remark : List Char} : IsPadding left → line.Formatted text →
      IsPadding right → IsRemark remark → Row [line] (left ++ text ++ right ++ remark)

/-- The texts that a listing can be formatted as. -/
inductive Formatted : Listing → List Char → Prop where
  | last {lines : Listing} {row : List Char} : Row lines row → Formatted lines row
  | cons {lines listing : Listing} {row feed text : List Char} : Row lines row →
      feed = ['\n'] ∨ feed = ['\r', '\n'] → Formatted listing text →
      Formatted (lines ++ listing) (row ++ feed ++ text)

def IsLegible (listing : Listing) : Prop :=
  ∀ line ∈ listing, line.IsLegible

section Splitting

variable {line : List Char}

theorem foldr_consChar (unbroken : '\n' ∉ line) (rest : List Char) (lines : List (List Char)) :
    line.foldr consChar (rest :: lines) = (line ++ rest) :: lines := by
  induction line with
  | nil => rfl
  | cons c line ih =>
    obtain ⟨first, others⟩ := not_or.mp (mt List.mem_cons.mpr unbroken)
    rw [List.foldr_cons, ih others, consChar, if_neg (Ne.symm first), List.cons_append]

theorem splitLines_ne_nil (text : List Char) : splitLines text ≠ [] := by
  cases text with
  | nil => exact List.cons_ne_nil _ _
  | cons c text =>
    rw [splitLines, List.foldr_cons]
    cases text.foldr consChar [[]] with
    | nil => exact List.cons_ne_nil _ _
    | cons line lines =>
      rw [consChar]
      split <;> exact List.cons_ne_nil _ _

theorem splitLines_of_unbroken (unbroken : '\n' ∉ line) : splitLines line = [line] := by
  rw [splitLines, foldr_consChar unbroken, List.append_nil]

theorem splitLines_append (unbroken : '\n' ∉ line) (text : List Char) :
    splitLines (line ++ '\n' :: text) = line :: splitLines text := by
  obtain ⟨first, lines, split⟩ := List.exists_cons_of_ne_nil (splitLines_ne_nil text)
  rw [splitLines] at split
  rw [splitLines, List.foldr_append, List.foldr_cons, splitLines, split, consChar, if_pos rfl,
    foldr_consChar unbroken, List.append_nil]

end Splitting

section Rows

variable {lines listing : Listing} {row text remark : List Char}

theorem IsRemark.unbroken (isRemark : IsRemark remark) : '\n' ∉ remark := by
  obtain rfl | ⟨body, unbroken, rfl⟩ := isRemark
  · exact List.not_mem_nil
  · simp [unbroken]

/-- A remark is cut off. -/
theorem code_append (inner : ∀ c ∈ text, Line.isInner c = true) (isRemark : IsRemark remark) :
    code (text ++ remark) = trim text := by
  have uncommented (c : Char) (member : c ∈ text) : (c != ';') = true :=
    (Bool.and_eq_true_iff.mp (inner c member)).2
  have cut : remark.takeWhile (· != ';') = [] := by
    obtain rfl | ⟨body, _, rfl⟩ := isRemark <;> simp
  rw [code, List.takeWhile_append_of_pos uncommented, cut, List.append_nil]

theorem not_mem_of_isInner (inner : ∀ c ∈ text, Line.isInner c = true) : '\n' ∉ text :=
  fun feed => absurd (inner '\n' feed) (by decide)

/-- A row of a formatted listing holds no line feed. -/
theorem Row.unbroken (legible : lines.IsLegible) (isRow : Row lines row) : '\n' ∉ row := by
  cases isRow with
  | blank padding isRemark => simp [not_mem_of_isInner (Line.isInner_of_isPadding padding), isRemark.unbroken]
  | line leftPadding formatted rightPadding isRemark =>
    have inner := formatted.isInner (legible _ (List.mem_singleton_self _))
    simp [not_mem_of_isInner (Line.isInner_of_isPadding leftPadding), not_mem_of_isInner inner,
      not_mem_of_isInner (Line.isInner_of_isPadding rightPadding), isRemark.unbroken]

/-- A blank behind a row is one more blank or part of a comment. -/
theorem Row.append_blank (isRow : Row lines row) {c : Char} (blank : isBlank c = true) (noFeed : c ≠ '\n') :
    Row lines (row ++ [c]) := by
  have padded {padding : List Char} (isPadding : IsPadding padding) : IsPadding (padding ++ [c]) :=
    List.forall_mem_append.mpr ⟨isPadding, List.forall_mem_singleton.mpr ⟨blank, noFeed⟩⟩
  have remarked {body : List Char} (unbroken : '\n' ∉ body) : IsRemark (';' :: (body ++ [c])) :=
    .inr ⟨body ++ [c], by simp [unbroken, Ne.symm noFeed], rfl⟩
  cases isRow with
  | blank isPadding isRemark =>
    obtain rfl | ⟨body, unbroken, rfl⟩ := isRemark
    · simpa using Row.blank (padded isPadding) (.inl rfl)
    · simpa using Row.blank isPadding (remarked unbroken)
  | line leftPadding formatted rightPadding isRemark =>
    obtain rfl | ⟨body, unbroken, rfl⟩ := isRemark
    · simpa using Row.line leftPadding formatted (padded rightPadding) (.inl rfl)
    · simpa using Row.line leftPadding formatted rightPadding (remarked unbroken)

/-- Blanks behind a row, among which there may be line feeds, add nothing to a listing. -/
theorem Formatted.append_blank (isRow : Row lines row) {rest : List Char}
    (blank : ∀ c ∈ rest, isBlank c = true) : Formatted lines (row ++ rest) := by
  induction rest generalizing lines row with
  | nil => simpa using Formatted.last isRow
  | cons c rest ih =>
    obtain ⟨first, others⟩ := List.forall_mem_cons.mp blank
    by_cases feed : c = '\n'
    · subst feed
      have below : Formatted [] ([] ++ rest) := ih (.blank isPadding_nil (.inl rfl)) others
      simpa using Formatted.cons isRow (.inl rfl) below
    · simpa using ih (isRow.append_blank first feed) others

/-- Reading a row adds the line that it has. -/
theorem readLines_row (legible : lines.IsLegible) (isRow : Row lines row) (number : Nat)
    (rest : List (List Char)) (done : Array Line) :
    readLines number (row :: rest) done = readLines (number + 1) rest (done ++ lines.toArray) := by
  cases isRow with
  | @blank padding remark isPadding isRemark =>
    have blank : trim ([] ++ [] ++ padding) = [] := trim_padded (by simp) isPadding.blank rfl
    rw [List.nil_append, List.nil_append] at blank
    rw [readLines, code_append (Line.isInner_of_isPadding isPadding) isRemark, blank, if_pos List.isEmpty_nil]
    simp
  | @line line left text right remark leftPadding formatted rightPadding isRemark =>
    have isLegible := legible line (List.mem_singleton_self _)
    have inner : ∀ c ∈ left ++ text ++ right, Line.isInner c = true := by
      simp only [List.forall_mem_append]
      exact ⟨⟨Line.isInner_of_isPadding leftPadding, formatted.isInner isLegible⟩,
        Line.isInner_of_isPadding rightPadding⟩
    have isCode : code (left ++ text ++ right ++ remark) = text := by
      rw [code_append inner isRemark, trim_padded leftPadding.blank rightPadding.blank (formatted.trim_eq isLegible)]
    rw [readLines, isCode, if_neg (by simpa using formatted.ne_nil), Line.readTrimmed_formatted isLegible formatted]
    simp

/-- The rows of a formatted listing are read as its lines. -/
theorem readLines_formatted (legible : listing.IsLegible) (formatted : Formatted listing text) (number : Nat)
    (done : Array Line) : readLines number (splitLines text) done = .ok (done.toList ++ listing) := by
  induction formatted generalizing number done with
  | last isRow =>
    rw [splitLines_of_unbroken (isRow.unbroken legible), readLines_row legible isRow, readLines]
    simp
  | @cons lines listing row feed text isRow isFeed _ ih =>
    obtain ⟨rowLegible, restLegible⟩ := List.forall_mem_append.mp legible
    -- a carriage return goes to the row, which leaves a line feed to split at
    have step : ∃ ended, Row lines ended ∧ row ++ feed ++ text = ended ++ '\n' :: text := by
      obtain rfl | rfl := isFeed
      · exact ⟨row, isRow, by simp⟩
      · exact ⟨row ++ ['\r'], isRow.append_blank (by decide) (by decide), by simp⟩
    obtain ⟨ended, isEnded, whole⟩ := step
    rw [whole, splitLines_append (isEnded.unbroken rowLegible), readLines_row rowLegible isEnded, ih restLegible]
    simp

/-- A formatted listing is read as the listing. -/
theorem read_of_formatted (legible : listing.IsLegible) (formatted : Formatted listing text) :
    read (String.ofList text) = .ok listing := by
  rw [read, String.toList_ofList, readLines_formatted legible formatted]
  rfl

end Rows

end Listing

end Dcpu
