import Dcpu.Listing.Operand
import Dcpu.Proofs.Text.Characters

/-! # How operands are read

A text is read as a label if it is made of characters of names and is no register, no stack operand and no
number. Digits are read as a number, behind the mark of a hexadecimal number as an address, and what
brackets make is decided by what stands between them.
-/

namespace Dcpu

open Text

namespace Operand

/-- A text that is read as a label: characters of names that make up no other operand. -/
structure IsLabelText (text : List Char) : Prop where
  nonempty : text ≠ []
  parts : ∀ c ∈ text, isNamePart c = true
  noRegister : Register.ofName? text = none
  noStack : stackOperand? text = none
  noMark : hexBody? text = none
  noDecimal : text.all (isDigit 10) = false

/-- Whether an operand is read from its text, which only a label need not be. -/
def IsLegible : Operand → Prop
  | .label name => IsLabelText name.toList
  | _ => True

section Labels

variable {text : List Char} {name : String}

theorem bracketed?_of_head {c : Char} (unbracketed : c ≠ '[') (rest : List Char) :
    bracketed? (c :: rest) = none := by
  rw [bracketed?]
  intro _ same
  exact unbracketed (List.cons.inj same).1

theorem bracketed?_of_parts (parts : ∀ c ∈ text, isNamePart c = true) : bracketed? text = none := by
  cases text with
  | nil => rfl
  | cons c rest =>
    apply bracketed?_of_head
    rintro rfl
    exact absurd (parts '[' (List.mem_cons_self ..)) (by decide +kernel)

/-- No label is read in brackets. -/
theorem readInside?_ne_label (inner : List Char) : readInside? inner ≠ some (.label name) := by
  rw [readInside?]
  split <;> simp

theorem stackOperand?_ne_label : stackOperand? text ≠ some (.label name) := by
  rw [stackOperand?]
  split
  · simp
  · split <;> simp

/-- The texts that are read as labels. -/
theorem readTrimmed_eq_label_iff :
    readTrimmed text = .ok (.label name) ↔ IsLabelText text ∧ name = String.ofList text := by
  constructor
  · intro reads
    rw [readTrimmed] at reads
    split at reads
    case isTrue => cases reads
    case isFalse nonempty =>
      split at reads
      case h_1 inner _ =>
        cases inside : readInside? (trim inner) with
        | none => simp [inside] at reads
        | some operand =>
          simp only [inside, Option.elim_some, Except.ok.injEq] at reads
          exact absurd (reads ▸ inside) (readInside?_ne_label _)
      case h_2 =>
        split at reads
        case h_1 => cases reads
        case h_2 noRegister =>
          split at reads
          case h_1 operand found =>
            cases reads
            exact absurd found stackOperand?_ne_label
          case h_2 noStack =>
            split at reads
            case isTrue => cases value : number? text <;> simp [value] at reads
            case isFalse noMark =>
              split at reads
              case isTrue => cases value : word? 10 text <;> simp [value] at reads
              case isFalse noDecimal =>
                split at reads
                case isFalse => cases reads
                case isTrue parts =>
                  cases reads
                  refine ⟨⟨by simpa using nonempty, by simpa using parts, ?_, ?_, ?_, ?_⟩, rfl⟩
                  · exact Option.eq_none_iff_forall_ne_some.mpr noRegister
                  · exact Option.eq_none_iff_forall_ne_some.mpr noStack
                  · simpa using noMark
                  · exact Bool.eq_false_iff.mpr noDecimal
  · rintro ⟨isLabel, rfl⟩
    have parts : text.all isNamePart = true := List.all_eq_true.mpr isLabel.parts
    simp [readTrimmed, isLabel.nonempty, bracketed?_of_parts isLabel.parts, isLabel.noRegister,
      isLabel.noStack, isLabel.noMark, isLabel.noDecimal, parts]

end Labels

section Numbers

variable {c : Char}

theorem ofName?_of_head (apart : ∀ r ∈ Register.all, (r.text.toList.map Char.toLower).head? ≠ some c.toLower)
    (rest : List Char) : Register.ofName? (c :: rest) = none := by
  rw [Register.ofName?, List.find?_eq_none]
  intro r member same
  apply apart r member
  rw [beq_iff_eq.mp same]
  rfl

theorem stackOperand?_of_head (apart : c.toUpper ≠ 'P') (rest : List Char) :
    stackOperand? (c :: rest) = none := by
  simp [stackOperand?, apart]

theorem exists_digitChar_of_isDigit (digit : c.isDigit = true) : ∃ value < 10, c = Nat.digitChar value := by
  obtain ⟨atLeast, atMost⟩ := (isDigit_iff c).mp digit
  have low : 48 ≤ c.toNat := atLeast
  have high : c.toNat ≤ 57 := atMost
  have codes : ∀ code < 58, 48 ≤ code → Char.ofNat code = Nat.digitChar (code - 48) := by decide
  refine ⟨c.toNat - 48, by omega, ?_⟩
  rw [← codes c.toNat (by omega) low, Char.ofNat_toNat]

/-- A digit begins neither a register nor a stack operand. -/
theorem ofName?_of_isDigit (digit : c.isDigit = true) (rest : List Char) : Register.ofName? (c :: rest) = none := by
  have heads : ∀ value < 10, ∀ r ∈ Register.all,
      (r.text.toList.map Char.toLower).head? ≠ some (Nat.digitChar value).toLower := by decide
  obtain ⟨value, small, rfl⟩ := exists_digitChar_of_isDigit digit
  exact ofName?_of_head (heads value small) rest

theorem stackOperand?_of_isDigit (digit : c.isDigit = true) (rest : List Char) :
    stackOperand? (c :: rest) = none := by
  have heads : ∀ value < 10, (Nat.digitChar value).toUpper ≠ 'P' := by decide
  obtain ⟨value, small, rfl⟩ := exists_digitChar_of_isDigit digit
  exact stackOperand?_of_head (heads value small) rest

theorem hexBody?_of_digits {text : List Char} (all : ∀ c ∈ text, c.isDigit = true) :
    hexBody? text = none := by
  rw [hexBody?]
  · rintro digits rfl
    exact absurd (all 'x' (by simp)) (by decide)
  · rintro digits rfl
    exact absurd (all 'X' (by simp)) (by decide)

/-- Longer names than those of registers that begin with a letter other than `p` are labels. -/
theorem isLabelText_of_head {rest : List Char} (noDigit : isDigit 10 c = false) (noStack : c.toUpper ≠ 'P')
    (long : 2 ≤ rest.length) (parts : ∀ d ∈ c :: rest, isNamePart d = true) :
    IsLabelText (c :: rest) := by
  refine ⟨List.cons_ne_nil _ _, parts, ?_, stackOperand?_of_head noStack rest, ?_, ?_⟩
  · have short : ∀ r ∈ Register.all, r.text.toList.length ≤ 2 := by decide
    rw [Register.ofName?, List.find?_eq_none]
    intro r member same
    have lengths := congrArg List.length (beq_iff_eq.mp same)
    simp only [List.length_map, List.length_cons] at lengths
    have := short r member
    omega
  · have unmarked : c ≠ '0' := by
      rintro rfl
      cases noDigit
    rw [hexBody?]
    all_goals
      rintro digits same
      exact unmarked (List.cons.inj same).1
  · rw [List.all_cons, noDigit, Bool.false_and]

/-- Decimal digits are read as the number that they stand for. -/
theorem readTrimmed_digits {digits : List Char} {word : Word} (nonempty : digits ≠ [])
    (all : ∀ d ∈ digits, isDigit 10 d = true) (value : word? 10 digits = some word) :
    readTrimmed digits = .ok (.literal word) := by
  have ascii (d : Char) (member : d ∈ digits) : d.isDigit = true := isDigit_ten d ▸ all d member
  have unbracketed : bracketed? digits = none :=
    bracketed?_of_parts fun d member => isNamePart_of_isDigit (all d member)
  have unnamed : Register.ofName? digits = none ∧ stackOperand? digits = none := by
    obtain ⟨c, rest, rfl⟩ := List.exists_cons_of_ne_nil nonempty
    have first := ascii c (List.mem_cons_self ..)
    exact ⟨ofName?_of_isDigit first rest, stackOperand?_of_isDigit first rest⟩
  simp [readTrimmed, nonempty, unbracketed, unnamed, hexBody?_of_digits ascii, List.all_eq_true.mpr all, value]

theorem number?_marked {mark : Char} {digits : List Char} (marked : mark = 'x' ∨ mark = 'X') :
    number? ('0' :: mark :: digits) = word? 16 digits := by
  obtain rfl | rfl := marked <;> rfl

/-- A number behind the mark of a hexadecimal number is read as an address. -/
theorem readTrimmed_marked {mark : Char} {digits : List Char} {word : Word} (marked : mark = 'x' ∨ mark = 'X')
    (value : word? 16 digits = some word) : readTrimmed ('0' :: mark :: digits) = .ok (.address word) := by
  have unnamed : Register.ofName? ('0' :: mark :: digits) = none := ofName?_of_isDigit (by decide) _
  have noStack : stackOperand? ('0' :: mark :: digits) = none := stackOperand?_of_isDigit (by decide) _
  have unbracketed : bracketed? ('0' :: mark :: digits) = none := rfl
  have isMarked : (hexBody? ('0' :: mark :: digits)).isSome = true := by obtain rfl | rfl := marked <;> rfl
  simp [readTrimmed, unbracketed, unnamed, noStack, isMarked, number?_marked marked, value]

/-- What brackets make is decided by what stands between them. -/
theorem readTrimmed_bracketed {inner : List Char} {operand : Operand}
    (inside : readInside? (trim inner) = some operand) :
    readTrimmed ('[' :: (inner ++ [']'])) = .ok operand := by
  have brackets : bracketed? ('[' :: (inner ++ [']'])) = some inner := by simp [bracketed?]
  rw [readTrimmed, if_neg (by simp), brackets]
  simp only [inside]
  rfl

/-- A number in brackets is read as a place in memory. -/
theorem readInside?_number {text : List Char} {word : Word} (begins : ∀ c ∈ text.head?, c.isDigit = true)
    (value : number? text = some word) : readInside? text = some (.memory word) := by
  have unnamed : Register.ofName? text = none := by
    cases text with
    | nil => rfl
    | cons c rest => exact ofName?_of_isDigit (begins c rfl) rest
  simp [readInside?, unnamed, value]

end Numbers

end Operand

end Dcpu
