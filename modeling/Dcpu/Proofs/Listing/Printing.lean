import Dcpu.Proofs.Listing.Formatting
import Mathlib.Data.List.Forall2

/-! # Written listings are read back

The text of a listing is one that the listing can be formatted as, so a listing is read from its text if
the labels in it are legible.
-/

namespace Dcpu

open Text

namespace Text

/-- No character changes in both cases. -/
theorem eq_toLower_or_eq_toUpper (c : Char) : c = c.toLower ∨ c = c.toUpper := by
  by_cases lower : 'a'.val ≤ c.val ∧ c.val ≤ 'z'.val
  · have notUpper : ¬ (c.val ≥ 'A'.val ∧ c.val ≤ 'Z'.val) := by
      rintro ⟨_, atMost⟩
      exact absurd (UInt32.le_trans lower.1 atMost) (by decide)
    left
    delta Char.toLower
    rw [dif_neg notUpper]
  · right
    delta Char.toUpper
    rw [dif_neg lower]

theorem isCaseOf_self (word : List Char) : IsCaseOf word word :=
  List.forall₂_same.mpr fun c _ => eq_toLower_or_eq_toUpper c

/-- The digits that are printed of a word in base sixteen are a numeral of it. -/
theorem isNumeral_hexDigits (word : Word) : IsNumeral 16 word.hexDigits word := by
  obtain ⟨nonempty, digits, value⟩ := Source.digits?_eq_some word.digits?_hexDigits
  exact ⟨nonempty, digits, value⟩

theorem isNumeral_toDigits (word : Word) : IsNumeral 10 (Nat.toDigits 10 word.toNat) word := by
  obtain ⟨nonempty, digits, value⟩ := Source.digits?_eq_some (digits?_toDigits word.toNat)
  exact ⟨nonempty, digits, value⟩

end Text

namespace Operand

theorem toList_text_indirect (r : Register) :
    (indirect r).text.toList = '[' :: (r.text.toList ++ [']']) := by
  change ("[" ++ r.text ++ "]").toList = _
  simp

theorem toList_text_memory (word : Word) :
    (memory word).text.toList = '[' :: ('0' :: 'x' :: word.hexDigits ++ [']']) := by
  change ("[" ++ word.hex ++ "]").toList = _
  simp [Word.hex]

theorem toList_text_address (word : Word) : (address word).text.toList = '0' :: 'x' :: word.hexDigits :=
  String.toList_ofList

theorem toList_text_literal (word : Word) : (literal word).text.toList = Nat.toDigits 10 word.toNat := by
  simp [text, Nat.toString_eq_repr]

theorem formatted_text (operand : Operand) : operand.Formatted operand.text.toList := by
  cases operand with
  | register r => exact .register (isCaseOf_self _)
  | indirect r =>
    rw [toList_text_indirect]
    simpa using Formatted.indirect isPadding_nil (isCaseOf_self _) isPadding_nil
  | memory word =>
    rw [toList_text_memory]
    simpa using Formatted.memory isPadding_nil (.hexadecimal (.inl rfl) (isNumeral_hexDigits word)) isPadding_nil
  | address word =>
    rw [toList_text_address]
    exact .address (.inl rfl) (isNumeral_hexDigits word)
  | literal word =>
    rw [toList_text_literal]
    exact .literal (isNumeral_toDigits word)
  | label name => exact .label
  | push => exact .push (isCaseOf_self _)
  | pop => exact .pop (isCaseOf_self _)

end Operand

namespace Line

theorem toList_text_label (name : String) : (label name).text.toList = ':' :: name.toList := by
  change (":" ++ name).toList = _
  simp

theorem toList_text_basic (op : Opcode) (b a : Operand) :
    (instruction (.basic op b a)).text.toList =
      op.mnemonic.toList ++ ' ' :: (b.text.toList ++ ',' :: ' ' :: a.text.toList) := by
  change (op.mnemonic ++ " " ++ b.text ++ ", " ++ a.text).toList = _
  simp

theorem toList_text_jsr (target : Operand) :
    (instruction (.jsr target)).text.toList = "jsr".toList ++ ' ' :: target.text.toList := by
  change ("jsr " ++ target.text).toList = _
  simp

theorem formatted_text (line : Line) : line.Formatted line.text.toList := by
  have space : IsPadding [' '] := List.forall_mem_singleton.mpr (by decide)
  cases line with
  | label name =>
    rw [toList_text_label]
    simpa using Formatted.label isPadding_nil
  | instruction body =>
    cases body with
    | basic op b a =>
      rw [toList_text_basic]
      simpa using Formatted.basic (isCaseOf_self _) (List.cons_ne_nil ' ' []) space b.formatted_text isPadding_nil space
        a.formatted_text
    | jsr target =>
      rw [toList_text_jsr]
      simpa using Formatted.jsr (isCaseOf_self _) (List.cons_ne_nil ' ' []) space target.formatted_text

end Line

namespace Listing

variable {listing : Listing}

/-- The text of a listing is one that the listing can be formatted as. -/
theorem formatted_text (listing : Listing) : listing.Formatted listing.text.toList := by
  have row (line : Line) : Row [line] line.text.toList := by
    simpa using Row.line isPadding_nil line.formatted_text isPadding_nil (.inl rfl)
  have joined (listing : Listing) : listing.text.toList =
      List.intercalate ['\n'] (listing.map (·.text.toList)) := by
    simp [text, String.toList_intercalate, Function.comp_def]
  rw [joined]
  induction listing with
  | nil => exact .last (.blank isPadding_nil (.inl rfl)) -- the empty text has one row, which is blank
  | cons line listing ih =>
    cases listing with
    | nil => simpa using Formatted.last (row line)
    | cons next listing => simpa [List.intercalate_cons_cons] using Formatted.cons (row line) (.inl rfl) ih

/-- A listing is read from its text. -/
theorem read_text (legible : listing.IsLegible) : read listing.text = .ok listing := by
  rw [← String.ofList_toList (s := listing.text)]
  exact read_of_formatted legible listing.formatted_text

end Listing

end Dcpu
