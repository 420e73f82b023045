import Dcpu.Word
import Mathlib.Tactic.Common

/-! # Written numbers are read back

The decimal digits of a number and the hexadecimal digits of a word are read as the number they were
written for.
-/

namespace Dcpu

namespace Text

theorem isDigit_iff (c : Char) : c.isDigit = true ↔ '0' ≤ c ∧ c ≤ '9' := by
  simp [Char.isDigit, Char.le_def]

theorem digit?_of_isDigit {c : Char} (digit : c.isDigit = true) :
    digit? 10 c = some (c.toNat - '0'.toNat) := by
  have range := (isDigit_iff c).mp digit
  have small : c.toNat - '0'.toNat < 10 := by
    have atMost : c.toNat ≤ '9'.toNat := range.2
    have nine : '9'.toNat = 57 := rfl
    have zero : '0'.toNat = 48 := rfl
    omega
  simp only [digit?, if_pos range, if_pos small]

/-- The digits of base ten are the ASCII digits. -/
theorem isDigit_ten (c : Char) : isDigit 10 c = c.isDigit := by
  cases digit : c.isDigit with
  | true => simp [isDigit, digit?_of_isDigit digit]
  | false =>
    have range : ¬ ('0' ≤ c ∧ c ≤ '9') := by
      rw [← isDigit_iff, digit]
      exact Bool.false_ne_true
    rw [isDigit, digit?, if_neg range]
    split
    · simp
    · split <;> simp

theorem isDigit_of_mem_toDigits {number : Nat} {c : Char} (member : c ∈ Nat.toDigits 10 number) :
    isDigit 10 c = true := by
  rw [isDigit_ten]
  exact Nat.isDigit_of_mem_toDigits (by decide) (by decide) member

/-- Decimal digits are read as the library reads them. -/
theorem foldlM_digit? {digits : List Char} (all : ∀ c ∈ digits, c.isDigit = true) (value : Nat) :
    digits.foldlM (fun value c => (digit? 10 c).map (value * 10 + ·)) value =
      some (Nat.ofDigitChars 10 digits value) := by
  induction digits generalizing value with
  | nil => rfl
  | cons c digits ih =>
    obtain ⟨first, rest⟩ := List.forall_mem_cons.mp all
    rw [List.foldlM_cons, digit?_of_isDigit first, Nat.ofDigitChars_cons, Nat.mul_comm 10 value]
    exact ih rest _

theorem digits?_toDigits (number : Nat) : digits? 10 (Nat.toDigits 10 number) = some number := by
  have all : ∀ c ∈ Nat.toDigits 10 number, c.isDigit = true := fun _ member =>
    Nat.isDigit_of_mem_toDigits (by decide) (by decide) member
  rw [digits?, if_neg (by simp [Nat.toDigits_ne_nil]), foldlM_digit? all,
    Nat.ofDigitChars_toDigits (by decide) (by decide)]

theorem unsigned?_of_head {base : Nat} {c : Char} {rest : List Char} (unsigned : c ≠ '+') :
    unsigned? base (c :: rest) = digits? base (c :: rest) := by
  rw [unsigned?]
  intro _ same
  exact unsigned (List.cons.inj same).1

end Text

namespace Word

open Text

/-- Each hexadecimal digit is read as its value. -/
theorem digit?_digitChar {value : Nat} (small : value < 16) :
    digit? 16 (Nat.digitChar value) = some value := by
  decide +revert

theorem ofNat?_toNat (word : Word) : ofNat? word.toNat = some word := by
  have small : word.toNat < UInt16.size := word.toNat_lt
  rw [ofNat?, if_pos small, UInt16.ofNat_toNat]

/-- The four digits of a word are read as its value. -/
theorem digits?_hexDigits (word : Word) : digits? 16 word.hexDigits = some word.toNat := by
  have small : word.toNat < 65536 := word.toNat_lt
  simp only [digits?, hexDigits, List.map_cons, List.map_nil, List.isEmpty_cons, Bool.false_eq_true,
    if_false, List.foldlM_cons, List.foldlM_nil, digit?_digitChar (Nat.mod_lt _ (by decide : 0 < 16)),
    Option.map_some, Option.bind_eq_bind, Option.bind_some, Option.pure_def, Nat.shiftRight_eq_div_pow]
  congr 1
  omega

end Word

end Dcpu
