import Dcpu.Proofs.Text.Numerals
import Dcpu.Text.Blank
import Dcpu.Text.Name
import Mathlib.Data.List.Basic
import Mathlib.Data.List.DropRight

/-! # Characters of names are no blanks

The tables of blanks and of alphabetic and numeric characters have nothing in common, so a name has
no blanks to be trimmed or split at. A text is trimmed to itself if it neither begins nor ends with a
blank.
-/

namespace Dcpu.Text

namespace Ranges

/-- Whether no range of one table meets a range of another. -/
def areApart (first second : Ranges) : Bool :=
  List.all first fun range => List.all second fun other => range.2 < other.1 || other.2 < range.1

theorem exists_of_has {code : Nat} {ranges : Ranges} (has : ranges.has code = true) :
    ∃ range, List.Mem range ranges ∧ range.1 ≤ code ∧ code ≤ range.2 := by
  induction ranges with
  | nil => cases has
  | cons range above ih =>
    obtain ⟨low, high⟩ := range
    simp only [Ranges.has, Bool.and_eq_true, decide_eq_true_eq, Bool.or_eq_true] at has
    obtain ⟨atLeast, atMost | further⟩ := has
    · exact ⟨(low, high), .head _, atLeast, atMost⟩
    · obtain ⟨range, member, within⟩ := ih further
      exact ⟨range, .tail _ member, within⟩

/-- Two tables whose ranges lie apart have no character in common. -/
theorem not_covers_of_areApart {first second : Ranges} (apart : first.areApart second = true) {c : Char}
    (covered : first.covers c = true) : second.covers c = false := by
  rw [Bool.eq_false_iff]
  intro alsoCovered
  obtain ⟨range, member, atLeast, atMost⟩ := exists_of_has covered
  obtain ⟨other, otherMember, otherAtLeast, otherAtMost⟩ := exists_of_has alsoCovered
  have between := List.all_eq_true.mp (List.all_eq_true.mp apart range member) other otherMember
  simp only [Bool.or_eq_true, decide_eq_true_eq] at between
  omega

end Ranges

theorem isBlank_of_isNamePart {c : Char} (part : isNamePart c = true) : isBlank c = false := by
  simp only [isNamePart, isAlphanumeric, Bool.or_eq_true, beq_iff_eq] at part
  obtain (alphabetic | numeric) | rfl := part
  · exact Ranges.not_covers_of_areApart (by decide +kernel) alphabetic
  · exact Ranges.not_covers_of_areApart (by decide +kernel) numeric
  · decide

theorem isNamePart_of_isDigit {c : Char} (digit : isDigit 10 c = true) : isNamePart c = true := by
  rw [isDigit_ten, isDigit_iff] at digit
  obtain ⟨atLeast, atMost⟩ := digit
  have low : 0x30 ≤ c.toNat := atLeast
  have high : c.toNat ≤ 0x39 := atMost
  have numeric : isNumeric c = true := by
    have table : numericRanges = (0x30, 0x39) :: List.tail numericRanges := rfl
    rw [isNumeric, Ranges.covers, table, Ranges.has]
    simp only [low, high, decide_true, Bool.true_and, Bool.true_or]
  simp [isNamePart, isAlphanumeric, numeric]

section Trim

variable {text : List Char}

/-- A text that neither begins nor ends with a blank is trimmed to itself. -/
theorem trim_of_ends (first : ∀ c ∈ text.head?, isBlank c = false)
    (last : ∀ c ∈ text.getLast?, isBlank c = false) : trim text = text := by
  have left : text.dropWhile isBlank = text := by
    cases text with
    | nil => rfl
    | cons c rest => exact List.dropWhile_cons_of_neg (by simp [first c rfl])
  have right : text.reverse.dropWhile isBlank = text.reverse := by
    rw [List.getLast?_eq_head?_reverse] at last
    cases reversed : text.reverse with
    | nil => rfl
    | cons c rest => exact List.dropWhile_cons_of_neg (by simp [last c (by rw [reversed]; rfl)])
  rw [trim, left, trimRight, right, List.reverse_reverse]

theorem trim_of_unblank (unblank : ∀ c ∈ text, isBlank c = false) : trim text = text :=
  trim_of_ends (fun c first => unblank c (List.mem_of_head? first))
    fun c last => unblank c (List.mem_of_getLast? last)

/-- What is trimmed does not end with a blank. -/
theorem isBlank_getLast?_trim {c : Char} (last : c ∈ (trim text).getLast?) : isBlank c = false := by
  rw [trim, trimRight, List.getLast?_reverse, Option.mem_def] at last
  have first := List.head?_dropWhile_not isBlank (text.dropWhile isBlank).reverse
  rw [last] at first
  simpa using first

theorem trim_prefix_dropWhile (text : List Char) : trim text <+: text.dropWhile isBlank :=
  List.rdropWhile_prefix isBlank _

theorem mem_of_mem_trim {c : Char} (member : c ∈ trim text) : c ∈ text :=
  (List.dropWhile_sublist isBlank).subset ((trim_prefix_dropWhile text).subset member)

/-- What is trimmed does not begin with a blank. -/
theorem isBlank_head?_trim {c : Char} (begins : c ∈ (trim text).head?) : isBlank c = false := by
  obtain ⟨rest, trimmed⟩ := List.head?_eq_some_iff.mp begins
  obtain ⟨blanks, whole⟩ := trim_prefix_dropWhile text
  rw [trimmed, List.cons_append] at whole
  have first := List.head?_dropWhile_not isBlank text
  rw [← whole] at first
  exact first

theorem trim_trim (text : List Char) : trim (trim text) = trim text :=
  trim_of_ends (fun _ => isBlank_head?_trim) fun _ => isBlank_getLast?_trim

/-- A text is what it is trimmed to, with the blanks at its two ends. -/
theorem exists_blanks_trim (text : List Char) :
    ∃ right, (∀ c ∈ right, isBlank c = true) ∧ text = text.takeWhile isBlank ++ trim text ++ right := by
  let blanks := ((text.dropWhile isBlank).reverse.takeWhile isBlank).reverse
  have ends : text.dropWhile isBlank = trim text ++ blanks := by
    rw [trim, trimRight, ← List.reverse_append, List.takeWhile_append_dropWhile, List.reverse_reverse]
  refine ⟨blanks, fun c member => List.mem_takeWhile_imp (List.mem_reverse.mp member), ?_⟩
  rw [List.append_assoc, ← ends, List.takeWhile_append_dropWhile]

/-- A text that begins and ends with trimmed texts is trimmed to itself. -/
theorem trim_between {first last : List Char} (firstNonempty : first ≠ []) (firstTrimmed : trim first = first)
    (middle : List Char) (lastNonempty : last ≠ []) (lastTrimmed : trim last = last) :
    trim (first ++ middle ++ last) = first ++ middle ++ last := by
  apply trim_of_ends
  · intro c head
    rw [List.append_assoc, List.head?_append_of_ne_nil _ firstNonempty, ← firstTrimmed] at head
    exact isBlank_head?_trim head
  · intro c final
    rw [List.getLast?_append_of_ne_nil _ lastNonempty, ← lastTrimmed] at final
    exact isBlank_getLast?_trim final

/-- Blanks around a trimmed text are trimmed away. -/
theorem trim_padded {left right : List Char} (leftBlank : ∀ c ∈ left, isBlank c = true)
    (rightBlank : ∀ c ∈ right, isBlank c = true) (trimmed : trim text = text) :
    trim (left ++ text ++ right) = text := by
  have begins : (text ++ right).dropWhile isBlank = text ++ right ∨ text = [] := by
    cases text with
    | nil => exact .inr rfl
    | cons c rest =>
      have first : c ∈ (trim (c :: rest)).head? := by rw [trimmed]; rfl
      exact .inl (List.dropWhile_cons_of_neg (by simp [isBlank_head?_trim first]))
  have ends : trimRight (text ++ right) = text := by
    have last : text.reverse.dropWhile isBlank = text.reverse := by
      cases reversed : text.reverse with
      | nil => rfl
      | cons c rest =>
        have final : c ∈ (trim text).getLast? := by
          rw [trimmed, List.getLast?_eq_head?_reverse, reversed]
          rfl
        exact List.dropWhile_cons_of_neg (by simp [isBlank_getLast?_trim final])
    rw [trimRight, List.reverse_append, List.dropWhile_append_of_pos (by simpa using rightBlank), last,
      List.reverse_reverse]
  rw [trim, List.append_assoc, List.dropWhile_append_of_pos leftBlank]
  obtain unchanged | rfl := begins
  · rw [unchanged, ends]
  · have nothing : right.dropWhile isBlank = [] := List.dropWhile_eq_nil_iff.mpr rightBlank
    rw [List.nil_append, nothing]
    rfl

end Trim

end Dcpu.Text
