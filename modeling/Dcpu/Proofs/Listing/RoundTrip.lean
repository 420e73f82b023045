import Dcpu.Proofs.Codegen.Labels
import Dcpu.Proofs.Listing.Printing

/-! # Which listings are read back

A listing is read from its text exactly if the names in it can be told from what surrounds them: a
label line is cut at line feeds and semicolons and trimmed, and an operand is a label only if it is
nothing else. Whatever a text is read as has such names, because reading has cut and trimmed them. Such a
listing is then read from every text that it can be formatted as.
-/

namespace Dcpu

open Text

/-- A name that a label line can carry: there is no blank at its ends, and nothing inside ends a line. -/
structure Line.IsName (name : String) : Prop where
  nonempty : name ≠ ""
  first : ∀ c ∈ name.toList.head?, isBlank c = false
  last : ∀ c ∈ name.toList.getLast?, isBlank c = false
  unbroken : '\n' ∉ name.toList
  uncommented : ';' ∉ name.toList

/-- A name that an operand can carry: alphanumeric characters and underscores that in no case of letters
make up a register or a stack operand, do not begin like a hexadecimal number, and are no decimal number. -/
structure Operand.IsName (name : String) : Prop where
  nonempty : name ≠ ""
  parts : ∀ c ∈ name.toList, isAlphanumeric c = true ∨ c = '_'
  noRegister : ∀ r : Register, name.toLower ≠ r.text.toLower
  noStack : name.toUpper ≠ "PUSH" ∧ name.toUpper ≠ "POP"
  noHexadecimal : ¬ ['0', 'x'] <+: name.toList ∧ ¬ ['0', 'X'] <+: name.toList
  noDecimal : ∃ c ∈ name.toList, c.isDigit = false

/-- Whether the labels that a listing defines and those that it names survive printing. -/
structure Listing.IsWellFormed (listing : Listing) : Prop where
  defined : ∀ name ∈ listing.labels, Line.IsName name
  named : ∀ name ∈ listing.targets, Operand.IsName name

namespace Operand

variable {text : List Char} {name : String}

theorem ofName?_eq_none_iff :
    Register.ofName? name.toList = none ↔ ∀ r : Register, name.toLower ≠ r.text.toLower := by
  have all (r : Register) : r ∈ Register.all := by cases r <;> decide
  have spelled (r : Register) : name.toLower = r.text.toLower ↔
      r.text.toList.map Char.toLower = name.toList.map Char.toLower := by
    have lower (text : String) : text.toLower.toList = text.toList.map Char.toLower := String.toList_map
    rw [← String.toList_inj, lower, lower, eq_comm]
  simp only [Register.ofName?, List.find?_eq_none, all, true_imp_iff, beq_iff_eq, ne_eq, spelled]

/-- A name is that of a stack operand exactly when it is so in upper case. -/
theorem stackOperand?_eq_none_iff :
    stackOperand? name.toList = none ↔ name.toUpper ≠ "PUSH" ∧ name.toUpper ≠ "POP" := by
  have spelled (word : String) : name.toUpper = word ↔ name.toList.map Char.toUpper = word.toList := by
    rw [← String.toList_inj, String.toUpper, String.toList_map]
  rw [ne_eq, ne_eq, spelled, spelled, stackOperand?]
  split
  case isTrue isPush => simp [isPush]
  case isFalse notPush =>
    split
    case isTrue isPop => simp [isPop]
    case isFalse notPop => simpa using ⟨notPush, notPop⟩

theorem hexBody?_eq_none_iff : hexBody? text = none ↔ ¬ ['0', 'x'] <+: text ∧ ¬ ['0', 'X'] <+: text := by
  rw [hexBody?.eq_def]
  split
  case h_1 digits => simp
  case h_2 digits => simp
  case h_3 noLower noUpper =>
    simp only [true_iff]
    constructor
    · rintro ⟨digits, rfl⟩
      exact noLower digits rfl
    · rintro ⟨digits, rfl⟩
      exact noUpper digits rfl

/-- The names that an operand can carry are those that are read as labels. -/
theorem isName_iff : IsName name ↔ IsLabelText name.toList := by
  have empty : name ≠ "" ↔ name.toList ≠ [] := not_congr String.toList_eq_nil_iff.symm
  have parts : (∀ c ∈ name.toList, isAlphanumeric c = true ∨ c = '_') ↔
      ∀ c ∈ name.toList, isNamePart c = true := by
    simp only [isNamePart, Bool.or_eq_true, beq_iff_eq]
  have decimal : (∃ c ∈ name.toList, c.isDigit = false) ↔ name.toList.all (isDigit 10) = false := by
    simp only [List.all_eq_false, isDigit_ten, Bool.not_eq_true]
  constructor
  · intro isName
    exact ⟨empty.mp isName.nonempty, parts.mp isName.parts, ofName?_eq_none_iff.mpr isName.noRegister,
      stackOperand?_eq_none_iff.mpr isName.noStack, hexBody?_eq_none_iff.mpr isName.noHexadecimal,
      decimal.mp isName.noDecimal⟩
  · intro isLabel
    exact ⟨empty.mpr isLabel.nonempty, parts.mpr isLabel.parts, ofName?_eq_none_iff.mp isLabel.noRegister,
      stackOperand?_eq_none_iff.mp isLabel.noStack, hexBody?_eq_none_iff.mp isLabel.noMark,
      decimal.mpr isLabel.noDecimal⟩

/-- What is read as an operand is written as a text that is read as it. -/
theorem isLegible_of_read {operand : Operand} (reads : read text = .ok operand) : operand.IsLegible := by
  cases operand with
  | label name =>
    obtain ⟨isLabel, rfl⟩ := readTrimmed_eq_label_iff.mp reads
    rw [IsLegible, String.toList_ofList]
    exact isLabel
  | _ => trivial

end Operand

namespace Line

variable {text : List Char} {name : String} {line : Line}

/-- The names that a label line can carry are those that it is read with. -/
theorem isName_iff : IsName name ↔ (label name).IsLegible := by
  constructor
  · rintro ⟨nonempty, first, last, unbroken, uncommented⟩
    refine ⟨nonempty, trim_of_ends first last, fun c member => ⟨?_, ?_⟩⟩
    · rintro rfl
      exact unbroken member
    · rintro rfl
      exact uncommented member
  · rintro ⟨nonempty, trimmed, inner⟩
    refine ⟨nonempty, fun c begins => ?_, fun c ends => ?_, fun feed => ?_, fun semicolon => ?_⟩
    · exact isBlank_head?_trim (trimmed.symm ▸ begins)
    · exact isBlank_getLast?_trim (trimmed.symm ▸ ends)
    · exact (inner '\n' feed).1 rfl
    · exact (inner ';' semicolon).2 rfl

/-- An instruction is read from its text if the labels that it names are. -/
theorem isLegible_instruction_iff {body : Instruction} : (instruction body).IsLegible ↔
    ∀ name ∈ body.operands.filterMap Operand.label?, Operand.IsName name := by
  have single (operand : Operand) : operand.IsLegible ↔ ∀ name ∈ operand.label?, Operand.IsName name := by
    cases operand <;> simp [Operand.IsLegible, Operand.label?, Operand.isName_iff]
  cases body with
  | basic op b a =>
    rw [IsLegible, single, single]
    simp [Instruction.operands, List.filterMap_cons]
    grind
  | jsr target =>
    rw [IsLegible, single]
    simp [Instruction.operands, List.mem_filterMap]

/-- Operands that are read are legible. -/
theorem isLegible_of_readOperand {operand : Operand} (reads : readOperand text = .ok operand) :
    operand.IsLegible := by
  rw [readOperand] at reads
  cases found : Operand.read text with
  | error error => simp [found, Except.mapError] at reads
  | ok other =>
    rw [found] at reads
    cases reads
    exact Operand.isLegible_of_read found

theorem isLegible_of_readInstruction {mnemonic operands : List Char} {body : Instruction}
    (reads : readInstruction mnemonic operands = .ok body) : (instruction body).IsLegible := by
  rw [readInstruction] at reads
  split at reads
  case isTrue =>
    cases target : readOperand operands with
    | error error =>
      rw [target] at reads
      cases reads
    | ok operand =>
      rw [target] at reads
      cases reads
      exact isLegible_of_readOperand target
  case isFalse =>
    split at reads
    case h_1 => cases reads
    case h_2 op _ =>
      split at reads
      case h_1 => cases reads
      case h_2 second _ =>
        cases destination : readOperand (operands.takeWhile (· != ',')) with
        | error error =>
          rw [destination] at reads
          cases reads
        | ok b =>
          cases source : readOperand second with
          | error error =>
            rw [destination, source] at reads
            cases reads
          | ok a =>
            rw [destination, source] at reads
            cases reads
            exact ⟨isLegible_of_readOperand destination, isLegible_of_readOperand source⟩

/-- A line that is read from characters that can stand inside a line is written as a text that is read
as it. -/
theorem isLegible_of_readTrimmed (inner : ∀ c ∈ text, isInner c = true) (reads : readTrimmed text = .ok line) :
    line.IsLegible := by
  rw [readTrimmed.eq_def] at reads
  split at reads
  case h_1 rest =>
    dsimp only at reads
    split at reads
    case isTrue => cases reads
    case isFalse nonempty =>
      cases reads
      refine ⟨?_, ?_, fun c member => ?_⟩
      · simpa using nonempty
      · simp only [String.toList_ofList, trim_trim]
      · rw [String.toList_ofList] at member
        simpa [isInner] using inner c (List.mem_cons_of_mem _ (mem_of_mem_trim member))
  case h_2 =>
    cases found : readInstruction (text.takeWhile (!isBlank ·)) (trim (text.dropWhile (!isBlank ·))) with
    | error error =>
      simp only [found] at reads
      cases reads
    | ok body =>
      simp only [found] at reads
      cases reads
      exact isLegible_of_readInstruction found

end Line

namespace Listing

variable {listing : Listing}

/-- A listing is legible exactly when it is well-formed. -/
theorem isLegible_iff : listing.IsLegible ↔ listing.IsWellFormed := by
  constructor
  · intro legible
    refine ⟨fun name member => ?_, fun name member => ?_⟩
    · obtain ⟨line, isLine, isLabel⟩ := List.mem_filterMap.mp member
      cases line with
      | label other =>
        cases isLabel
        exact Line.isName_iff.mpr (legible _ isLine)
      | instruction body => cases isLabel
    · obtain ⟨body, isBody, isNamed⟩ := List.mem_flatMap.mp member
      obtain ⟨line, isLine, isInstruction⟩ := List.mem_filterMap.mp isBody
      cases line with
      | label other => cases isInstruction
      | instruction other =>
        cases isInstruction
        exact Line.isLegible_instruction_iff.mp (legible _ isLine) name isNamed
  · intro wellFormed line isLine
    cases line with
    | label name => exact Line.isName_iff.mp (wellFormed.defined name (List.mem_filterMap.mpr ⟨_, isLine, rfl⟩))
    | instruction body =>
      refine Line.isLegible_instruction_iff.mpr fun name isNamed => wellFormed.named name ?_
      exact List.mem_flatMap.mpr ⟨body, List.mem_filterMap.mpr ⟨_, isLine, rfl⟩, isNamed⟩

/-- The pieces that a text is split into have no line feeds in them. -/
theorem unbroken_of_mem_splitLines {text line : List Char} (member : line ∈ splitLines text) :
    '\n' ∉ line := by
  induction text generalizing line with
  | nil =>
    rw [List.mem_singleton.mp member]
    exact List.not_mem_nil
  | cons c text ih =>
    have step : splitLines (c :: text) = consChar c (splitLines text) := rfl
    obtain ⟨first, lines, split⟩ := List.exists_cons_of_ne_nil (splitLines_ne_nil text)
    have behind (other : List Char) (isOther : other ∈ first :: lines) : '\n' ∉ other := ih (split ▸ isOther)
    rw [step, split, consChar] at member
    split at member
    case isTrue =>
      obtain rfl | isOther := List.mem_cons.mp member
      · exact List.not_mem_nil
      · exact behind line isOther
    case isFalse noFeed =>
      obtain rfl | isOther := List.mem_cons.mp member
      · exact fun feed => (List.mem_cons.mp feed).elim (Ne.symm noFeed) (behind first (List.mem_cons_self ..))
      · exact behind line (List.mem_cons_of_mem _ isOther)

/-- Comments are cut off, so what is left of an unbroken line can stand inside a line. -/
theorem isInner_of_mem_code {line : List Char} (unbroken : '\n' ∉ line) {c : Char} (member : c ∈ code line) :
    Line.isInner c = true := by
  have kept := mem_of_mem_trim member
  have noComment := List.mem_takeWhile_imp kept
  have noFeed : c ≠ '\n' := by
    rintro rfl
    exact unbroken ((List.takeWhile_prefix _).subset kept)
  rw [Line.isInner, noComment, Bool.and_true, bne_iff_ne]
  exact noFeed

theorem isLegible_of_readLines {number : Nat} {lines : List (List Char)} {done : Array Line}
    (unbroken : ∀ line ∈ lines, '\n' ∉ line) (legible : IsLegible done.toList)
    (reads : readLines number lines done = .ok listing) : listing.IsLegible := by
  induction lines generalizing number done with
  | nil =>
    cases reads
    exact legible
  | cons line lines ih =>
    obtain ⟨first, others⟩ := List.forall_mem_cons.mp unbroken
    rw [readLines] at reads
    split at reads
    case isTrue => exact ih others legible reads
    case isFalse =>
      cases found : Line.readTrimmed (code line) with
      | error error =>
        rw [found] at reads
        cases reads
      | ok read =>
        rw [found] at reads
        refine ih others (fun other member => ?_) reads
        rw [Array.toList_push] at member
        obtain before | isRead := List.mem_append.mp member
        · exact legible other before
        · rw [List.mem_singleton.mp isRead]
          exact Line.isLegible_of_readTrimmed (fun c => isInner_of_mem_code first) found

/-- What a text is read as is legible. -/
theorem isLegible_of_read {text : String} (reads : read text = .ok listing) : listing.IsLegible :=
  isLegible_of_readLines (fun _ => unbroken_of_mem_splitLines) (fun _ member => absurd member List.not_mem_nil) reads

/-- A listing is read from its text exactly if it is well formed, and every listing that is read from any
text is, so that it is read again when it is printed. -/
theorem read_text_iff_isWellFormed :
    (∀ listing : Listing, read listing.text = .ok listing ↔ listing.IsWellFormed) ∧
      ∀ (text : String) (listing : Listing), read text = .ok listing →
        listing.IsWellFormed ∧ read listing.text = .ok listing := by
  refine ⟨fun listing => ⟨fun reads => ?_, fun wellFormed => ?_⟩, fun text listing reads => ⟨?_, ?_⟩⟩
  · exact isLegible_iff.mp (isLegible_of_read reads)
  · exact read_text (isLegible_iff.mpr wellFormed)
  · exact isLegible_iff.mp (isLegible_of_read reads)
  · exact read_text (isLegible_of_read reads)

/-- Blanks around a label go and those inside stay, a comment goes, and the case of letters is free. -/
theorem read_text_iff_isWellFormed_untidy :
    read " :my  label ; here\n\nSET\tPC , my_label\r\n" =
        .ok [.label "my  label", .jump "my_label"] ∧
      IsWellFormed [.label "my  label", .jump "my_label"] ∧
      read (text [.label "my  label", .jump "my_label"]) = .ok [.label "my  label", .jump "my_label"] ∧
      ¬ IsWellFormed [.label "my  label", .jump "0x"] := by
  have reads : read " :my  label ; here\n\nSET\tPC , my_label\r\n" =
      .ok [.label "my  label", .jump "my_label"] := by decide +kernel
  obtain ⟨wellFormed, again⟩ := read_text_iff_isWellFormed.2 _ _ reads
  refine ⟨reads, wellFormed, again, ?_⟩
  rw [← read_text_iff_isWellFormed.1]
  decide +kernel

/-- Formatting is free: the plain text of a listing is one of the texts that it can be formatted as, and a
listing that is read from its plain text is read from all of them. -/
theorem read_ignores_formatting :
    (∀ listing : Listing, listing.Formatted listing.text.toList) ∧
      ∀ (listing : Listing) (text : String), read listing.text = .ok listing →
        listing.Formatted text.toList → read text = .ok listing := by
  refine ⟨formatted_text, fun listing text reads formatted => ?_⟩
  rw [← String.ofList_toList (s := text)]
  exact read_of_formatted (isLegible_of_read reads) formatted

/-- Letters of both cases, numbers behind zeros, blanks of several kinds, comments with and without a line
before them, a blank line, and both ends of lines. -/
theorem read_ignores_formatting_decorated :
    read (text [.label "loop", .set (.memory 0xff) .push, .jsr "loop"]) =
        .ok [.label "loop", .set (.memory 0xff) .push, .jsr "loop"] ∧
      Formatted [.label "loop", .set (.memory 0xff) .push, .jsr "loop"]
        " : loop ; here\r\n\nSeT\t[ 0X00fF ] ,\tPuSh\n;again\r\nJSR  loop".toList ∧
      read " : loop ; here\r\n\nSeT\t[ 0X00fF ] ,\tPuSh\n;again\r\nJSR  loop" =
        .ok [.label "loop", .set (.memory 0xff) .push, .jsr "loop"] := by
  have reads : read (text [.label "loop", .set (.memory 0xff) .push, .jsr "loop"]) =
      .ok [.label "loop", .set (.memory 0xff) .push, .jsr "loop"] := by decide +kernel
  have space : IsPadding [' '] := List.forall_mem_singleton.mpr (by decide)
  have tab : IsPadding ['\t'] := List.forall_mem_singleton.mpr (by decide)
  have spaces : IsPadding [' ', ' '] := List.forall_mem_cons.mpr ⟨by decide, space⟩
  have set : IsCaseOf ['S', 'e', 'T'] Opcode.set.mnemonic.toList := by simp [IsCaseOf, Opcode.mnemonic]
  have push : IsCaseOf ['P', 'u', 'S', 'h'] "PUSH".toList := by simp [IsCaseOf]
  have jsr : IsCaseOf ['J', 'S', 'R'] "jsr".toList := by simp [IsCaseOf]
  have number : Operand.IsNumber 0xff ['0', 'X', '0', '0', 'f', 'F'] :=
    .hexadecimal (.inr rfl) ⟨by decide, List.all_eq_true.mp (by decide), by decide⟩
  have loop : (Operand.label "loop").Formatted "loop".toList := .label
  have label : (Line.label "loop").Formatted (':' :: ' ' :: "loop".toList) := .label space
  have labelRow := Row.line space label space (.inr ⟨" here".toList, by decide, rfl⟩)
  have setRow := Row.line isPadding_nil
    (.basic set (by decide) tab (.memory space number space) space tab (.push push)) isPadding_nil (.inl rfl)
  have jsrRow := Row.line isPadding_nil (.jsr jsr (by decide) spaces loop) isPadding_nil (.inl rfl)
  have formatted := Formatted.cons labelRow (.inr rfl) (.cons (.blank isPadding_nil (.inl rfl)) (.inl rfl)
    (.cons setRow (.inl rfl) (.cons (.blank isPadding_nil (.inr ⟨"again".toList, by decide, rfl⟩)) (.inr rfl)
      (.last jsrRow))))
  exact ⟨reads, formatted, read_ignores_formatting.2 _ _ reads formatted⟩

end Listing

end Dcpu
