import Dcpu.Proofs.Effects
import Dcpu.Proofs.Grammar.Marks
import Dcpu.Proofs.Source.Placement
import Dcpu.Source.Statement
import Mathlib.Data.List.TakeWhile

/-! # Trees are read in their places

Every reader takes tokens from the front of a stream, and the tree that it reads stands in its place among them.
Where reading fails, the error is blamed on the position of a token, or on the place where the input ends.
-/

namespace Dcpu.Source

open Effects

/-- The next token. Behind the last one stands the end of the input. -/
def Stream.next (stream : Stream) : Token :=
  stream.tokens.head?.getD ⟨.endOfInput, 0, stream.stop⟩

/-- All positions of a stream, with that of its end, are among the good ones. -/
def Stream.Within (good : Position → Prop) (stream : Stream) : Prop :=
  (∀ token ∈ stream.tokens, good token.position) ∧ good stream.stop

section Streams

variable {good : Position → Prop} {stream : Stream}

theorem Stream.kind_eq (stream : Stream) : stream.kind = stream.next.kind := by
  rw [kind, next]
  cases stream.tokens.head? with
  | none | some => rfl

theorem Stream.position_eq (stream : Stream) : stream.position = stream.next.position := by
  rw [position, next]
  cases stream.tokens.head? with
  | none | some => rfl

theorem Stream.tokens_eq_cons (inside : stream.next.kind ≠ .endOfInput) :
    stream.tokens = stream.next :: stream.drop.tokens := by
  rw [next, drop] at *
  cases tokens : stream.tokens with
  | nil => simp [tokens] at inside
  | cons token more => rfl

theorem Stream.Within.next (within : stream.Within good) : good stream.next.position := by
  rw [Stream.next]
  cases tokens : stream.tokens with
  | nil => exact within.2
  | cons token more => exact within.1 token (by simp [tokens])

end Streams

/-- Whether an error is one of the characters of a source text. -/
def isLexical : CompileError → Bool
  | .number .. | .unexpectedCharacter .. => true
  | _ => false

namespace Reader

variable {α β : Type} {good : Position → Prop} {token : Token} {text : List Token → α → Prop}
  {longer : List Token → β → Prop}

/-- What comes of reading a stream: a value with the tokens that are taken for it, or an error with a good
position that is none of characters. -/
def Placing (good : Position → Prop) (stream : Stream) (text : List Token → α → Prop) :
    EStateM.Result CompileError Stream α → Prop
  | .ok value rest => ∃ taken, stream.tokens = taken ++ rest.tokens ∧ rest.stop = stream.stop ∧ text taken value
  | .error error _ => isLexical error = false ∧ ∃ position, error.position? = some position ∧ good position

/-- Before the given token, a reader takes the tokens of what it reads, or blames a good position. -/
def PlacesAt (good : Position → Prop) (token : Token) (text : List Token → α → Prop) (reader : Reader α) : Prop :=
  ∀ ⦃stream : Stream⦄, stream.Within good → stream.next = token → Placing good stream text (reader stream)

/-- A reader takes the tokens of what it reads, or blames a good position. -/
def Places (good : Position → Prop) (text : List Token → α → Prop) (reader : Reader α) : Prop :=
  ∀ token, reader.PlacesAt good token text

/-- What is read behind tokens that are taken comes of the whole stream. -/
theorem Placing.behind {stream rest : Stream} {taken : List Token} {result : EStateM.Result CompileError Stream α}
    {whole : List Token → α → Prop} (placing : Placing good rest text result)
    (split : stream.tokens = taken ++ rest.tokens) (stop : rest.stop = stream.stop)
    (implies : ∀ more value, more <+: rest.tokens → text more value → whole (taken ++ more) value) :
    Placing good stream whole result := by
  cases result with
  | error error final => exact placing
  | ok value final =>
    obtain ⟨more, splitMore, stopMore, isText⟩ := placing
    refine ⟨taken ++ more, ?_, stopMore.trans stop, implies more value ⟨final.tokens, splitMore.symm⟩ isText⟩
    rw [split, splitMore, List.append_assoc]

theorem Places.imp {reader : Reader α} {other : List Token → α → Prop} (places : reader.Places good text)
    (implies : ∀ taken value, text taken value → other taken value) : reader.Places good other :=
  fun token stream within isNext =>
    (places token within isNext).behind (List.nil_append stream.tokens).symm rfl fun taken value _ => implies taken value

/-- Where tokens are taken at all, the first of them is the next token. -/
theorem Places.starts {reader : Reader α} (places : reader.Places good text)
    (nonempty : ∀ taken value, text taken value → taken ≠ []) (token : Token) :
    reader.PlacesAt good token fun taken value => text taken value ∧ start? taken = some token.position := by
  rintro stream within rfl
  apply (places stream.next within rfl).behind (List.nil_append stream.tokens).symm rfl
  rintro taken value ⟨more, split⟩ isText
  obtain ⟨first, others, rfl⟩ := List.exists_cons_of_ne_nil (nonempty taken value isText)
  exact ⟨isText, by rw [Stream.next, ← split]; rfl⟩

theorem places_pure {value : α} (done : text [] value) : (pure value : Reader α).Places good text :=
  fun _ _ _ _ => ⟨[], rfl, rfl, done⟩

theorem places_throw {error : CompileError} {position : Position} (syntactic : isLexical error = false)
    (blames : error.position? = some position) (isGood : good position) :
    (throw error : Reader α).Places good text :=
  fun _ _ _ _ => ⟨syntactic, position, blames, isGood⟩

theorem placesAt_bind {first : Reader α} {following : α → Reader β} (places : first.PlacesAt good token text)
    (placesNext : ∀ value taken, text taken value →
      (following value).Places good fun more => longer (taken ++ more)) :
    (first >>= following).PlacesAt good token longer := by
  intro stream within isNext
  have placing := places within isNext
  rw [bind_apply]
  cases ran : first stream with
  | error error rest =>
    rw [ran] at placing
    exact placing
  | ok value rest =>
    rw [ran] at placing
    obtain ⟨taken, split, stop, isText⟩ := placing
    have withinRest : rest.Within good :=
      ⟨fun token member => within.1 token (split ▸ List.mem_append_right taken member), stop ▸ within.2⟩
    have placingNext := placesNext value taken isText rest.next withinRest rfl
    exact placingNext.behind split stop fun _ _ _ isLonger => isLonger

/-- The tokens that two readers take are those of the first and then those of the second. -/
theorem places_bind {first : Reader α} {following : α → Reader β} (places : first.Places good text)
    (placesNext : ∀ value taken, text taken value →
      (following value).Places good fun more => longer (taken ++ more)) :
    (first >>= following).Places good longer :=
  fun token => placesAt_bind (places token) placesNext

theorem placesAt_peek_bind {following : TokenKind → Reader β}
    (places : (following token.kind).PlacesAt good token longer) :
    (peek >>= following).PlacesAt good token longer := by
  rintro stream within rfl
  have placing := places within rfl
  rwa [← Stream.kind_eq] at placing

theorem placesAt_here_bind {following : Position → Reader β}
    (places : good token.position → (following token.position).PlacesAt good token longer) :
    (here >>= following).PlacesAt good token longer := by
  rintro stream within rfl
  have placing := places within.next within rfl
  rwa [← Stream.position_eq] at placing

theorem placesAt_advance_bind {following : Unit → Reader β} (inside : token.kind ≠ .endOfInput)
    (places : (following ()).Places good fun more => longer (token :: more)) :
    (advance >>= following).PlacesAt good token longer := by
  rintro stream within rfl
  have split := Stream.tokens_eq_cons inside
  have withinDrop : stream.drop.Within good :=
    ⟨fun token member => within.1 token (split ▸ List.mem_cons_of_mem _ member), within.2⟩
  have placing := places stream.drop.next withinDrop rfl
  have taken : stream.tokens = [stream.next] ++ stream.drop.tokens := split
  exact placing.behind taken rfl fun _ _ _ isLonger => isLonger

theorem places_unexpected (expectation : Expectation) : (unexpected expectation : Reader α).Places good text :=
  fun _ => placesAt_peek_bind (placesAt_here_bind fun isGood => places_throw rfl rfl isGood _)

theorem placesAt_accept_bind {kind : TokenKind} (inside : kind ≠ .endOfInput) {following : Bool → Reader β}
    (yes : token.kind = kind → (following true).Places good fun more => longer (token :: more))
    (no : (following false).PlacesAt good token longer) : (accept kind >>= following).PlacesAt good token longer := by
  simp only [accept, bind_assoc]
  apply placesAt_peek_bind
  by_cases same : token.kind = kind
  · simp only [if_pos same, bind_assoc, pure_bind]
    exact placesAt_advance_bind (same ▸ inside) (yes same)
  · simpa only [if_neg same, pure_bind] using no

theorem places_accept_bind (kind : TokenKind) (inside : kind ≠ .endOfInput) {following : Bool → Reader β}
    (yes : ∀ mark : Token, mark.kind = kind → (following true).Places good fun more => longer (mark :: more))
    (no : (following false).Places good longer) : (accept kind >>= following).Places good longer :=
  fun token => placesAt_accept_bind inside (yes token) (no token)

theorem places_accept?_bind {choose : TokenKind → Option α} (none_end : choose .endOfInput = none)
    {following : Option α → Reader β}
    (found : ∀ (mark : Token) value, choose mark.kind = some value →
      (following (some value)).Places good fun more => longer (mark :: more))
    (missing : (following none).Places good longer) : (accept? choose >>= following).Places good longer := by
  intro token
  simp only [accept?, bind_assoc]
  apply placesAt_peek_bind
  cases chosen : choose token.kind with
  | none => simpa only [pure_bind] using missing token
  | some value =>
    have inside : token.kind ≠ .endOfInput := by
      intro atEnd
      rw [atEnd, none_end] at chosen
      cases chosen
    simp only [bind_assoc, pure_bind]
    exact placesAt_advance_bind inside (found token value chosen)

theorem placesAt_expect_bind {kind : TokenKind} (inside : kind ≠ .endOfInput) {following : Unit → Reader β}
    (places : token.kind = kind → (following ()).Places good fun more => longer (token :: more)) :
    (expect kind >>= following).PlacesAt good token longer := by
  simp only [expect, bind_assoc]
  apply placesAt_accept_bind inside
  · intro isMark
    simpa using places isMark
  · simp only [Bool.false_eq_true, if_false]
    have refused : (unexpected (.token kind) : Reader Unit).Places good fun _ _ => False := places_unexpected _
    exact placesAt_bind (refused token) fun _ _ impossible => impossible.elim

theorem places_expect_bind (kind : TokenKind) (inside : kind ≠ .endOfInput) {following : Unit → Reader β}
    (places : ∀ mark : Token, mark.kind = kind → (following ()).Places good fun more => longer (mark :: more)) :
    (expect kind >>= following).Places good longer :=
  fun token => placesAt_expect_bind inside (places token)

theorem places_identifier : identifier.Places good fun taken name =>
    ∃ mark : Token, mark.kind = .identifier name ∧ taken = [mark] := by
  intro token
  apply placesAt_peek_bind
  cases kind : token.kind with
  | identifier name => exact placesAt_advance_bind (by simp [kind]) (places_pure ⟨token, kind, rfl⟩)
  | _ => exact places_unexpected _ _

def PlacesExpr (good : Position → Prop) (reader : Reader Expr) : Prop :=
  reader.Places good fun taken expr => expr.Placed taken

def PlacesStmt (good : Position → Prop) (reader : Reader Stmt) : Prop :=
  reader.Places good fun taken statement => statement.Placed taken

end Reader

open Reader

section Expressions

variable {good : Position → Prop} {operand inner : Reader Expr}

/-- The tokens of operands behind marks, and what is read of them behind operands that are given last first. -/
def PlacedRow {α : Type} (mark? : TokenKind → Option α) (read : List (α × Expr)) (taken : List Token)
    (result : List (α × Expr)) : Prop :=
  ∃ links : List (Link α), (∀ link ∈ links, mark? link.token.kind = some link.mark) ∧
    (∀ link ∈ links, link.operand.Placed link.text) ∧ taken = Link.row links ∧
    result = read.reverse ++ links.map fun link => (link.mark, link.operand)

theorem PlacedRow.nil {α : Type} {mark? : TokenKind → Option α} (read : List (α × Expr)) :
    PlacedRow mark? read [] read.reverse :=
  ⟨[], by simp, by simp, rfl, by simp⟩

theorem PlacedRow.cons {α : Type} {mark? : TokenKind → Option α} {read result : List (α × Expr)} {token : Token}
    {mark : α} {text more : List Token} {operand : Expr} (found : mark? token.kind = some mark)
    (placed : operand.Placed text) (row : PlacedRow mark? ((mark, operand) :: read) more result) :
    PlacedRow mark? read (token :: (text ++ more)) result := by
  obtain ⟨links, marks, operands, rfl, rfl⟩ := row
  refine ⟨⟨token, mark, text, operand⟩ :: links, List.forall_mem_cons.mpr ⟨found, marks⟩,
    List.forall_mem_cons.mpr ⟨placed, operands⟩, rfl, by simp⟩

/-- Each operand of a row takes its own tokens, behind its mark. -/
theorem readMore_places {α : Type} {mark? : TokenKind → Option α} (none_end : mark? .endOfInput = none)
    (places : operand.PlacesExpr good) (bound : Nat) (read : List (α × Expr)) :
    (readMore mark? operand bound read).Places good (PlacedRow mark? read) := by
  induction bound generalizing read with
  | zero => exact places_pure (.nil read)
  | succ bound ih =>
    apply places_accept?_bind none_end
    · intro token mark found
      apply places_bind places
      intro next taken placed
      exact (ih _).imp fun more result row => row.cons found placed
    · exact places_pure (.nil read)

/-- Operands that are joined from left to right keep the place of the first of them. -/
theorem joinLeft_places {op? : TokenKind → Option BinaryOp} (none_end : op? .endOfInput = none)
    (sound : ∀ kind op, op? kind = some op → kind = op.kind) (places : operand.PlacesExpr good) (bound : Nat)
    {left : Expr} {text : List Token} (placed : left.Placed text) :
    (joinLeft op? operand bound left).Places good fun more expr => expr.Placed (text ++ more) := by
  induction bound generalizing left text with
  | zero => exact places_pure (by simpa using placed)
  | succ bound ih =>
    apply places_accept?_bind none_end
    · intro mark op found
      apply places_bind places
      intro right taken placedRight
      have joined := Expr.Placed.binary placed (sound mark.kind op found) placedRight
        (lead?_append placed.leads (mark :: taken))
      exact (ih joined).imp fun more expr placed => by simpa using placed
    · exact places_pure (by simpa using placed)

/-- Joined operands stand where the first one begins. -/
theorem joinLevels_places {levels : List (TokenKind → Option BinaryOp)}
    (none_end : ∀ op? ∈ levels, op? .endOfInput = none)
    (sound : ∀ op? ∈ levels, ∀ kind op, op? kind = some op → kind = op.kind) (places : operand.PlacesExpr good)
    (bound : Nat) : (joinLevels bound operand levels).PlacesExpr good := by
  induction levels with
  | nil => exact places
  | cons op? levels ih =>
    obtain ⟨none_first, none_others⟩ := List.forall_mem_cons.mp none_end
    obtain ⟨soundFirst, soundOthers⟩ := List.forall_mem_cons.mp sound
    have tighter := ih none_others soundOthers
    apply places_bind tighter
    intro first taken placed
    exact joinLeft_places none_first soundFirst tighter bound placed

theorem readLogical_places (op : LogicalOp) (places : operand.PlacesExpr good) (bound : Nat) :
    (readLogical op (isConnective op) bound operand).PlacesExpr good := by
  apply places_bind places
  intro first taken placed
  apply places_bind (readMore_places (finds_connective op).none_end places bound [])
  rintro _ _ ⟨links, marks, operands, rfl, rfl⟩
  have isMark : ∀ link ∈ links, link.token.kind ∈ op.kinds := by
    intro link member
    obtain ⟨mark, good, rfl, _⟩ := (finds_connective op).sound (marks link member)
    exact good
  cases links with
  | nil => exact places_pure (by simpa [Link.row] using placed)
  | cons link links =>
    have joined := Expr.Placed.logical placed isMark operands (lead?_append placed.leads _)
    exact places_pure (by simpa [Function.comp_def] using joined)

theorem readComparison_places (places : operand.PlacesExpr good) (bound : Nat) :
    (readComparison bound operand).PlacesExpr good := by
  apply places_bind places
  intro first taken placed
  apply places_bind (readMore_places finds_relation.none_end places bound [])
  rintro _ _ ⟨links, marks, operands, rfl, rfl⟩
  have isMark : ∀ link ∈ links, link.token.kind = link.mark.kind := by
    intro link member
    obtain ⟨mark, _, same, rfl⟩ := finds_relation.sound (marks link member)
    exact same.symm
  cases links with
  | nil => exact places_pure (by simpa [Link.row] using placed)
  | cons link links =>
    have compared := Expr.Placed.compare placed isMark operands (lead?_append placed.leads _)
    exact places_pure (by simpa using compared)

theorem readUnary_places (op : UnaryOp) {isMark : TokenKind → Bool}
    (marks : ∀ kind, isMark kind = true ↔ kind ∈ op.kinds) (places : operand.PlacesExpr good) (bound : Nat) :
    (readUnary op isMark operand bound).PlacesExpr good := by
  induction bound with
  | zero => exact places
  | succ bound ih =>
    intro token
    apply placesAt_here_bind
    intro _
    apply placesAt_peek_bind
    split
    case isTrue isMark =>
      have mark := (marks token.kind).mp isMark
      have apart : token.kind ≠ .endOfInput ∧ token.kind ≠ .leftParen := by
        revert mark
        cases op <;> cases token.kind <;> simp [UnaryOp.kinds]
      apply placesAt_advance_bind apart.1
      apply places_bind ih
      intro expr taken placed
      exact places_pure (by simpa using Expr.Placed.unary mark placed (lead?_cons apart.2 taken))
    case isFalse => exact places token

theorem readPower_places (places : operand.PlacesExpr good) : (readPower operand).PlacesExpr good := by
  apply places_bind places
  intro base taken placed
  apply places_accept_bind .starStar (by simp)
  · intro mark isMark
    apply places_bind places
    intro exponent more placedExponent
    have isPower : mark.kind = BinaryOp.power.kind := isMark
    have joined := Expr.Placed.binary placed isPower placedExponent (lead?_append placed.leads (mark :: more))
    exact places_pure (by simpa using joined)
  · exact places_pure (by simpa using placed)

/-- A phrase with suffixes stands where it begins without them. -/
theorem readSuffixes_places (places : inner.PlacesExpr good) (bound : Nat) {expr : Expr} {text : List Token}
    (placed : expr.Placed text) :
    (readSuffixes inner bound expr).Places good fun more result => result.Placed (text ++ more) := by
  induction bound generalizing expr text with
  | zero => exact places_pure (by simpa using placed)
  | succ bound ih =>
    intro token
    apply placesAt_here_bind
    intro isGood
    apply placesAt_peek_bind
    cases kind : token.kind with
    | leftBracket =>
      apply placesAt_advance_bind (by simp [kind])
      apply places_bind places
      intro index inside placedIndex
      apply places_expect_bind .rightBracket (by simp)
      intro closing closes
      have indexed := Expr.Placed.index placed placedIndex ⟨token, closing, kind, closes, rfl⟩
        (lead?_append placed.leads _)
      exact (ih indexed).imp fun more result placed => by simpa using placed
    | leftParen =>
      apply placesAt_advance_bind (by simp [kind])
      apply places_accept_bind .rightParen (by simp)
      · intro closing closes
        cases expr with
        | name start name =>
          have called := Expr.Placed.call placed ⟨token, closing, kind, closes, rfl⟩ (lead?_append placed.leads _)
          exact (ih called).imp fun more result placed => by simpa using placed
        | _ =>
          have refused : ∀ fault, (throw (.misplacedCall fault token.position) : Reader Expr).Places good
              fun _ _ => False := fun fault => places_throw rfl rfl isGood
          exact places_bind (refused _) fun _ _ impossible => impossible.elim
      · exact fun following => placesAt_here_bind fun isGood => places_throw rfl rfl isGood _
    | _ => exact places_pure (by simpa using placed) _

theorem readPrimary_places (places : inner.PlacesExpr good) : (readPrimary inner).PlacesExpr good := by
  intro token
  apply placesAt_here_bind
  intro _
  apply placesAt_peek_bind
  cases kind : token.kind with
  | number value =>
    exact placesAt_advance_bind (by simp [kind]) (places_pure (.number kind (lead?_cons (by simp [kind]) [])))
  | identifier name =>
    exact placesAt_advance_bind (by simp [kind]) (places_pure (.name kind (lead?_cons (by simp [kind]) [])))
  | leftParen =>
    apply placesAt_advance_bind (by simp [kind])
    apply places_bind places
    intro expr inside placed
    apply places_expect_bind .rightParen (by simp)
    intro closing closes
    exact places_pure (placed.parenthesised ⟨token, closing, kind, closes, by simp⟩)
  | _ => exact places_unexpected _ _

/-- An expression that is read belongs to the tokens that are taken for it. -/
theorem readExpr_places (bound : Nat) : (readExpr bound).PlacesExpr good := by
  induction bound with
  | zero => exact places_unexpected _
  | succ bound ih =>
    have suffixed : PlacesExpr good (do
        readSuffixes (readExpr bound) (bound + 1) (← readPrimary (readExpr bound))) := by
      apply places_bind (readPrimary_places ih)
      intro expr taken placed
      exact readSuffixes_places ih (bound + 1) placed
    have power : (readOperand (bound + 1) (readExpr bound)).PlacesExpr good :=
      readPower_places (readUnary_places .negate (by simp [UnaryOp.kinds]) suffixed (bound + 1))
    have levels : ∀ op? ∈ binaryLevels, ∃ rank : Grammar.Rank, op? = rank.operator? := by
      rw [binaryLevels_eq]
      simp
    have arithmetic : (joinLevels (bound + 1) (readOperand (bound + 1) (readExpr bound)) binaryLevels).PlacesExpr
        good := by
      apply joinLevels_places _ _ power
      · intro op? member
        obtain ⟨rank, rfl⟩ := levels op? member
        exact (finds_operator rank).none_end
      · intro op? member kind op found
        obtain ⟨rank, rfl⟩ := levels op? member
        obtain ⟨mark, _, same, rfl⟩ := (finds_operator rank).sound found
        exact same.symm
    apply readLogical_places .or
    apply readLogical_places .and
    exact readUnary_places .not (by simp [isNot, UnaryOp.kinds]) (readComparison_places arithmetic (bound + 1))
      (bound + 1)

end Expressions

section Statements

variable {good : Position → Prop} {inner : Reader Stmt}

/-- The tokens behind an expression, and what is read of both: there stand expressions behind equal signs, and the
last of all is the value. -/
def PlacedAssigned (value : Expr) (targets : List Expr) (taken : List Token) (result : Expr × List Expr) : Prop :=
  ∃ links : List (Link Unit), (∀ link ∈ links, link.token.kind = .equal) ∧
    (∀ link ∈ links, link.operand.Placed link.text) ∧ taken = Link.row links ∧
    targets.reverse ++ value :: links.map (·.operand) = result.2.reverse ++ [result.1]

theorem PlacedAssigned.nil (value : Expr) (targets : List Expr) : PlacedAssigned value targets [] (value, targets) :=
  ⟨[], by simp, by simp, rfl, rfl⟩

theorem PlacedAssigned.cons {value following : Expr} {targets : List Expr} {mark : Token} {text more : List Token}
    {result : Expr × List Expr} (isMark : mark.kind = .equal) (placed : following.Placed text)
    (assigned : PlacedAssigned following (value :: targets) more result) :
    PlacedAssigned value targets (mark :: (text ++ more)) result := by
  obtain ⟨links, marks, operands, rfl, same⟩ := assigned
  refine ⟨⟨mark, (), text, following⟩ :: links, List.forall_mem_cons.mpr ⟨isMark, marks⟩,
    List.forall_mem_cons.mpr ⟨placed, operands⟩, rfl, by simpa using same⟩

/-- An assignment stands where its first target begins. -/
theorem PlacedAssigned.simple {first : Expr} {text taken : List Token} {position : Position}
    {result : Expr × List Expr} (assigned : PlacedAssigned first [] taken result) (placed : first.Placed text)
    (starts : start? text = some position) :
    (simpleOf position result.1 result.2).PlacedSimple (text ++ taken) := by
  obtain ⟨links, marks, operands, rfl, same⟩ := assigned
  obtain ⟨value, targets⟩ := result
  cases targets with
  | nil =>
    obtain ⟨rfl, rfl⟩ : first = value ∧ links = [] := by simpa using same
    exact .evaluate (by simpa [Link.row] using placed) (start?_append starts _)
  | cons target targets => exact .assign placed marks operands (by simpa using same) (start?_append starts _)

theorem readAssigned_places {reader : Reader Expr} (places : reader.PlacesExpr good) (bound : Nat) (value : Expr)
    (targets : List Expr) :
    (readAssigned reader bound value targets).Places good (PlacedAssigned value targets) := by
  induction bound generalizing value targets with
  | zero => exact places_pure (.nil value targets)
  | succ bound ih =>
    apply places_accept_bind .equal (by simp)
    · intro mark isMark
      apply places_bind places
      intro following taken placed
      exact (ih following (value :: targets)).imp fun more result assigned => assigned.cons isMark placed
    · exact places_pure (.nil value targets)

/-- A simple statement stands where its first expression begins. -/
theorem readSimple_places (bound : Nat) :
    (readSimple bound).Places good fun taken statement => statement.PlacedSimple taken := by
  intro token
  apply placesAt_here_bind
  intro _
  apply placesAt_bind ((readExpr_places bound).starts (fun _ _ placed => placed.ne_nil) token)
  rintro first taken ⟨placed, starts⟩
  apply places_bind (readAssigned_places (readExpr_places bound) bound first [])
  intro result more assigned
  exact places_pure (by simpa using assigned.simple placed starts)

/-- The tokens of statements, and what is read of them behind statements already read. -/
def PlacedBody (read : Array Stmt) (taken : List Token) (result : List Stmt) : Prop :=
  ∃ body : List (List Token × Stmt), (∀ part ∈ body, part.2.Placed part.1) ∧ taken = bodyText body ∧
    result = read.toList ++ body.map (·.2)

theorem PlacedBody.nil (read : Array Stmt) : PlacedBody read [] read.toList :=
  ⟨[], by simp, rfl, by simp⟩

theorem PlacedBody.cons {read : Array Stmt} {statement : Stmt} {text more : List Token} {result : List Stmt}
    (placed : statement.Placed text) (isBody : PlacedBody (read.push statement) more result) :
    PlacedBody read (text ++ more) result := by
  obtain ⟨body, areParts, rfl, rfl⟩ := isBody
  exact ⟨(text, statement) :: body, List.forall_mem_cons.mpr ⟨placed, areParts⟩, rfl, by simp⟩

theorem readStmts_places (places : inner.PlacesStmt good) (bound : Nat) (read : Array Stmt) :
    (readStmts inner bound read).Places good (PlacedBody read) := by
  induction bound generalizing read with
  | zero => exact places_pure (.nil read)
  | succ bound ih =>
    have further : Places good (PlacedBody read) (do readStmts inner bound (read.push (← inner))) := by
      apply places_bind places
      intro statement taken placed
      exact (ih _).imp fun more result isBody => isBody.cons placed
    intro token
    apply placesAt_peek_bind
    cases token.kind with
    | rightBrace | endOfInput => exact places_pure (.nil read) _
    | _ => exact further _

/-- The statements of a block take the tokens between its braces. -/
theorem readBlock_places (places : inner.PlacesStmt good) (bound : Nat) :
    (readBlock bound inner).Places good fun taken result =>
      ∃ body : List (List Token × Stmt), Encloses .leftBrace .rightBrace (bodyText body) taken ∧
        (∀ part ∈ body, part.2.Placed part.1) ∧ result = body.map (·.2) := by
  apply places_expect_bind .leftBrace (by simp)
  intro opening opens
  apply places_bind (readStmts_places places bound #[])
  rintro _ _ ⟨body, areParts, rfl, rfl⟩
  apply places_expect_bind .rightBrace (by simp)
  intro closing closes
  exact places_pure ⟨body, ⟨opening, closing, opens, closes, rfl⟩, areParts, by simp⟩

theorem readCondition_places (bound : Nat) :
    (readCondition bound).Places good fun taken test =>
      ∃ inside, Encloses .leftParen .rightParen inside taken ∧ test.Placed inside := by
  apply places_expect_bind .leftParen (by simp)
  intro opening opens
  apply places_bind (readExpr_places bound)
  intro test inside placed
  apply places_expect_bind .rightParen (by simp)
  intro closing closes
  exact places_pure ⟨inside, ⟨opening, closing, opens, closes, rfl⟩, placed⟩

theorem readRoutine_places (places : inner.PlacesStmt good) (bound : Nat) :
    (readRoutine bound inner).PlacesStmt good := by
  intro word
  apply placesAt_here_bind
  intro _
  apply placesAt_expect_bind (by simp)
  intro isWord
  apply places_bind places_identifier
  rintro routine _ ⟨name, isName, rfl⟩
  apply places_expect_bind .leftParen (by simp)
  intro left opens
  apply places_accept_bind .rightParen (by simp)
  · intro right closes
    apply places_bind (readBlock_places places bound)
    rintro _ braces ⟨body, encloses, areParts, rfl⟩
    exact places_pure (by simpa using Stmt.Placed.routine isWord isName opens closes encloses areParts)
  · exact fun _ => placesAt_here_bind fun isGood => places_throw rfl rfl isGood _

theorem readBranch_places (places : inner.PlacesStmt good) (bound : Nat) :
    (readBranch bound inner).PlacesStmt good := by
  intro word
  apply placesAt_here_bind
  intro _
  apply placesAt_expect_bind (by simp)
  intro isWord
  apply places_bind (readCondition_places bound)
  rintro test parentheses ⟨inside, enclosesTest, placed⟩
  apply places_bind (readBlock_places places bound)
  rintro _ braces ⟨body, encloses, areParts, rfl⟩
  apply places_accept_bind .elseWord (by simp)
  · intro other isOther following
    apply placesAt_peek_bind
    split
    case isTrue =>
      apply placesAt_bind (places following)
      intro alternative more placedMore
      exact places_pure (by
        simpa using Stmt.Placed.branchElseIf isWord placed enclosesTest encloses areParts isOther placedMore)
    case isFalse =>
      apply placesAt_bind (readBlock_places places bound following)
      rintro _ more ⟨alternative, enclosesMore, areMore, rfl⟩
      exact places_pure (by
        simpa using Stmt.Placed.branchElse isWord placed enclosesTest encloses areParts isOther enclosesMore areMore)
  · exact places_pure (by simpa using Stmt.Placed.branch isWord placed enclosesTest encloses areParts)

theorem readWhile_places (places : inner.PlacesStmt good) (bound : Nat) :
    (readWhile bound inner).PlacesStmt good := by
  intro word
  apply placesAt_here_bind
  intro _
  apply placesAt_expect_bind (by simp)
  intro isWord
  apply places_bind (readCondition_places bound)
  rintro test parentheses ⟨inside, enclosesTest, placed⟩
  apply places_bind (readBlock_places places bound)
  rintro _ braces ⟨body, encloses, areParts, rfl⟩
  exact places_pure (by simpa using Stmt.Placed.whileLoop isWord placed enclosesTest encloses areParts)

theorem readFor_places (places : inner.PlacesStmt good) (bound : Nat) :
    (readFor bound inner).PlacesStmt good := by
  intro word
  apply placesAt_here_bind
  intro _
  apply placesAt_expect_bind (by simp)
  intro isWord
  apply places_expect_bind .leftParen (by simp)
  intro left opens
  apply places_bind (readSimple_places bound)
  intro init before placedInit
  apply places_expect_bind .semicolon (by simp)
  intro first isFirst
  apply places_bind (readExpr_places bound)
  intro test inside placed
  apply places_expect_bind .semicolon (by simp)
  intro second isSecond
  apply places_bind (readSimple_places bound)
  intro step behind placedStep
  apply places_expect_bind .rightParen (by simp)
  intro right closes
  apply places_bind (readBlock_places places bound)
  rintro _ braces ⟨body, encloses, areParts, rfl⟩
  exact places_pure (by
    simpa using
      Stmt.Placed.forLoop isWord opens placedInit isFirst placed isSecond placedStep closes encloses areParts)

theorem readReturn_places (bound : Nat) : (readReturn bound).PlacesStmt good := by
  intro word
  apply placesAt_here_bind
  intro _
  apply placesAt_expect_bind (by simp)
  intro isWord
  apply places_accept_bind .semicolon (by simp)
  · intro semicolon ends
    exact places_pure (.ret isWord ends)
  · apply places_bind (readExpr_places bound)
    intro value taken placed
    apply places_expect_bind .semicolon (by simp)
    intro semicolon ends
    exact places_pure (.retValue isWord placed ends)

/-- A statement that is read belongs to the tokens that are taken for it. -/
theorem readStmt_places (bound : Nat) : (readStmt bound).PlacesStmt good := by
  induction bound with
  | zero => exact places_unexpected _
  | succ bound ih =>
    have simple : PlacesStmt good (do
        let statement ← readSimple (bound + 1)
        Reader.expect .semicolon
        return statement) := by
      apply places_bind (readSimple_places (bound + 1))
      intro statement taken placed
      apply places_expect_bind .semicolon (by simp)
      intro semicolon ends
      exact places_pure (.simple placed ends)
    intro token
    apply placesAt_peek_bind
    cases token.kind with
    | functionWord => exact readRoutine_places ih _ _
    | ifWord => exact readBranch_places ih _ _
    | whileWord => exact readWhile_places ih _ _
    | forWord => exact readFor_places ih _ _
    | returnWord => exact readReturn_places _ _
    | _ => exact simple _

theorem readAll_places (places : inner.PlacesStmt good) (bound : Nat) (read : Array Stmt) :
    (readAll inner bound read).Places good (PlacedBody read) := by
  induction bound generalizing read with
  | zero => exact places_pure (.nil read)
  | succ bound ih =>
    intro token
    apply placesAt_peek_bind
    split
    case isTrue => exact places_pure (.nil read) _
    case isFalse =>
      apply placesAt_bind (places token)
      intro statement taken placed
      exact (ih _).imp fun more result isBody => isBody.cons placed

/-- With the number of tokens as the bound or more, statements are read up to the end, since each takes a token. -/
theorem readAll_ends (places : inner.PlacesStmt fun _ => True) {bound : Nat} {stream rest : Stream}
    {read : Array Stmt} {program : Program} (enough : stream.tokens.length ≤ bound)
    (ran : readAll inner bound read stream = .ok program rest) : rest.kind = .endOfInput := by
  induction bound generalizing stream read with
  | zero =>
    cases ran
    rw [Stream.kind, List.length_eq_zero_iff.mp (Nat.le_zero.mp enough)]
    rfl
  | succ bound ih =>
    have next : (do
        if stream.kind = .endOfInput then return read.toList
        readAll inner bound (read.push (← inner)) : Reader Program) stream = .ok program rest := ran
    split at next
    case isTrue atEnd =>
      cases next
      exact atEnd
    case isFalse =>
      obtain ⟨statement, middle, first, others⟩ := bind_eq_ok_iff.mp next
      have placing := places stream.next ⟨by simp, trivial⟩ rfl
      rw [first] at placing
      obtain ⟨taken, split, _, placed⟩ := placing
      have nonempty := List.length_pos_iff.mpr placed.ne_nil
      refine ih ?_ others
      rw [split, List.length_append] at enough
      omega

/-- The statements of a program take all its tokens, or a good position is blamed. -/
theorem readProgram_placing {stream : Stream} (within : stream.Within good) :
    Placing good stream (PlacedBody #[]) (readProgram stream) :=
  readAll_places (readStmt_places stream.tokens.length) stream.tokens.length #[] stream.next within rfl

theorem readProgram_ends {stream rest : Stream} {program : Program} (ran : readProgram stream = .ok program rest) :
    rest.kind = .endOfInput :=
  readAll_ends (readStmt_places stream.tokens.length) (Nat.le_refl _) ran

/-- A program that is read belongs to the tokens before the first end of the input. -/
theorem Program.placed_ofTokens {tokens : List Token} {program : Program}
    (parsed : Program.ofTokens tokens = .ok program) :
    Program.Placed (tokens.takeWhile (·.kind ≠ .endOfInput)) program := by
  have within : (Stream.ofTokens tokens).Within fun _ => True := ⟨by simp, trivial⟩
  have placing := readProgram_placing within
  rw [Program.ofTokens] at parsed
  cases ran : readProgram (.ofTokens tokens) with
  | error error rest => simp [ran] at parsed
  | ok result rest =>
    obtain rfl : result = program := by simpa [ran] using parsed
    rw [ran] at placing
    obtain ⟨taken, split, _, body, areParts, rfl, rfl⟩ := placing
    -- a token that is left would be an end of the input, and those are not in the stream
    have nothingLeft : rest.tokens = [] := by
      cases left : rest.tokens with
      | nil => rfl
      | cons token more =>
        have member : token ∈ tokens.takeWhile (·.kind ≠ .endOfInput) := by
          change token ∈ (Stream.ofTokens tokens).tokens
          rw [split, left]
          simp
        have isEnd : token.kind = .endOfInput := by simpa [Stream.kind, left] using readProgram_ends ran
        simpa [isEnd] using List.mem_takeWhile_imp member
    rw [nothingLeft, List.append_nil] at split
    exact ⟨body, areParts, split, by simp⟩

/-- Where no program is read, the error is blamed on a token or on the end of the input. -/
theorem Program.blame_of_ofTokens {tokens : List Token} {error : CompileError}
    (within : (Stream.ofTokens tokens).Within good) (failed : Program.ofTokens tokens = .error error) :
    isLexical error = false ∧ ∃ position, error.position? = some position ∧ good position := by
  have placing := readProgram_placing within
  rw [Program.ofTokens] at failed
  cases ran : readProgram (.ofTokens tokens) with
  | ok result rest => simp [ran] at failed
  | error refusal rest =>
    obtain rfl : refusal = error := by simpa [ran] using failed
    rw [ran] at placing
    exact placing

end Statements

end Dcpu.Source
