import Dcpu.Proofs.Grammar.Basic
import Dcpu.Source.Expression

/-! # Marks and rows of operands

Readers tell by the kind of the next token whether a row of operands goes on. Their tables find the marks
that the grammar knows, and operands that are joined as they are read are joined as one row.
-/

namespace Dcpu.Source

open Grammar

section Streams

/-- The kinds of the tokens still to be read. -/
def Stream.kinds (stream : Stream) : List TokenKind :=
  stream.tokens.map (·.kind)

def Grammar.next (kinds : List TokenKind) : TokenKind :=
  kinds.head?.getD .endOfInput

theorem Stream.kind_eq_next (stream : Stream) : stream.kind = next stream.kinds := by
  simp [kind, next, kinds, List.head?_map]

theorem Stream.kinds_drop (stream : Stream) : stream.drop.kinds = stream.kinds.tail := by
  simp [drop, kinds, List.map_tail]

theorem Stream.kinds_eq_cons {stream : Stream} (inside : stream.kind ≠ .endOfInput) :
    stream.kinds = stream.kind :: stream.drop.kinds := by
  rw [kind_eq_next, next] at inside ⊢
  rw [kinds_drop]
  cases kinds : stream.kinds with
  | nil => simp [kinds] at inside
  | cons kind more => rfl

end Streams

section Tables

/-- A table of tokens finds the marks of a row: their tokens and what these stand for. -/
structure Finds {α β : Type} (mark? : TokenKind → Option α) (kind : β → TokenKind) (value : β → α)
    (good : β → Prop) : Prop where
  none_end : mark? .endOfInput = none
  sound {found : TokenKind} {result : α} : mark? found = some result →
    ∃ mark, good mark ∧ kind mark = found ∧ value mark = result
  complete {mark : β} : good mark → mark? (kind mark) = some (value mark)

/-- The tokens of a connective, as its reader tells them. -/
def isConnective : LogicalOp → TokenKind → Bool
  | .and => isAnd
  | .or => isOr

theorem finds_connective (op : LogicalOp) :
    Finds (fun kind => if isConnective op kind then some () else none) id (fun _ => ()) (· ∈ op.kinds) := by
  have same (kind : TokenKind) : isConnective op kind = true ↔ kind ∈ op.kinds := by
    cases op <;> simp [isConnective, isAnd, isOr, LogicalOp.kinds]
  refine ⟨by cases op <;> rfl, fun {found _} chosen => ?_, fun {mark} good => ?_⟩
  · split at chosen
    case isTrue isMark => exact ⟨found, (same found).mp isMark, rfl, rfl⟩
    case isFalse => cases chosen
  · exact if_pos ((same mark).mpr good)

theorem finds_relation : Finds relation? Relation.kind id fun _ => True := by
  refine ⟨rfl, fun {found relation} chosen => ?_, fun {relation} _ => by cases relation <;> rfl⟩
  refine ⟨relation, trivial, ?_, rfl⟩
  unfold relation? at chosen
  split at chosen <;> cases chosen <;> rfl

/-- The operator of a rank that a token stands for. -/
def Grammar.Rank.operator? (rank : Rank) (kind : TokenKind) : Option BinaryOp :=
  rank.operators.find? (·.kind = kind)

/-- The levels of binary operators are the binary ranks, the loosest first. -/
theorem binaryLevels_eq : binaryLevels =
    [Rank.bitOr, .bitXor, .bitAnd, .shift, .sum, .term].map Rank.operator? := by
  simp only [binaryLevels, List.map_cons, List.map_nil, List.cons.injEq, and_true]
  refine ⟨?_, ?_, ?_, ?_, ?_, ?_⟩ <;> funext kind <;> cases kind <;> rfl

/-- The operators of a rank are found by their tokens. -/
theorem finds_operator (rank : Rank) :
    Finds rank.operator? BinaryOp.kind id (· ∈ rank.operators) := by
  refine ⟨by cases rank <;> rfl, fun {found op} chosen => ?_, fun {op} good => ?_⟩
  · exact ⟨op, List.mem_of_find?_eq_some chosen, by simpa using List.find?_some chosen, rfl⟩
  · revert op
    cases rank <;> decide

end Tables

section Rows

variable {β : Type} {kind : β → TokenKind} {good : β → Prop} {rank : Rank} {operand : Reader Expr}

/-- Tokens are those of a row of operands of some rank behind marks. -/
structure Grammar.Row (rank : Rank) (kind : β → TokenKind) (good : β → Prop) (parts : List (Joint β))
    (kinds : List TokenKind) : Prop where
  marks : ∀ part ∈ parts, good part.mark
  operands : ∀ part ∈ parts, Phrase rank part.kinds part.tree
  kinds_eq : kinds = Joint.row kind parts

theorem Grammar.Row.nil : Row rank kind good [] [] :=
  ⟨nofun, nofun, rfl⟩

theorem Grammar.Row.cons {part : Joint β} {parts : List (Joint β)} {kinds : List TokenKind}
    (mark : good part.mark) (operand : Phrase rank part.kinds part.tree)
    (row : Row rank kind good parts kinds) :
    Row rank kind good (part :: parts) (kind part.mark :: (part.kinds ++ kinds)) :=
  ⟨List.forall_mem_cons.mpr ⟨mark, row.marks⟩, List.forall_mem_cons.mpr ⟨operand, row.operands⟩,
    by rw [row.kinds_eq]; rfl⟩

def joinedRow (first : Expr) (row : List (BinaryOp × Expr)) : Expr :=
  row.foldl (fun left part => .binary left.position part.1 left part.2) first

/-- Joining operands as they are read is joining the row of them behind those already read. -/
theorem joinLeft_eq_readMore (op? : TokenKind → Option BinaryOp) (bound : Nat) (first : Expr)
    (read : List (BinaryOp × Expr)) :
    joinLeft op? operand bound (joinedRow first read.reverse) = (do
      let row ← readMore op? operand bound read
      return joinedRow first row) := by
  induction bound generalizing read with
  | zero => rfl
  | succ bound ih =>
    simp only [joinLeft, readMore, bind_assoc]
    congr 1
    funext found
    cases found with
    | none => rfl
    | some op =>
      simp only [bind_assoc]
      congr 1
      funext right
      rw [← ih]
      simp [joinedRow]

/-- A row that is joined to the left stays so without its positions. -/
theorem unplaced_joinedRow (first : Expr) {row : List (BinaryOp × Expr)} {parts : List (Joint BinaryOp)}
    (same : row.map (Prod.map id Expr.unplaced) = parts.map fun part => (part.mark, part.tree)) :
    (joinedRow first row).unplaced = joined first.unplaced parts := by
  induction row generalizing first parts with
  | nil =>
    obtain rfl : parts = [] := by simpa using same.symm
    rfl
  | cons operand row ih =>
    cases parts with
    | nil => cases same
    | cons part parts =>
      obtain ⟨⟨mark, tree⟩, others⟩ : (operand.1 = part.mark ∧ operand.2.unplaced = part.tree) ∧
          row.map (Prod.map id Expr.unplaced) = parts.map fun part => (part.mark, part.tree) := by
        simpa [Prod.ext_iff] using same
      refine (ih (.binary first.position operand.1 first operand.2) others).trans ?_
      rw [Expr.unplaced_binary, mark, tree]
      rfl

end Rows

end Dcpu.Source
