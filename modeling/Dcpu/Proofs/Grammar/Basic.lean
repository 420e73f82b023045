import Dcpu.Proofs.Source.Rewording
import Dcpu.Source.Token
import Mathlib.Tactic.Common

/-! # The grammar of programs

The kinds of tokens that make an expression, a statement or a program, together with the tree that the
grammar gives them, without positions. From the loosest to the tightest the ranks of expressions are

```
or       := and (("||" | "or") and)*            and    := not (("&&" | "and") not)*
not      := ("!" | "not") not | comparison      comparison := bitOr (relation bitOr)*
bitOr    := bitXor ("|" bitXor)*                bitXor := bitAnd ("^" bitAnd)*
bitAnd   := shift ("&" shift)*                  shift  := sum (("<<" | ">>") sum)*
sum      := term (("+" | "-") term)*            term   := power (("*" | "/" | "%") power)*
power    := unary ("**" unary)?                 unary  := "-" unary | suffixed
suffixed := primary ("[" or "]")* | callee "(" ")" ("[" or "]")*
callee   := NAME | "(" callee ")"               primary := NUMBER | NAME | "(" or ")"
```

Behind the definitions stand the two facts about single tokens that a reader relies on: which tokens begin
a phrase, and which tokens a phrase could go on with.
-/

namespace Dcpu.Source

def BinaryOp.kind : BinaryOp → TokenKind
  | add => .plus
  | sub => .minus
  | mul => .star
  | div => .slash
  | mod => .percent
  | bitAnd => .ampersand
  | bitOr => .pipe
  | bitXor => .caret
  | shiftLeft => .lessLess
  | shiftRight => .greaterGreater
  | power => .starStar

def Relation.kind : Relation → TokenKind
  | equal => .equalEqual
  | notEqual => .notEqual
  | less => .less
  | lessEqual => .lessEqual
  | greater => .greater
  | greaterEqual => .greaterEqual

def LogicalOp.kinds : LogicalOp → List TokenKind
  | and => [.doubleAmpersand, .andWord]
  | or => [.doublePipe, .orWord]

def UnaryOp.kinds : UnaryOp → List TokenKind
  | not => [.bang, .notWord]
  | negate => [.minus]

namespace Grammar

inductive Rank where
  | or
  | and
  | not
  | comparison
  | bitOr
  | bitXor
  | bitAnd
  | shift
  | sum
  | term
  | power
  | unary
  | suffixed
  | primary
deriving DecidableEq, Repr

namespace Rank

/-- The ranks from the loosest to the tightest. -/
def all : List Rank :=
  [or, and, not, comparison, bitOr, bitXor, bitAnd, shift, sum, term, power, unary, suffixed, primary]

def tighter : Rank → Rank
  | or => and
  | and => not
  | not => comparison
  | comparison => bitOr
  | bitOr => bitXor
  | bitXor => bitAnd
  | bitAnd => shift
  | shift => sum
  | sum => term
  | term => power
  | power => unary
  | unary => suffixed
  | suffixed | primary => primary

/-- The operators that join operands from left to right on a rank. -/
def operators : Rank → List BinaryOp
  | bitOr => [.bitOr]
  | bitXor => [.bitXor]
  | bitAnd => [.bitAnd]
  | shift => [.shiftLeft, .shiftRight]
  | sum => [.add, .sub]
  | term => [.mul, .div, .mod]
  | _ => []

def ofLogical : LogicalOp → Rank
  | .or => or
  | .and => and

def ofUnary : UnaryOp → Rank
  | .not => not
  | .negate => unary

end Rank

/-- An operand behind a mark: what the mark stands for, and the tokens and the tree of the operand. -/
structure Joint (α : Type) where
  mark : α
  kinds : List TokenKind
  tree : Expr

/-- The tokens of operands behind their marks. -/
def Joint.row {α : Type} (kind : α → TokenKind) (parts : List (Joint α)) : List TokenKind :=
  parts.flatMap fun part => kind part.mark :: part.kinds

def bracketed (indices : List (List TokenKind × Expr)) : List TokenKind :=
  indices.flatMap fun index => .leftBracket :: (index.1 ++ [.rightBracket])

/-- The tree of an operand with indices behind it. -/
def indexed (base : Expr) (indices : List (List TokenKind × Expr)) : Expr :=
  indices.foldl (fun base index => .index .nowhere base index.2) base

/-- The tree of operands that are joined from left to right. -/
def joined (first : Expr) (parts : List (Joint BinaryOp)) : Expr :=
  parts.foldl (fun left part => .binary .nowhere part.mark left part.tree) first

/-- One flat node for a row of operands of a connective; an operand alone is itself. -/
def connected (op : LogicalOp) (first : Expr) : List Expr → Expr
  | [] => first
  | more => .logical .nowhere op (first :: more)

/-- One flat node for a chain of comparisons; an operand alone is itself. -/
def compared (first : Expr) : List (Relation × Expr) → Expr
  | [] => first
  | stages => .compare .nowhere first stages

/-- The name of a routine, in any number of parentheses. -/
inductive Callee : List TokenKind → String → Prop where
  | name {name : String} : Callee [.identifier name] name
  | parenthesised {kinds : List TokenKind} {name : String} : Callee kinds name →
      Callee (.leftParen :: (kinds ++ [.rightParen])) name

/-- The tokens of an expression of some rank, and its tree. -/
inductive Phrase : Rank → List TokenKind → Expr → Prop where
  | logical (op : LogicalOp) {first : List TokenKind} {tree : Expr} {parts : List (Joint TokenKind)} :
      Phrase (Rank.ofLogical op).tighter first tree →
      (∀ part ∈ parts, part.mark ∈ op.kinds) →
      (∀ part ∈ parts, Phrase (Rank.ofLogical op).tighter part.kinds part.tree) →
      Phrase (.ofLogical op) (first ++ Joint.row id parts) (connected op tree (parts.map Joint.tree))
  | unary (op : UnaryOp) {mark : TokenKind} {kinds : List TokenKind} {tree : Expr} : mark ∈ op.kinds →
      Phrase (.ofUnary op) kinds tree → Phrase (.ofUnary op) (mark :: kinds) (.unary .nowhere op tree)
  | plain (op : UnaryOp) {kinds : List TokenKind} {tree : Expr} :
      Phrase (Rank.ofUnary op).tighter kinds tree → Phrase (.ofUnary op) kinds tree
  | comparison {first : List TokenKind} {tree : Expr} {parts : List (Joint Relation)} :
      Phrase .bitOr first tree → (∀ part ∈ parts, Phrase .bitOr part.kinds part.tree) →
      Phrase .comparison (first ++ Joint.row Relation.kind parts)
        (compared tree (parts.map fun part => (part.mark, part.tree)))
  | binary (rank : Rank) {first : List TokenKind} {tree : Expr} {parts : List (Joint BinaryOp)} :
      rank.operators ≠ [] → Phrase rank.tighter first tree →
      (∀ part ∈ parts, part.mark ∈ rank.operators) →
      (∀ part ∈ parts, Phrase rank.tighter part.kinds part.tree) →
      Phrase rank (first ++ Joint.row BinaryOp.kind parts) (joined tree parts)
  | base {kinds : List TokenKind} {tree : Expr} : Phrase .unary kinds tree → Phrase .power kinds tree
  | power {base exponent : List TokenKind} {left right : Expr} : Phrase .unary base left →
      Phrase .unary exponent right →
      Phrase .power (base ++ .starStar :: exponent) (.binary .nowhere .power left right)
  | indexed {kinds : List TokenKind} {tree : Expr} {indices : List (List TokenKind × Expr)} :
      Phrase .primary kinds tree → (∀ index ∈ indices, Phrase .or index.1 index.2) →
      Phrase .suffixed (kinds ++ bracketed indices) (indexed tree indices)
  | called {kinds : List TokenKind} {name : String} {indices : List (List TokenKind × Expr)} :
      Callee kinds name → (∀ index ∈ indices, Phrase .or index.1 index.2) →
      Phrase .suffixed (kinds ++ .leftParen :: .rightParen :: bracketed indices)
        (indexed (.call .nowhere name) indices)
  | number {value : Word} : Phrase .primary [.number value] (.number .nowhere value)
  | name {name : String} : Phrase .primary [.identifier name] (.name .nowhere name)
  | parenthesised {kinds : List TokenKind} {tree : Expr} : Phrase .or kinds tree →
      Phrase .primary (.leftParen :: (kinds ++ [.rightParen])) tree

/-- The tokens of an expression or an assignment. All but the last of the expressions between equal signs
are targets. -/
inductive Simple : List TokenKind → Stmt → Prop where
  | evaluate {kinds : List TokenKind} {value : Expr} : Phrase .or kinds value →
      Simple kinds (.evaluate .nowhere value)
  | assign {targets : List (List TokenKind × Expr)} {kinds : List TokenKind} {value : Expr} :
      targets ≠ [] → (∀ target ∈ targets, Phrase .or target.1 target.2) → Phrase .or kinds value →
      Simple (targets.flatMap (fun target => target.1 ++ [.equal]) ++ kinds)
        (.assign .nowhere (targets.map (·.2)) value)

def condition (kinds : List TokenKind) : List TokenKind :=
  .leftParen :: (kinds ++ [.rightParen])

def block (body : List (List TokenKind × Stmt)) : List TokenKind :=
  .leftBrace :: (body.flatMap (·.1) ++ [.rightBrace])

def trees (body : List (List TokenKind × Stmt)) : List Stmt :=
  body.map (·.2)

/-- The forms of statements that the grammar tells apart: a conditional may stand behind `else`. -/
inductive Form where
  | statement
  | conditional
deriving DecidableEq, Repr

/-- The tokens of a statement of some form, and its tree. -/
inductive Sentence : Form → List TokenKind → Stmt → Prop where
  | routine {name : String} {body : List (List TokenKind × Stmt)} :
      (∀ part ∈ body, Sentence .statement part.1 part.2) →
      Sentence .statement
        (.functionWord :: .identifier name :: .leftParen :: .rightParen :: block body)
        (.routine .nowhere name (trees body))
  | branch {test : List TokenKind} {tree : Expr} {body : List (List TokenKind × Stmt)} :
      Phrase .or test tree → (∀ part ∈ body, Sentence .statement part.1 part.2) →
      Sentence .conditional (.ifWord :: (condition test ++ block body))
        (.branch .nowhere tree (trees body) [])
  | branchElse {test : List TokenKind} {tree : Expr} {body alternative : List (List TokenKind × Stmt)} :
      Phrase .or test tree → (∀ part ∈ body, Sentence .statement part.1 part.2) →
      (∀ part ∈ alternative, Sentence .statement part.1 part.2) →
      Sentence .conditional
        (.ifWord :: (condition test ++ (block body ++ .elseWord :: block alternative)))
        (.branch .nowhere tree (trees body) (trees alternative))
  | branchElseIf {test more : List TokenKind} {tree : Expr} {body : List (List TokenKind × Stmt)}
      {alternative : Stmt} :
      Phrase .or test tree → (∀ part ∈ body, Sentence .statement part.1 part.2) →
      Sentence .conditional more alternative →
      Sentence .conditional (.ifWord :: (condition test ++ (block body ++ .elseWord :: more)))
        (.branch .nowhere tree (trees body) [alternative])
  | conditional {kinds : List TokenKind} {tree : Stmt} : Sentence .conditional kinds tree →
      Sentence .statement kinds tree
  | whileLoop {test : List TokenKind} {tree : Expr} {body : List (List TokenKind × Stmt)} :
      Phrase .or test tree → (∀ part ∈ body, Sentence .statement part.1 part.2) →
      Sentence .statement (.whileWord :: (condition test ++ block body))
        (.whileLoop .nowhere tree (trees body))
  | forLoop {start test next : List TokenKind} {init step : Stmt} {tree : Expr}
      {body : List (List TokenKind × Stmt)} :
      Simple start init → Phrase .or test tree → Simple next step →
      (∀ part ∈ body, Sentence .statement part.1 part.2) →
      Sentence .statement
        (.forWord :: .leftParen :: (start ++ .semicolon :: (test ++ .semicolon ::
          (next ++ .rightParen :: block body))))
        (.forLoop .nowhere init tree step (trees body))
  | ret : Sentence .statement [.returnWord, .semicolon] (.ret .nowhere none)
  | retValue {kinds : List TokenKind} {value : Expr} : Phrase .or kinds value →
      Sentence .statement (.returnWord :: (kinds ++ [.semicolon])) (.ret .nowhere (some value))
  | simple {kinds : List TokenKind} {tree : Stmt} : Simple kinds tree →
      Sentence .statement (kinds ++ [.semicolon]) tree

/-- The tokens of a program, and the trees of its statements. -/
def Derives (kinds : List TokenKind) (program : Program) : Prop :=
  ∃ parts : List (List TokenKind × Stmt), (∀ part ∈ parts, Sentence .statement part.1 part.2) ∧
    kinds = parts.flatMap (·.1) ∧ program = trees parts

theorem Derives.nil : Derives [] [] :=
  ⟨[], nofun, rfl, rfl⟩

theorem Derives.cons {kinds more : List TokenKind} {tree : Stmt} {program : Program}
    (sentence : Sentence .statement kinds tree) (derives : Derives more program) :
    Derives (kinds ++ more) (tree :: program) := by
  obtain ⟨parts, areParts, rfl, rfl⟩ := derives
  exact ⟨(kinds, tree) :: parts, List.forall_mem_cons.mpr ⟨sentence, areParts⟩, rfl, rfl⟩

section Tokens

/-- The tokens that a rank alone puts behind an operand. -/
def Rank.marks : Rank → List TokenKind
  | .or => LogicalOp.or.kinds
  | .and => LogicalOp.and.kinds
  | .comparison => [Relation.equal, .notEqual, .less, .lessEqual, .greater, .greaterEqual].map Relation.kind
  | .power => [.starStar]
  | .suffixed => [.leftBracket, .leftParen]
  | rank => rank.operators.map BinaryOp.kind

/-- The tokens that a phrase of a rank can go on with. -/
def Rank.continuations (rank : Rank) : List TokenKind :=
  (Rank.all.dropWhile (· ≠ rank)).flatMap Rank.marks

/-- What can continue a tighter phrase can continue a looser one. -/
theorem Rank.continuations_tighter (rank : Rank) : rank.tighter.continuations ⊆ rank.continuations := by
  cases rank <;> decide

theorem Rank.marks_subset_continuations (rank : Rank) : rank.marks ⊆ rank.continuations := by
  cases rank <;> decide

theorem Rank.kind_mem_marks (rank : Rank) {op : BinaryOp} (isOperator : op ∈ rank.operators) :
    op.kind ∈ rank.marks := by
  revert op
  cases rank <;> decide

/-- What a rank puts behind an operand does not belong to the operand. -/
theorem Rank.not_mem_continuations_tighter {rank : Rank} {kind : TokenKind} (mark : kind ∈ rank.marks) :
    kind ∉ rank.tighter.continuations := by
  revert kind
  cases rank <;> decide

/-- Whether a token begins phrases of a rank. -/
def Rank.begins (rank : Rank) : TokenKind → Bool
  | .number _ | .identifier _ | .leftParen => true
  | .minus => rank ≠ .suffixed ∧ rank ≠ .primary
  | .bang | .notWord => rank = .or ∨ rank = .and ∨ rank = .not
  | _ => false

/-- Tokens of which the first begins phrases of a rank. -/
def Begins (rank : Rank) (kinds : List TokenKind) : Prop :=
  ∃ kind more, kinds = kind :: more ∧ rank.begins kind = true

theorem Begins.append {rank : Rank} {kinds : List TokenKind} (begins : Begins rank kinds)
    (more : List TokenKind) : Begins rank (kinds ++ more) := by
  obtain ⟨kind, others, rfl, first⟩ := begins
  exact ⟨kind, others ++ more, rfl, first⟩

theorem Begins.looser (rank : Rank) {kinds : List TokenKind} (begins : Begins rank.tighter kinds) :
    Begins rank kinds := by
  obtain ⟨kind, others, rfl, first⟩ := begins
  refine ⟨kind, others, rfl, ?_⟩
  cases kind with
  | minus | bang | notWord => cases rank <;> first | rfl | exact first
  | _ => exact first

theorem Callee.begins {kinds : List TokenKind} {name : String} (callee : Callee kinds name) :
    Begins .suffixed kinds := by
  cases callee with
  | name | parenthesised => exact ⟨_, _, rfl, rfl⟩

/-- Every phrase begins with a token that begins phrases of its rank. -/
theorem Phrase.begins {rank : Rank} {kinds : List TokenKind} {tree : Expr}
    (phrase : Phrase rank kinds tree) : Begins rank kinds := by
  induction phrase with
  | logical op _ _ _ ih => exact .looser _ (ih.append _)
  | unary op mark =>
    refine ⟨_, _, rfl, ?_⟩
    cases op with
    | not =>
      obtain rfl | rfl := by simpa [UnaryOp.kinds] using mark
      all_goals rfl
    | negate =>
      obtain rfl := by simpa [UnaryOp.kinds] using mark
      rfl
  | plain op _ ih => exact .looser _ ih
  | comparison _ _ ih => exact .looser .comparison (ih.append _)
  | binary rank _ _ _ _ ih => exact .looser rank (ih.append _)
  | base _ ih => exact .looser .power ih
  | power _ _ ih => exact .looser .power (ih.append _)
  | indexed _ _ ih => exact .looser .suffixed (ih.append _)
  | called callee => exact callee.begins.append _
  | number | name | parenthesised => exact ⟨_, _, rfl, rfl⟩

/-- A simple statement begins as an expression does. -/
theorem Simple.begins {kinds : List TokenKind} {tree : Stmt} (simple : Simple kinds tree) :
    Begins .or kinds := by
  cases simple with
  | evaluate phrase => exact phrase.begins
  | @assign targets _ _ nonempty isTarget _ =>
    obtain ⟨first, others, rfl⟩ := List.exists_cons_of_ne_nil nonempty
    exact (((isTarget first (.head _)).begins.append _).append _).append _

/-- Every conditional begins with `if`. -/
theorem Sentence.conditional_begins {kinds : List TokenKind} {tree : Stmt}
    (sentence : Sentence .conditional kinds tree) : ∃ more, kinds = .ifWord :: more := by
  cases sentence with
  | branch | branchElse | branchElseIf => exact ⟨_, rfl⟩

/-- A statement that begins with `if` is a conditional. -/
theorem Sentence.conditional_of_ifWord {more : List TokenKind} {tree : Stmt}
    (sentence : Sentence .statement (.ifWord :: more) tree) :
    Sentence .conditional (.ifWord :: more) tree := by
  generalize whole : TokenKind.ifWord :: more = kinds at sentence
  cases sentence with
  | conditional conditional => exact conditional
  | simple simple =>
    obtain ⟨kind, others, rfl, begins⟩ := simple.begins
    obtain ⟨rfl, _⟩ := List.cons.inj whole
    cases begins
  | routine | whileLoop | forLoop | ret | retValue => cases whole

/-- No statement begins with `else`, with a closing brace or with the end of the input. -/
theorem Sentence.begins {kinds : List TokenKind} {tree : Stmt} (sentence : Sentence .statement kinds tree) :
    ∃ kind more, kinds = kind :: more ∧ kind ∉ [.elseWord, .rightBrace, .endOfInput] := by
  cases sentence with
  | routine | whileLoop | forLoop | ret | retValue => exact ⟨_, _, rfl, by decide⟩
  | conditional conditional =>
    obtain ⟨more, rfl⟩ := conditional.conditional_begins
    exact ⟨_, _, rfl, by decide⟩
  | simple simple =>
    obtain ⟨kind, more, rfl, begins⟩ := simple.begins
    refine ⟨kind, more ++ [.semicolon], rfl, fun member => ?_⟩
    obtain rfl | rfl | rfl := by simpa using member
    all_goals cases begins

end Tokens

end Grammar

end Dcpu.Source
