import Dcpu.Proofs.Grammar.Basic

/-! # Where trees stand

The tokens of a tree are those of its parts, which follow one another, and the marks between them. A tree stands
in its place if every expression carries the position of the first of its tokens that is no opening parenthesis,
and every statement that of its first token.
-/

namespace Dcpu.Source

section Texts

/-- Where the first token that is no opening parenthesis begins. -/
def lead? (text : List Token) : Option Position :=
  (text.find? (·.kind ≠ .leftParen)).map (·.position)

/-- Where the first token begins. -/
def start? (text : List Token) : Option Position :=
  text.head?.map (·.position)

/-- A text of tokens between two more. -/
def Encloses (opening closing : TokenKind) (inside text : List Token) : Prop :=
  ∃ left right : Token, left.kind = opening ∧ right.kind = closing ∧ text = left :: (inside ++ [right])

/-- An operand behind a mark: the token of the mark, what it stands for, and the tokens and the tree of the
operand. -/
structure Link (α : Type) where
  token : Token
  mark : α
  text : List Token
  operand : Expr

def Link.row {α : Type} (links : List (Link α)) : List Token :=
  links.flatMap fun link => link.token :: link.text

theorem lead?_cons {token : Token} (other : token.kind ≠ .leftParen) (text : List Token) :
    lead? (token :: text) = some token.position := by
  simp [lead?, other]

theorem lead?_append {text : List Token} {position : Position} (leads : lead? text = some position)
    (more : List Token) : lead? (text ++ more) = some position := by
  obtain ⟨token, found, rfl⟩ := Option.map_eq_some_iff.mp leads
  rw [lead?, List.find?_append, found]
  rfl

theorem exists_mem_of_lead? {text : List Token} {position : Position} (leads : lead? text = some position) :
    ∃ token ∈ text, token.position = position := by
  obtain ⟨token, found, rfl⟩ := Option.map_eq_some_iff.mp leads
  exact ⟨token, List.mem_of_find?_eq_some found, rfl⟩

/-- A text begins where one of its tokens stands. -/
theorem exists_mem_of_start? {text : List Token} {position : Position} (starts : start? text = some position) :
    ∃ token ∈ text, token.position = position := by
  obtain ⟨token, found, rfl⟩ := Option.map_eq_some_iff.mp starts
  exact ⟨token, List.mem_of_mem_head? found, rfl⟩

theorem start?_append {text : List Token} {position : Position} (starts : start? text = some position)
    (more : List Token) : start? (text ++ more) = some position := by
  obtain ⟨token, found, rfl⟩ := Option.map_eq_some_iff.mp starts
  simp [start?, found]

end Texts

section Trees

/-- The tokens of an expression, and the expression. Every node stands where the first token of its own tokens
begins that is no opening parenthesis. -/
inductive Expr.Placed : List Token → Expr → Prop where
  | number {token : Token} {value : Word} {position : Position} : token.kind = .number value →
      lead? [token] = some position → Placed [token] (.number position value)
  | name {token : Token} {name : String} {position : Position} : token.kind = .identifier name →
      lead? [token] = some position → Placed [token] (.name position name)
  | parenthesised {inside text : List Token} {expr : Expr} : Placed inside expr →
      Encloses .leftParen .rightParen inside text → Placed text expr
  | index {first inside brackets : List Token} {base index : Expr} {position : Position} : Placed first base →
      Placed inside index → Encloses .leftBracket .rightBracket inside brackets →
      lead? (first ++ brackets) = some position → Placed (first ++ brackets) (.index position base index)
  | call {first parentheses : List Token} {start position : Position} {routine : String} :
      Placed first (.name start routine) → Encloses .leftParen .rightParen [] parentheses →
      lead? (first ++ parentheses) = some position → Placed (first ++ parentheses) (.call position routine)
  | unary {op : UnaryOp} {mark : Token} {text : List Token} {operand : Expr} {position : Position} :
      mark.kind ∈ op.kinds → Placed text operand → lead? (mark :: text) = some position →
      Placed (mark :: text) (.unary position op operand)
  | binary {op : BinaryOp} {mark : Token} {first second : List Token} {left right : Expr} {position : Position} :
      Placed first left → mark.kind = op.kind → Placed second right →
      lead? (first ++ mark :: second) = some position →
      Placed (first ++ mark :: second) (.binary position op left right)
  | logical {op : LogicalOp} {text : List Token} {first : Expr} {links : List (Link Unit)} {position : Position} :
      Placed text first → (∀ link ∈ links, link.token.kind ∈ op.kinds) →
      (∀ link ∈ links, Placed link.text link.operand) → lead? (text ++ Link.row links) = some position →
      Placed (text ++ Link.row links) (.logical position op (first :: links.map (·.operand)))
  | compare {text : List Token} {first : Expr} {links : List (Link Relation)} {position : Position} :
      Placed text first → (∀ link ∈ links, link.token.kind = link.mark.kind) →
      (∀ link ∈ links, Placed link.text link.operand) → lead? (text ++ Link.row links) = some position →
      Placed (text ++ Link.row links)
        (.compare position first (links.map fun link => (link.mark, link.operand)))

/-- The tokens of an expression or an assignment, without a semicolon. The last of the expressions between equal
signs is the value. -/
inductive Stmt.PlacedSimple : List Token → Stmt → Prop where
  | evaluate {text : List Token} {value : Expr} {position : Position} : value.Placed text →
      start? text = some position → PlacedSimple text (.evaluate position value)
  | assign {text : List Token} {first value : Expr} {targets : List Expr} {links : List (Link Unit)}
      {position : Position} : first.Placed text → (∀ link ∈ links, link.token.kind = .equal) →
      (∀ link ∈ links, link.operand.Placed link.text) →
      first :: links.map (·.operand) = targets ++ [value] →
      start? (text ++ Link.row links) = some position →
      PlacedSimple (text ++ Link.row links) (.assign position targets value)

def bodyText (body : List (List Token × Stmt)) : List Token :=
  body.flatMap (·.1)

/-- The tokens of a statement, and the statement. Every statement stands where its first token begins. -/
inductive Stmt.Placed : List Token → Stmt → Prop where
  | simple {text : List Token} {semicolon : Token} {statement : Stmt} : PlacedSimple text statement →
      semicolon.kind = .semicolon → Placed (text ++ [semicolon]) statement
  | routine {word name left right : Token} {routine : String} {braces : List Token}
      {body : List (List Token × Stmt)} : word.kind = .functionWord → name.kind = .identifier routine →
      left.kind = .leftParen → right.kind = .rightParen →
      Encloses .leftBrace .rightBrace (bodyText body) braces → (∀ part ∈ body, Placed part.1 part.2) →
      Placed (word :: name :: left :: right :: braces) (.routine word.position routine (body.map (·.2)))
  | branch {word : Token} {inside parentheses braces : List Token} {test : Expr}
      {body : List (List Token × Stmt)} : word.kind = .ifWord → test.Placed inside →
      Encloses .leftParen .rightParen inside parentheses →
      Encloses .leftBrace .rightBrace (bodyText body) braces → (∀ part ∈ body, Placed part.1 part.2) →
      Placed (word :: (parentheses ++ braces)) (.branch word.position test (body.map (·.2)) [])
  | branchElse {word other : Token} {inside parentheses braces more : List Token} {test : Expr}
      {body alternative : List (List Token × Stmt)} : word.kind = .ifWord → test.Placed inside →
      Encloses .leftParen .rightParen inside parentheses →
      Encloses .leftBrace .rightBrace (bodyText body) braces → (∀ part ∈ body, Placed part.1 part.2) →
      other.kind = .elseWord → Encloses .leftBrace .rightBrace (bodyText alternative) more →
      (∀ part ∈ alternative, Placed part.1 part.2) →
      Placed (word :: (parentheses ++ (braces ++ other :: more)))
        (.branch word.position test (body.map (·.2)) (alternative.map (·.2)))
  | branchElseIf {word other : Token} {inside parentheses braces more : List Token} {test : Expr}
      {body : List (List Token × Stmt)} {alternative : Stmt} : word.kind = .ifWord → test.Placed inside →
      Encloses .leftParen .rightParen inside parentheses →
      Encloses .leftBrace .rightBrace (bodyText body) braces → (∀ part ∈ body, Placed part.1 part.2) →
      other.kind = .elseWord → Placed more alternative →
      Placed (word :: (parentheses ++ (braces ++ other :: more)))
        (.branch word.position test (body.map (·.2)) [alternative])
  | whileLoop {word : Token} {inside parentheses braces : List Token} {test : Expr}
      {body : List (List Token × Stmt)} : word.kind = .whileWord → test.Placed inside →
      Encloses .leftParen .rightParen inside parentheses →
      Encloses .leftBrace .rightBrace (bodyText body) braces → (∀ part ∈ body, Placed part.1 part.2) →
      Placed (word :: (parentheses ++ braces)) (.whileLoop word.position test (body.map (·.2)))
  | forLoop {word left first second right : Token} {before inside behind braces : List Token} {init step : Stmt}
      {test : Expr} {body : List (List Token × Stmt)} : word.kind = .forWord → left.kind = .leftParen →
      PlacedSimple before init → first.kind = .semicolon → test.Placed inside → second.kind = .semicolon →
      PlacedSimple behind step → right.kind = .rightParen →
      Encloses .leftBrace .rightBrace (bodyText body) braces → (∀ part ∈ body, Placed part.1 part.2) →
      Placed (word :: left :: (before ++ first :: (inside ++ second :: (behind ++ right :: braces))))
        (.forLoop word.position init test step (body.map (·.2)))
  | ret {word semicolon : Token} : word.kind = .returnWord → semicolon.kind = .semicolon →
      Placed [word, semicolon] (.ret word.position none)
  | retValue {word semicolon : Token} {text : List Token} {value : Expr} : word.kind = .returnWord →
      value.Placed text → semicolon.kind = .semicolon →
      Placed (word :: (text ++ [semicolon])) (.ret word.position (some value))

/-- The tokens of a program: those of its statements, one after the other. -/
def Program.Placed (text : List Token) (program : Program) : Prop :=
  ∃ body : List (List Token × Stmt), (∀ part ∈ body, part.2.Placed part.1) ∧ text = bodyText body ∧
    program = body.map (·.2)

/-- The position of an expression is that of the first of its tokens that is no opening parenthesis. -/
theorem Expr.Placed.leads {text : List Token} {expr : Expr} (placed : expr.Placed text) :
    lead? text = some expr.position := by
  induction placed with
  | @parenthesised inside _ expr _ encloses ih =>
    obtain ⟨left, right, opens, _, rfl⟩ := encloses
    have skipped : lead? (left :: (inside ++ [right])) = lead? (inside ++ [right]) := by simp [lead?, opens]
    exact skipped.trans (lead?_append ih [right])
  | number _ leads | name _ leads | index _ _ _ leads | call _ _ leads | unary _ _ leads | binary _ _ _ leads
  | logical _ _ _ leads | compare _ _ _ leads => exact leads

theorem Expr.Placed.ne_nil {text : List Token} {expr : Expr} (placed : expr.Placed text) : text ≠ [] := by
  rintro rfl
  cases placed.leads

/-- A simple statement stands where its tokens begin. -/
theorem Stmt.PlacedSimple.starts {text : List Token} {statement : Stmt} (placed : statement.PlacedSimple text) :
    start? text = some statement.position := by
  cases placed with
  | evaluate _ starts | assign _ _ _ _ starts => exact starts

/-- The position of a statement is that of its first token. -/
theorem Stmt.Placed.starts {text : List Token} {statement : Stmt} (placed : statement.Placed text) :
    start? text = some statement.position := by
  cases placed with
  | simple placed _ => exact start?_append placed.starts _
  | _ => rfl

theorem Stmt.Placed.ne_nil {text : List Token} {statement : Stmt} (placed : statement.Placed text) : text ≠ [] := by
  rintro rfl
  cases placed.starts

end Trees

end Dcpu.Source
