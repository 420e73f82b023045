import Dcpu.Codegen.Expression

/-! # Names in the order of their code

A name in a program becomes a line that loads its value or its address. The names are listed here from the tree
alone, each with what is wanted of it, in the order of these lines.
-/

namespace Dcpu

open Source

/-- A name in a program, with what is wanted of it. -/
structure Mention where
  want : Want
  name : String
deriving DecidableEq, Repr

namespace Source

mutual

/-- The names in an expression in the order of their code. -/
def Expr.mentions (want : Want) : Expr → List Mention
  | .number .. => []
  | .name _ name => [⟨want, name⟩]
  | .index _ base index => index.mentions .value ++ base.mentions .address
  | .call .. => []
  | .binary _ _ left right => left.mentions .value ++ right.mentions .value
  | .unary _ _ operand => operand.mentions .value
  | .logical _ _ operands => mentionsOfAll .value operands
  | .compare _ first stages => first.mentions .value ++ mentionsOfStages stages

def mentionsOfAll (want : Want) : List Expr → List Mention
  | [] => []
  | operand :: operands => operand.mentions want ++ mentionsOfAll want operands

def mentionsOfStages : List (Relation × Expr) → List Mention
  | [] => []
  | (_, operand) :: stages => operand.mentions .value ++ mentionsOfStages stages

end

mutual

/-- The names in a statement in the order of their code. The value of an assignment comes before its targets,
and the step of a loop behind its body. -/
def Stmt.mentions : Stmt → List Mention
  | .routine _ _ body => mentionsIn body
  | .ret _ none => []
  | .ret _ (some value) => value.mentions .value
  | .branch _ test body alternative => test.mentions .value ++ (mentionsIn body ++ mentionsIn alternative)
  | .whileLoop _ test body => test.mentions .value ++ mentionsIn body
  | .forLoop _ init test step body =>
    init.mentions ++ (test.mentions .value ++ (mentionsIn body ++ step.mentions))
  | .assign _ targets value => value.mentions .value ++ mentionsOfAll .address targets
  | .evaluate _ value => value.mentions .value

def mentionsIn : List Stmt → List Mention
  | [] => []
  | statement :: statements => statement.mentions ++ mentionsIn statements

end

end Source

end Dcpu
