import Dcpu.Codegen.Emission

/-! # Routines of a program

All routines are registered before any code is made, so that calls may precede definitions. The
name of a routine becomes a label and the operand of calls.
-/

namespace Dcpu

open Source Gen

/-- What a name would be taken for in a listing, other than a label free for routines. -/
def nameClash? (name : String) : Option NameClash :=
  match Operand.read name.toList with
  | .ok (.label _) => if Tag.isGenerated name then some .generatedLabel else none
  | .ok (.register _) => some .register
  | .ok .push | .ok .pop => some .stackOperand
  | _ => some .operand

mutual

/-- The routines that a statement defines, in the order of their beginnings. The first part and the
step of a loop define none. -/
def Source.Stmt.definitions : Stmt → List (String × Position)
  | .routine position name body => (name, position) :: definitionsIn body
  | .branch _ _ body alternative => definitionsIn body ++ definitionsIn alternative
  | .whileLoop _ _ body => definitionsIn body
  | .forLoop _ _ _ _ body => definitionsIn body
  | .ret .. | .assign .. | .evaluate .. => []

def definitionsIn : List Stmt → List (String × Position)
  | [] => []
  | statement :: statements => statement.definitions ++ definitionsIn statements

end

/-- Register routines behind those already known. A name that clashes is refused, and one that is
known already is warned of. -/
def registerRoutines (known : List String) : List (String × Position) → Gen (List String)
  | [] => pure known
  | (name, position) :: definitions => do
    if let some clash := nameClash? name then throw (.reservedName name clash position)
    if known.contains name then
      record (.redefined name position)
      registerRoutines known definitions
    else registerRoutines (known ++ [name]) definitions

end Dcpu
