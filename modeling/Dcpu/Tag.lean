import Dcpu.Text.Numeral

/-! # Generated labels

Jumps inside statements and expressions go to labels made of a stem, a number and an ending. All
stems draw their numbers from one counter. Routines may not be named like such a label.
-/

namespace Dcpu.Tag

/-- The stem of labels for conditionals. -/
def conditional : String := "if"

/-- The stem of labels for loops. -/
def loop : String := "loop"

/-- The stem of labels for connectives. -/
def logical : String := "boolop"

/-- The stem of labels for chains of comparisons. -/
def comparison : String := "compare"

def text (stem : String) (number : Nat) : String :=
  stem ++ toString number

/-- Where the alternative of a conditional begins. -/
def alternative (tag : String) : String := tag ++ "else"

/-- The place behind a conditional or loop. -/
def ending (tag : String) : String := tag ++ "end"

/-- Where a loop tests its condition. -/
def start (tag : String) : String := tag ++ "start"

/-- The place behind a connective. -/
def skip (tag : String) : String := tag ++ "skip"

/-- The place behind a chain of comparisons. -/
def done (tag : String) : String := tag ++ "done"

/-- Every stem with the endings of its labels. -/
def forms : List (String × List String) :=
  [(conditional, ["else", "end"]), (loop, ["start", "end"]), (logical, ["skip"]),
   (comparison, ["done"])]

/-- Whether a text is digits, at least one, and then one of the given endings. -/
def isNumbered (endings : List String) (text : List Char) : Bool :=
  let rest := text.dropWhile (Text.isDigit 10)
  rest.length < text.length && endings.contains (String.ofList rest)

/-- Whether a name has the form of a generated label. -/
def isGenerated (name : String) : Bool :=
  forms.any fun (stem, endings) =>
    (stem.toList.isPrefixOf? name.toList).any (isNumbered endings)

end Dcpu.Tag
