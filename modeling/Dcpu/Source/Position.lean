/-! # Positions in a source text -/

namespace Dcpu.Source

/-- A place in a source text, both counted from one and in characters. -/
structure Position where
  line : Nat
  column : Nat
deriving DecidableEq, Repr, Inhabited

namespace Position

def start : Position := ⟨1, 1⟩

/-- The place after one more character: a line feed begins a new line. -/
def after (position : Position) (c : Char) : Position :=
  if c = '\n' then ⟨position.line + 1, 1⟩ else ⟨position.line, position.column + 1⟩

def text (position : Position) : String :=
  s!"line {position.line} column {position.column}"

end Position

end Dcpu.Source
