import Dcpu.Settings
import Dcpu.Slots.Basic
import Dcpu.Source.Tree

/-! # The meaning of structured programs

A program without routines works on a store of variables and on the words of memory outside the
range where variables live. The value of an expression is a word, conditions hold when their value is
one, and the name of the screen stands for the word at its address.

A program that indexes into the range of variables strays, and then its meaning is not given. Loops
are run for a bounded number of rounds; a program comes to an end when some bound is enough for it.
-/

namespace Dcpu

/-- Whether an address lies in the range of variables. -/
def Settings.inRange (settings : Settings) (address : Word) : Bool :=
  settings.first ≤ address && address ≤ settings.last

namespace Source

/-- What an expression denotes as a place: a variable, or the word at an address. -/
inductive Place where
  | named (name : String)
  | cell (address : Word)
deriving DecidableEq, Repr

/-- What expressions see: the address of the screen, the values of variables, and the words of memory
that may be looked at. -/
structure Sight where
  screen : Word
  store : String → Word
  word? : Word → Option Word

namespace Sight

def fetch (sight : Sight) : Place → Option Word
  | .named name => some (sight.store name)
  | .cell address => sight.word? address

def placeOf (sight : Sight) (name : String) : Place :=
  if Slots.isScreen name then .cell sight.screen else .named name

end Sight

/-- The place at an offset; only the words of memory are counted on. -/
def Place.shift (offset : Word) : Place → Option Place
  | named _ => none
  | cell address => some (.cell (address + offset))

def BinaryOp.result : BinaryOp → Word → Word → Option Word
  | add, left, right => some (left + right)
  | sub, left, right => some (left - right)
  | mul, left, right => some (left * right)
  | div, left, right => some (if right = 0 then 0 else left / right)
  | mod, left, right => some (if right = 0 then 0 else left % right)
  | bitAnd, left, right => some (left &&& right)
  | bitOr, left, right => some (left ||| right)
  | bitXor, left, right => some (left ^^^ right)
  | shiftLeft, left, right => some (if right < 16 then left <<< right else 0)
  | shiftRight, left, right => some (if right < 16 then left >>> right else 0)
  | power, _, _ => none

def Relation.relates : Relation → Word → Word → Bool
  | equal, left, right => left = right
  | notEqual, left, right => left ≠ right
  | less, left, right => left < right
  | lessEqual, left, right => left ≤ right
  | greater, left, right => right < left
  | greaterEqual, left, right => right ≤ left

mutual

def Expr.place (sight : Sight) : Expr → Option Place
  | .name _ name => some (sight.placeOf name)
  | .index _ base index => do
    let offset ← index.value sight
    (← base.place sight).shift offset
  | _ => none

def Expr.value (sight : Sight) : Expr → Option Word
  | .number _ value => some value
  | .name _ name => sight.fetch (sight.placeOf name)
  | .index _ base index => do
    let offset ← index.value sight
    sight.fetch (← (← base.place sight).shift offset)
  | .call .. => none
  | .binary _ op left right => do
    op.result (← left.value sight) (← right.value sight)
  | .unary _ .not operand => do
    return (← operand.value sight) ^^^ 1
  | .unary _ .negate _ => none
  | .logical _ op operands => logicalValue sight op operands
  | .compare _ first stages => do
    stagesValue sight (← first.value sight) stages

def logicalValue (sight : Sight) (op : LogicalOp) : List Expr → Option Word
  | [] => none
  | [operand] => operand.value sight
  | operand :: operands => do
    let value ← operand.value sight
    match op with
    | .and => if value = 0 then some value else logicalValue sight op operands
    | .or => if value = 1 then some value else logicalValue sight op operands

def stagesValue (sight : Sight) (left : Word) : List (Relation × Expr) → Option Word
  | [] => some 1
  | (relation, operand) :: stages => do
    let right ← operand.value sight
    if relation.relates left right then stagesValue sight right stages else some 0

end

/-- What a program works on. -/
structure World where
  store : String → Word
  words : Word → Word

/-- Why a run of a program does not come to an end: it strays, or a loop needs more rounds. -/
inductive Stop where
  | stray
  | unfinished
deriving DecidableEq, Repr

abbrev Outcome := Except Stop World

/-- A result that is missing strays. -/
def orStray {α : Type} : Option α → Except Stop α
  | some value => .ok value
  | none => .error .stray

namespace World

def start : World := ⟨fun _ => 0, fun _ => 0⟩

def sight (world : World) (settings : Settings) : Sight where
  screen := settings.screen
  store := world.store
  word? address := if settings.inRange address then none else some (world.words address)

def put (world : World) (settings : Settings) (word : Word) : Place → Option World
  | .named name => some { world with store := fun other => if other = name then word else world.store other }
  | .cell address =>
    if settings.inRange address then none
    else some { world with words := fun other => if other = address then word else world.words other }

end World

/-- Put a word at the places of targets, one after the other. -/
def assignAll (settings : Settings) (word : Word) : List Expr → World → Outcome
  | [], world => .ok world
  | target :: targets, world => do
    let place ← orStray (target.place (world.sight settings))
    assignAll settings word targets (← orStray (world.put settings word place))

/-- Repeat a body while a test holds, for at most the given number of rounds. -/
def repeatWhile (test : World → Option Word) (body : World → Outcome) : Nat → World → Outcome
  | 0, _ => .error .unfinished
  | rounds + 1, world => do
    if (← orStray (test world)) = 1 then repeatWhile test body rounds (← body world)
    else return world

mutual

/-- Run a statement, every loop for at most the given number of rounds. -/
def Stmt.run (settings : Settings) (rounds : Nat) : Stmt → World → Outcome
  | .routine .., _ => .error .stray
  | .ret .., _ => .error .stray
  | .branch _ test body alternative, world => do
    if (← orStray (test.value (world.sight settings))) = 1 then runAll settings rounds body world
    else runAll settings rounds alternative world
  | .whileLoop _ test body, world =>
    repeatWhile (fun world => test.value (world.sight settings)) (runAll settings rounds body) rounds world
  | .forLoop _ init test step body, world => do
    repeatWhile (fun world => test.value (world.sight settings))
      (fun world => do step.run settings rounds (← runAll settings rounds body world))
      rounds (← init.run settings rounds world)
  | .assign _ targets value, world => do
    assignAll settings (← orStray (value.value (world.sight settings))) targets world
  | .evaluate _ value, world => do
    let _ ← orStray (value.value (world.sight settings))
    return world

def runAll (settings : Settings) (rounds : Nat) : List Stmt → World → Outcome
  | [], world => .ok world
  | statement :: statements, world => do
    runAll settings rounds statements (← statement.run settings rounds world)

end

/-- What comes of a program when every loop is run for at most the given number of rounds. -/
def Program.outcome (settings : Settings) (program : Program) (rounds : Nat) : Outcome :=
  runAll settings rounds program .start

end Source

end Dcpu
