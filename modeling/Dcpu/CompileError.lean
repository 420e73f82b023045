import Dcpu.Settings
import Dcpu.Slots.Error
import Dcpu.Source.Token
import Dcpu.Source.Tree

/-! # Why a compilation fails

Each failure is a cause and, where the source text is to blame, a position. The wording of all
messages is in `CompileError.message`.
-/

namespace Dcpu

open Source

/-- Why a number cannot be read. -/
inductive NumberFault where
  | invalidDigit (digit : Char)
  | noDigits
  | tooLarge
deriving DecidableEq, Repr

def NumberFault.text : NumberFault → String
  | invalidDigit digit => s!"Invalid digit '{digit}' in number literal"
  | noDigits => "Hex literal has no digits"
  | tooLarge => "Number literal does not fit in 16 bits"

/-- What the grammar asks for at the place where a token does not fit. -/
inductive Expectation where
  | token (kind : TokenKind)
  | identifier
  | expression
deriving DecidableEq, Repr

/-- The wording of an expectation; a fixed token is quoted. -/
def Expectation.text : Expectation → String
  | token kind => s!"'{kind.spelling}'"
  | identifier => "identifier"
  | expression => "expression"

/-- Uses of parentheses that the grammar reads but the language has no meaning for. -/
inductive CallFault where
  | parameters (routine : String)
  | arguments
  | notCallable (form : ExprForm)
deriving DecidableEq, Repr

def CallFault.text : CallFault → String
  | parameters routine => s!"Function '{routine}' cannot declare parameters"
  | arguments => "Calls take no arguments"
  | notCallable form => s!"Cannot call {form.text}"

/-- What a routine's name would be taken for in a listing. -/
inductive NameClash where
  | generatedLabel
  | register
  | stackOperand
  | operand
deriving DecidableEq, Repr

def NameClash.text : NameClash → String
  | generatedLabel => "a generated jump label"
  | register => "a register"
  | stackOperand => "a stack operand"
  | operand => "an assembler operand"

/-- The operators that the grammar reads but no instruction carries out. -/
inductive Unsupported where
  | power
  | negation
deriving DecidableEq, Repr

def Unsupported.symbol : Unsupported → String
  | power => BinaryOp.power.symbol
  | negation => UnaryOp.negate.symbol

/-- Why a compilation fails, and where. -/
inductive CompileError where
  | number (fault : NumberFault) (position : Position)
  | unexpectedCharacter (c : Char) (position : Position)
  | misplacedCall (fault : CallFault) (position : Position)
  | expected (expectation : Expectation) (found : TokenKind) (position : Position)
  | unsupported (operator : Unsupported) (position : Position)
  | noAddress (form : ExprForm) (position : Position)
  | slots (error : SlotError) (position : Position)
  | undefinedRoutine (name : String) (position : Position)
  | reservedName (name : String) (clash : NameClash) (position : Position)
  | settings (error : SettingsError)
  | file (path reason : String)
deriving DecidableEq, Repr

namespace CompileError

/-- The position to blame; settings and files have none. -/
def position? : CompileError → Option Position
  | number _ position => some position
  | unexpectedCharacter _ position => some position
  | misplacedCall _ position => some position
  | expected _ _ position => some position
  | unsupported _ position => some position
  | noAddress _ position => some position
  | slots _ position => some position
  | undefinedRoutine _ position => some position
  | reservedName _ _ position => some position
  | settings _ => none
  | file _ _ => none

def message : CompileError → String
  | number fault position => s!"Lexical error at {position.text}: {fault.text}"
  | unexpectedCharacter c position => s!"Unexpected character '{c}' at {position.text}"
  | misplacedCall fault position => s!"Parse error at {position.text}: {fault.text}"
  | expected expectation found position =>
    s!"Expected {expectation.text} but found {found.describe} at {position.text}"
  | unsupported operator position =>
    s!"Unsupported operator '{operator.symbol}' at {position.text}"
  | noAddress form position => s!"Cannot take the address of {form.text} at {position.text}"
  | slots .memoryExhausted position => s!"Variable memory exhausted at {position.text}"
  | slots error position => s!"Invalid scope operation at {position.text}: {error.message}"
  | undefinedRoutine name position => s!"Call to undefined function '{name}' at {position.text}"
  | reservedName name clash position =>
    s!"Function name '{name}' clashes with {clash.text} at {position.text}"
  | settings error => s!"Configuration error: {error.text}"
  | file path reason => s!"IO error: {path}: {reason}"

end CompileError

end Dcpu
