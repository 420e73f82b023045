import Dcpu.Word

/-! # Settings of a compilation -/

namespace Dcpu

/-- Where variables and the screen live, and whether a halt loop is appended to programs without an
end of their own. -/
structure Settings where
  first : Word := 0x2000
  last : Word := 0x7000
  screen : Word := 0x8000
  haltLoop : Bool := true
deriving DecidableEq, Repr, Inhabited

inductive SettingsError where
  | malformed
  | reversedRange (first last : Word)
  | screenInRange (screen : Word)
deriving DecidableEq, Repr

def SettingsError.text : SettingsError → String
  | malformed => "the text does not describe a configuration"
  | reversedRange first last =>
    s!"variable_start {first.hex} is above variable_end {last.hex}"
  | screenInRange screen =>
    s!"screen_address {screen.hex} lies inside the variable range"

/-- Settings are usable when the range of variables is not reversed and the screen is outside it. -/
def Settings.validate (settings : Settings) : Except SettingsError Unit :=
  if settings.last < settings.first then .error (.reversedRange settings.first settings.last)
  else if settings.first ≤ settings.screen ∧ settings.screen ≤ settings.last then
    .error (.screenInRange settings.screen)
  else .ok ()

end Dcpu
