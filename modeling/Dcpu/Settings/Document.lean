import Dcpu.Settings
import Dcpu.Toml.Document

/-! # Settings from a configuration text

The table `memory` holds the addresses `variable_start`, `variable_end` and `screen_address`, the
table `output` the flag `halt_epilogue`. What is missing keeps its default, and unknown keys are
refused. An array in place of a table gives its fields in this order; further items are ignored.
-/

namespace Dcpu.Settings

open Toml

def word? : Value → Option Word
  | .integer number => if 0 ≤ number then Word.ofNat? number.toNat else none
  | _ => none

def flag? : Value → Option Bool
  | .boolean flag => some flag
  | _ => none

/-- A field of a table: its key and how its value is put into settings. -/
structure Field where
  key : String
  put : Settings → Value → Option Settings

/-- The fields of the table `memory`, in their order. -/
def memoryFields : List Field :=
  [⟨"variable_start", fun settings value => (word? value).map ({ settings with first := · })⟩,
   ⟨"variable_end", fun settings value => (word? value).map ({ settings with last := · })⟩,
   ⟨"screen_address", fun settings value => (word? value).map ({ settings with screen := · })⟩]

def outputFields : List Field :=
  [⟨"halt_epilogue", fun settings value => (flag? value).map ({ settings with haltLoop := · })⟩]

/-- Put the value of a key into settings, if one of the fields has the key. -/
def putEntry (fields : List Field) (settings : Settings) (entry : String × Value) :
    Option Settings := do
  let field ← fields.find? (·.key = entry.1)
  field.put settings entry.2

/-- Put a table, or an array in its place, into settings. -/
def putTable (fields : List Field) (settings : Settings) : Value → Option Settings
  | .table entries => entries.foldlM (putEntry fields) settings
  | .array items =>
    (fields.zip items).foldlM (fun settings (field, value) => field.put settings value) settings
  | _ => none

def tables : List Field :=
  [⟨"memory", putTable memoryFields⟩, ⟨"output", putTable outputFields⟩]

/-- Settings from a configuration text, which have to be usable. -/
def ofText (text : String) : Except SettingsError Settings := do
  match (read? text).bind (·.foldlM (putEntry tables) {}) with
  | none => throw .malformed
  | some settings =>
    settings.validate
    return settings

end Dcpu.Settings
