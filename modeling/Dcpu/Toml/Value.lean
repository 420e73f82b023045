/-! # Values of configuration texts

The values of TOML documents. Numbers with a fraction and moments in time keep only their kind,
which is all that settings ask of them.
-/

namespace Dcpu.Toml

/-- A TOML value. -/
inductive Value where
  | text (content : String)
  | integer (number : Int)
  | real
  | boolean (flag : Bool)
  | moment
  | array (items : List Value)
  | table (entries : List (String × Value))
deriving Repr, Inhabited

/-- How a table came to be: on the way to a table inside it, by dotted keys, or by a header of its
own. -/
inductive Origin where
  | implied
  | dotted
  | header
deriving DecidableEq, Repr

/-- A document while it is read: values, tables that may still grow, and rows of tables, the latest
of which comes first and may still grow. -/
inductive Node where
  | value (value : Value)
  | table (origin : Origin) (entries : List (String × Node))
  | tables (rows : List (List (String × Node)))
deriving Repr, Inhabited

abbrev Entries := List (String × Node)

mutual

def Node.toValue : Node → Value
  | .value value => value
  | .table _ entries => .table (entryValues entries)
  | .tables rows => .array (rowValues rows).reverse

def entryValues : List (String × Node) → List (String × Value)
  | [] => []
  | (key, node) :: entries => (key, node.toValue) :: entryValues entries

def rowValues : List (List (String × Node)) → List Value
  | [] => []
  | row :: rows => .table (entryValues row) :: rowValues rows

end

namespace Entries

def replace (entries : Entries) (key : String) (node : Node) : Entries :=
  entries.map fun entry => if entry.1 = key then (key, node) else entry

def add (entries : Entries) (key : String) (node : Node) : Entries :=
  entries ++ [(key, node)]

/-- Give a value to a path of keys, none of which but those made by dotted keys may exist. -/
def put (value : Value) : List String → Entries → Option Entries
  | [], _ => none
  | [key], entries =>
    match entries.lookup key with
    | none => some (entries.add key (.value value))
    | some _ => none
  | key :: path, entries =>
    match entries.lookup key with
    | none => (put value path []).map fun inner => entries.add key (.table .dotted inner)
    | some (.table .dotted inner) =>
      (put value path inner).map fun inner => entries.replace key (.table .dotted inner)
    | some _ => none

/-- Change the entries of the table at a path, which may lead through the latest row of tables. -/
def within (change : Entries → Option Entries) : List String → Entries → Option Entries
  | [], entries => change entries
  | key :: path, entries =>
    match entries.lookup key with
    | some (.table origin inner) =>
      (within change path inner).map fun inner => entries.replace key (.table origin inner)
    | some (.tables (row :: rows)) =>
      (within change path row).map fun row => entries.replace key (.tables (row :: rows))
    | _ => none

/-- Change the entries of the table around the last key of a path, making the tables on the way. -/
def around (change : String → Entries → Option Entries) : List String → Entries → Option Entries
  | [], _ => none
  | [key], entries => change key entries
  | key :: path, entries =>
    match entries.lookup key with
    | none => (around change path []).map fun inner => entries.add key (.table .implied inner)
    | some (.table origin inner) =>
      (around change path inner).map fun inner => entries.replace key (.table origin inner)
    | some (.tables (row :: rows)) =>
      (around change path row).map fun row => entries.replace key (.tables (row :: rows))
    | some _ => none

/-- Define a table by a header; only a table that was implied may be there already. -/
def define (key : String) (entries : Entries) : Option Entries :=
  match entries.lookup key with
  | none => some (entries.add key (.table .header []))
  | some (.table .implied inner) => some (entries.replace key (.table .header inner))
  | some _ => none

/-- Begin a further row of tables. -/
def addRow (key : String) (entries : Entries) : Option Entries :=
  match entries.lookup key with
  | none => some (entries.add key (.tables [[]]))
  | some (.tables rows) => some (entries.replace key (.tables ([] :: rows)))
  | some _ => none

end Entries

end Dcpu.Toml
