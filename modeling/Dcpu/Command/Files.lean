/-! # Files of the command

The command reads and writes whole files. What it needs of a file system is given as a record of two
operations, so that it can run on a real one or on a directory in memory.
-/

namespace Dcpu.Command

/-- Why a file cannot be read or written. -/
inductive FileError where
  | missing
  | directory
  | notText
  | other (reason : String)
deriving DecidableEq, Repr

def FileError.message : FileError → String
  | missing => "No such file or directory (os error 2)"
  | directory => "Is a directory (os error 21)"
  | notText => "stream did not contain valid UTF-8"
  | other reason => reason

/-- Reading and writing of files in some monad. -/
structure Files (m : Type → Type) where
  read : String → m (Except FileError ByteArray)
  write : String → ByteArray → m (Except FileError Unit)

/-- Read a file as text, which has to be in UTF-8. -/
def Files.readText {m : Type → Type} [Monad m] (files : Files m) (path : String) :
    m (Except FileError String) := do
  match ← files.read path with
  | .error error => return .error error
  | .ok bytes => return (String.fromUTF8? bytes).elim (.error .notText) .ok

/-- The files of a directory without further directories, by their names. -/
structure Directory where
  files : List (String × ByteArray)

namespace Directory

/-- What a path means in a directory: itself, or the file of a name. Other directories are
missing. -/
def locate (path : String) : Except FileError String :=
  if path.isEmpty ∨ path.toList.head? = some '/' then .error .missing
  else match (path.splitOn "/").filter (fun part => part ≠ "" ∧ part ≠ ".") with
    | [] => .error .directory
    | [name] => if name = ".." then .error .directory else .ok name
    | _ => .error .missing

def content? (directory : Directory) (name : String) : Option ByteArray :=
  directory.files.lookup name

/-- Put a file into a directory, in place of one with the same name. -/
def put (directory : Directory) (name : String) (content : ByteArray) : Directory :=
  ⟨(name, content) :: directory.files.filter (·.1 ≠ name)⟩

def store : Files (StateM Directory) where
  read path := do
    match locate path with
    | .error error => return .error error
    | .ok name => return ((← get).content? name).elim (.error .missing) .ok
  write path content := do
    match locate path with
    | .error error => return .error error
    | .ok name =>
      modify (·.put name content)
      return .ok ()

end Directory

end Dcpu.Command
