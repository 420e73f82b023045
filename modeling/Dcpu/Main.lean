import Dcpu.Command.Run

/-! # The program -/

namespace Dcpu.Command

/-- What the operating system says of a failure. -/
def fileErrorOf : IO.Error → FileError
  | .noFileOrDirectory .. => .missing
  | .inappropriateType _ code details =>
    if code = 21 then .directory else .other s!"{details} (os error {code})"
  | error => .other error.toString

def systemFiles : Files IO where
  read path := do
    try return .ok (← IO.FS.readBinFile path)
    catch error => return .error (fileErrorOf error)
  write path content := do
    try
      IO.FS.writeBinFile path content
      return .ok ()
    catch error => return .error (fileErrorOf error)

end Dcpu.Command

open Dcpu.Command in
def main (arguments : List String) : IO UInt32 := do
  let outcome ← run systemFiles "dcpu16c" arguments
  IO.print outcome.out
  IO.eprint outcome.err
  return outcome.exitCode
