/-! # Records of progress

Compiling and running leave records of what they do, each at a level of detail. A reader names the
finest level to be shown.
-/

namespace Dcpu

/-- Levels of detail, from the gravest to the finest. -/
inductive Level where
  | error
  | warn
  | info
  | debug
  | trace
deriving DecidableEq, Repr, Inhabited

namespace Level

def detail : Level → Nat
  | error => 0
  | warn => 1
  | info => 2
  | debug => 3
  | trace => 4

def title : Level → String
  | error => "ERROR"
  | warn => "WARN"
  | info => "INFO"
  | debug => "DEBUG"
  | trace => "TRACE"

end Level

structure Record where
  level : Level
  message : String
deriving DecidableEq, Repr

/-- The records that show at the given level, in their order. -/
def Record.upTo (finest : Level) (records : List Record) : List Record :=
  records.filter (·.level.detail ≤ finest.detail)

end Dcpu
