import Dcpu.Text.Numeral

/-! # Options of the command line -/

namespace Dcpu.Command

/-- How many instructions are run at most if nothing else is asked for. -/
def defaultLimit : Nat := 1000000

/-- What the command is asked to do. -/
structure Options where
  input : String := ""
  output : Option String := none
  config : Option String := none
  run : Bool := false
  limit : Nat := defaultLimit
  verbose : Bool := false
deriving DecidableEq, Repr

/-- Why the command ends before it compiles. -/
inductive Refusal where
  | noArguments
  | help
  | noOutputFile
  | noConfigFile
  | noStepCount
  | invalidStepCount (text : String)
  | unknownOption (option : String)
  | severalInputs
  | noInput
deriving DecidableEq, Repr

namespace Refusal

def message? : Refusal → Option String
  | noArguments => none
  | help => none
  | noOutputFile => some "Error: -o requires a filename"
  | noConfigFile => some "Error: -c requires a filename"
  | noStepCount => some "Error: --max-steps requires a number"
  | invalidStepCount text => some s!"Error: Invalid step count '{text}'"
  | unknownOption option => some s!"Error: Unknown option '{option}'"
  | severalInputs => some "Error: Multiple input files specified"
  | noInput => some "Error: No input file specified"

def showsUsage : Refusal → Bool
  | noArguments | help | unknownOption _ | noInput => true
  | _ => false

/-- The exit code: only a request for help is no failure. -/
def exitCode : Refusal → UInt32
  | help => 0
  | _ => 1

end Refusal

/-- A number of steps, which has to fit in 64 bits. -/
def stepCount? (text : String) : Option Nat :=
  (Text.unsigned? 10 text.toList).filter (· < 0x10000000000000000)

/-- Read arguments in their order; a later option overrides an earlier one. -/
def readArguments (options : Options) : List String → Except Refusal Options
  | [] => .ok options
  | "-o" :: rest | "--output" :: rest =>
    match rest with
    | [] => .error .noOutputFile
    | file :: rest => readArguments { options with output := some file } rest
  | "-c" :: rest | "--config" :: rest =>
    match rest with
    | [] => .error .noConfigFile
    | file :: rest => readArguments { options with config := some file } rest
  | "--run" :: rest => readArguments { options with run := true } rest
  | "--max-steps" :: rest =>
    match rest with
    | [] => .error .noStepCount
    | text :: rest =>
      match stepCount? text with
      | none => .error (.invalidStepCount text)
      | some limit => readArguments { options with limit } rest
  | "-v" :: rest | "--verbose" :: rest => readArguments { options with verbose := true } rest
  | "-h" :: _ | "--help" :: _ => .error .help
  | argument :: rest =>
    if argument.toList.head? = some '-' then .error (.unknownOption argument)
    else if options.input.isEmpty then readArguments { options with input := argument } rest
    else .error .severalInputs

/-- The options that arguments ask for; one of them has to be an input file. -/
def Options.ofArguments (arguments : List String) : Except Refusal Options := do
  if arguments.isEmpty then throw .noArguments
  let options ← readArguments {} arguments
  if options.input.isEmpty then throw .noInput
  return options

def usage (program : String) : List String :=
  [s!"Usage: {program} [options] <input>",
   "",
   "Options:",
   "  -o, --output <file>    Output filename (default: stdout)",
   "  -c, --config <file>    TOML configuration file",
   "  --run                  Execute the listing and print the result",
   s!"  --max-steps <n>        Instruction limit for --run (default: {defaultLimit})",
   "  -v, --verbose          Verbose output",
   "  -h, --help             Show this help message",
   "",
   "Logging is controlled by RUST_LOG (e.g. RUST_LOG=debug)."]

end Dcpu.Command
