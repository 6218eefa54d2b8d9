import StudyPlan.Report.Rendering

/-!
# Command-line arguments

    [-c|--config FILE] [-f|--format FORMAT] [-v|--verbose] FILE

The value of an option follows it as the next argument or after an equals sign; the
one-letter options also take it without anything between, and several of them may
share a dash.  Options may stand before or behind the file.  After `--` every
argument is a file.

## What is refused

An option that does not exist or comes twice, a value that is missing or does not
make sense, a second file, and no file at all.  An argument that looks like an
option is never taken for the value of the option before it; a single dash does not
look like one.
-/

namespace StudyPlan
namespace CommandLine

/-- What the arguments ask for. -/
structure Options where
  file : String
  config : Option String := none
  format : Format := .standard
  verbose : Bool := false
  deriving DecidableEq, Repr

/-- What an invocation of the program asks for. -/
inductive Request where
  | analyze (options : Options)
  | help
  | version
  deriving DecidableEq, Repr

/-- The options that have a value. -/
inductive Setting where
  | config
  | format
  deriving DecidableEq, Repr

/-- What the arguments read so far ask for. -/
structure Draft where
  file : Option String := none
  config : Option String := none
  format : Option Format := none
  verbose : Bool := false
  deriving DecidableEq, Repr

/-- Why the reading of arguments stops early. -/
inductive Stop where
  /-- The arguments make no sense. -/
  | refused
  /-- Help or the version was asked for. -/
  | asked (request : Request)
  deriving DecidableEq, Repr

namespace Draft

/-- Take an argument as the file. -/
def addFile (d : Draft) (path : String) : Except Stop Draft :=
  if d.file.isSome || path.isEmpty then .error .refused
  else .ok { d with file := some path }

/-- Take a value for an option. -/
def set (d : Draft) (setting : Setting) (value : String) : Except Stop Draft :=
  match setting with
  | .config =>
    if d.config.isSome || value.isEmpty then .error .refused
    else .ok { d with config := some value }
  | .format =>
    match d.format, Format.ofName? value with
    | none, some f => .ok { d with format := some f }
    | _, _ => .error .refused

/-- Ask for verbosity. -/
def setVerbose (d : Draft) : Except Stop Draft :=
  if d.verbose then .error .refused else .ok { d with verbose := true }

/-- What a complete list of arguments asks for. -/
def complete (d : Draft) : Except Stop Options :=
  match d.file with
  | none => .error .refused
  | some file =>
    .ok { file, config := d.config, format := d.format.getD .standard, verbose := d.verbose }

end Draft

/-- What is known after an argument: a draft, and the option whose value is still
to come. -/
abbrev Progress := Draft × Option Setting

/-- Read the value that is written with a one-letter option, if there is one. -/
def readValue (d : Draft) (setting : Setting) : List Char → Except Stop Progress
  | [] => .ok (d, some setting)
  | '=' :: value => return (← d.set setting (String.ofList value), none)
  | value => return (← d.set setting (String.ofList value), none)

/-- Read the letters behind a single dash. -/
def readLetters (d : Draft) : List Char → Except Stop Progress
  | [] => .ok (d, none)
  | 'v' :: rest => do readLetters (← d.setVerbose) rest
  | 'c' :: rest => readValue d .config rest
  | 'f' :: rest => readValue d .format rest
  | 'h' :: _ => .error (.asked .help)
  | 'V' :: _ => .error (.asked .version)
  | _ => .error .refused

/-- Read the option behind a double dash: its name, and the value behind an equals
sign, if there is one. -/
def readWord (d : Draft) (name : String) (value : Option String) : Except Stop Progress :=
  match name, value with
  | "config", some v => return (← d.set .config v, none)
  | "config", none => .ok (d, some .config)
  | "format", some v => return (← d.set .format v, none)
  | "format", none => .ok (d, some .format)
  | "verbose", none => return (← d.setVerbose, none)
  | "help", none => .error (.asked .help)
  | "version", none => .error (.asked .version)
  | _, _ => .error .refused

/-- A text cut at its first equals sign. -/
def splitValue (cs : List Char) : String × Option String :=
  let name := String.ofList (cs.takeWhile (· ≠ '='))
  match cs.dropWhile (· ≠ '=') with
  | [] => (name, none)
  | _ :: value => (name, some (String.ofList value))

/-- Read one argument, `pending` being the option that waits for its value. -/
def readArgument (d : Draft) (pending : Option Setting) (arg : String) :
    Except Stop Progress :=
  match arg.toList, pending with
  | '-' :: _ :: _, some _ => .error .refused
  | _, some setting => return (← d.set setting arg, none)
  | '-' :: '-' :: cs, none => readWord d (splitValue cs).1 (splitValue cs).2
  | '-' :: c :: cs, none => readLetters d (c :: cs)
  | _, none => return (← d.addFile arg, none)

/-- Read all arguments that are left. -/
def readArguments (d : Draft) (pending : Option Setting) : List String → Except Stop Draft
  | [] => if pending.isSome then .error .refused else .ok d
  | arg :: rest =>
    if arg = "--" then
      if pending.isSome then .error .refused else rest.foldlM Draft.addFile d
    else do
      let (d, pending) ← readArgument d pending arg
      readArguments d pending rest

/-- What a list of arguments asks for, if it makes sense. -/
def request? (args : List String) : Option Request :=
  match readArguments {} none args >>= Draft.complete with
  | .ok options => some (.analyze options)
  | .error (.asked request) => some request
  | .error .refused => none

end CommandLine
end StudyPlan
