import StudyPlan.CommandLine.Arguments
import StudyPlan.Failure

/-!
# Running the program

What the program prints and the code it exits with, as a function of its options and
of the files it finds.  Settings are loaded first, then the source is read, and then
the report is printed.

| outcome                                      | exit code | printed              |
|----------------------------------------------|-----------|----------------------|
| the source describes a curriculum            | 0         | the report           |
| lexical faults or a syntax error             | 1         | the report           |
| rejected source                              | 1         | for JSON an envelope |
| settings or source that cannot be read       | 1         | nothing              |
| arguments that make no sense                 | 2         | nothing              |
| credits that do not add up                   | 101       | nothing              |

Whatever goes wrong without a report is told on the error channel.
-/

namespace StudyPlan
namespace CommandLine

/-- What is found at a path. -/
inductive FileContent where
  /-- Nothing is found, for the given reason. -/
  | absent (reason : String)
  /-- There is a directory. -/
  | directory
  /-- There is a file with this content. -/
  | bytes (content : ByteArray)
  /-- There is something that cannot be read, for the given reason. -/
  | unreadable (reason : String)

/-- What the program leaves behind. -/
structure Outcome where
  exitCode : Nat
  output : String := ""
  errors : String := ""
  /-- What the analysis logged. -/
  log : List Event := []

/-- Why there is usually nothing at a path. -/
def missingText : String := "No such file or directory (os error 2)"

/-- What is said of a directory in place of a file. -/
def directoryText : String := "Is a directory (os error 21)"

/-- What is said of a file that holds no text. -/
def notText : String := "stream did not contain valid UTF-8"

/-- The settings in a file. -/
def settingsOfFile : FileContent → Except Failure Settings
  | .absent reason | .unreadable reason =>
    .error (.settings s!"Failed to open config file: {reason}")
  | .directory => .error (.settings "Failed to parse config file")
  | .bytes content =>
    match Settings.ofBytes? content with
    | some s => .ok s
    | none => .error (.settings "Failed to parse config file")

/-- The settings to use.  Without a settings file, or with one that is not there,
they are the standard ones. -/
def loadSettings (options : Options) (files : String → FileContent) : Except Failure Settings :=
  match options.config with
  | none => .ok {}
  | some path =>
    match files path with
    | .absent _ => .ok {}
    | content => settingsOfFile content

/-- The text of a source file. -/
def readSource : FileContent → Except Failure String
  | .absent reason | .unreadable reason => .error (.io reason)
  | .directory => .error (.io directoryText)
  | .bytes content =>
    match String.fromUTF8? content with
    | some text => .ok text
    | none => .error (.io notText)

/-- A text on a line of its own. -/
def line (text : String) : String := text ++ "\n"

/-- The outcome of a failure. -/
def failed (f : Failure) : Outcome :=
  { exitCode := 1, errors := line s!"Error: {f.message}" }

/-- The outcome of an analysis. -/
def printed (format : Format) (settings : Settings) (x : Logged Rejection Report) : Outcome :=
  match x.result with
  | .error r =>
    { failed (.rejected r) with
      output := if format = .json then line (r.envelope.sortKeys.render .compact) else ""
      log := x.log }
  | .ok report =>
    match report.render format settings.pretty with
    | .ok text =>
      { exitCode := if report.isSuccess then 0 else 1, output := line text, log := x.log }
    | .error overflow => { exitCode := 101, errors := line overflow.message, log := x.log }

/-- Analyse the source that the options name. -/
def run (options : Options) (files : String → FileContent) : Outcome :=
  match loadSettings options files with
  | .error f => failed f
  | .ok settings =>
    match readSource (files options.file) with
    | .error f => failed f
    | .ok source => printed options.format settings (analyze settings source)

/-- How the program is called. -/
def usage : String :=
  "Usage: [-c|--config FILE] [-f|--format json|summary|tokens] [-v|--verbose] FILE"

/-- Do what the arguments ask for. -/
def invoke (args : List String) (files : String → FileContent) : Outcome :=
  match request? args with
  | none => { exitCode := 2, errors := line usage }
  | some .help => { exitCode := 0, output := line usage }
  | some .version => { exitCode := 0, output := line "0.1.0" }
  | some (.analyze options) => run options files

end CommandLine
end StudyPlan
