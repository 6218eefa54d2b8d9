import StudyPlan.CommandLine.Outcome

/-!
# The program

The outer layer: it looks up the two files that the arguments may name, lets
`CommandLine.invoke` decide what to print, and prints it.  The log goes to the error
channel, everything with `--verbose` and without it only what matters more.
-/

namespace StudyPlan
namespace CommandLine

/-- Why the system does not give a file. -/
def refusal : IO.Error → String
  | .noFileOrDirectory _ _ _ => missingText
  | .permissionDenied _ _ _ => "Permission denied (os error 13)"
  | .inappropriateType _ _ _ => "Not a directory (os error 20)"
  | e => toString e

/-- Does the path lead anywhere?  It does not if any look-up on the way fails. -/
def isFound (path : String) : IO Bool := do
  try
    discard <| IO.FS.realPath path
    return true
  catch _ => return false

/-- Look up what stands at a path. -/
def look (path : String) : IO FileContent := do
  try
    return .bytes (← IO.FS.readBinFile path)
  catch e =>
    if ← isFound path then
      match e with
      -- what is found and is of the wrong type is a directory
      | .inappropriateType _ _ _ => return .directory
      | e => return .unreadable (refusal e)
    else return .absent (refusal e)

/-- Look up the files that the arguments name. -/
def lookAll (args : List String) : IO (String → FileContent) := do
  match request? args with
  | some (.analyze options) =>
    let source ← look options.file
    match options.config with
    | none => return fun _ => source
    | some path =>
      let config ← look path
      return fun p => if p = path then config else source
  | _ => return fun _ => .absent missingText

/-- An event as a line of the log. -/
def logLine (e : Event) : String :=
  let details := e.details.map fun (name, value) => s!" {name}={value}"
  s!"{e.severity.name} {e.headline}{String.join details}"

/-- The least severity that is logged. -/
def leastSeverity (args : List String) : Severity :=
  match request? args with
  | some (.analyze options) => if options.verbose then .debug else .info
  | _ => .info

end CommandLine
end StudyPlan

open StudyPlan.CommandLine in
/-- Run the program on its arguments. -/
def main (args : List String) : IO UInt32 := do
  let outcome := invoke args (← lookAll args)
  for e in StudyPlan.Event.atLeast (leastSeverity args) outcome.log do
    IO.eprintln (logLine e)
  IO.print outcome.output
  IO.eprint outcome.errors
  return outcome.exitCode.toUInt32
