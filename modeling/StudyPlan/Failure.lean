import StudyPlan.Report.Basic

/-!
# Failures

Everything that can keep the program from giving a curriculum, in one type.  Each
failure has a message that begins with what sort of failure it is.
-/

namespace StudyPlan

/-- Why there is no curriculum. -/
inductive Failure where
  | lexical (faults : List Fault)
  | grammar (e : SyntaxError)
  | rejected (r : Rejection)
  | settings (message : String)
  | io (message : String)
  | internal (message : String)
  deriving DecidableEq, Repr

/-- Why there is no curriculum, in words. -/
def Failure.message : Failure → String
  | lexical faults => "Lexical errors: " ++ "; ".intercalate (faults.map Fault.describe)
  | grammar e => s!"Syntax error: {e.message}"
  | rejected r => s!"Analysis error: {r.message}"
  | settings message => s!"Config error: {message}"
  | io message => s!"IO error: {message}"
  | internal message => s!"Internal error: {message}"

/-- The curriculum that a source describes. -/
def Curriculum.ofSource (source : String) : Except Failure Curriculum :=
  let l := lex source
  if l.isClean then
    match (ofTokens l.tokens).result with
    | .ok c => .ok c
    | .error e => .error (.grammar e)
  else
    .error (.lexical l.faults)

/-- The settings that a text gives. -/
def Settings.ofText (text : String) : Except Failure Settings :=
  match ofText? text with
  | some s => .ok s
  | none => .error (.settings "Failed to parse config")

end StudyPlan
