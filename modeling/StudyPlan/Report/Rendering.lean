import StudyPlan.Overflow
import StudyPlan.Report.Json

/-!
# Reports as text

The three ways to print a report: the JSON envelope, a summary for people, and the
list of tokens.  A source with lexical faults has no token list worth printing, so
the last two print its faults alike.

## Credits that do not add up

The summary gives the credits of each semester as a 32-bit number.  If those of one
semester do not fit, there is no summary at all.
-/

namespace StudyPlan

/-- A way to print a report. -/
inductive Format where
  | json
  | summary
  | tokens
  deriving DecidableEq, Repr

namespace Format

/-- Every format, the usual one first. -/
def all : List Format := [json, summary, tokens]

/-- The format that is used when none is asked for. -/
def standard : Format := json

/-- The name by which a format is asked for. -/
def name : Format → String
  | json => "json"
  | summary => "summary"
  | tokens => "tokens"

/-- The format of a name, in upper or lower case. -/
def ofName? (name : String) : Option Format :=
  all.find? fun f => sameWord f.name name

end Format

/-- The credits of some courses together. -/
def totalCredits (courses : List Course) : Except Overflow Nat :=
  let total := courses.foldl (fun n c => n + c.credits.toNat) 0
  if total < UInt32.size then .ok total else .error .credits

/-- The lines of the summary for one semester. -/
def semesterLines (number : UInt32) (courses : List Course) : Except Overflow (List String) := do
  let total ← totalCredits courses
  return s!"Semestre {number.toNat} ({total} creditos)" ::
    courses.map fun c => s!"  {c.code} {c.name}"

/-- The summary of a curriculum. -/
def Curriculum.summaryLines (c : Curriculum) : Except Overflow (List String) := do
  let semesters ← c.coursesBySemester.mapM fun (number, courses) =>
    semesterLines number courses
  return s!"Carrera: {c.title}" ::
    s!"{c.semesterCount} semester(s), {c.courseCount} course(s)" ::
    semesters.flatten

/-- The line of the token list for one token. -/
def Token.listing (t : Token) : String :=
  s!"{t.line}:{t.column}\t{t.kind.name}\t{t.text}"

/-- Lines as one text, without a line break at the end. -/
def unlines (lines : List String) : String :=
  "\n".intercalate lines

namespace Report

/-- The summary of a report. -/
def summary : Report → Except Overflow String
  | lexicalFaults faults =>
    .ok (unlines (s!"{faults.length} lexical error(s):" ::
      faults.map fun f => s!"  {f.describe}"))
  | syntaxError _ message _ => .ok s!"Syntax error: {message}"
  | parsed _ curriculum => curriculum.summaryLines.map unlines

/-- The token list of a report. -/
def tokenList (r : Report) : String :=
  unlines ((r.tokens?.getD []).map Token.listing)

/-- A report printed in the given format.  JSON is printed with sorted keys,
indented or not. -/
def render (r : Report) (format : Format) (pretty : Bool) : Except Overflow String :=
  match format with
  | .json => .ok (r.envelope.sortKeys.render (if pretty then .indented else .compact))
  | .summary => r.summary
  | .tokens =>
    match r with
    | lexicalFaults _ => r.summary
    | _ => .ok r.tokenList

end Report
end StudyPlan
