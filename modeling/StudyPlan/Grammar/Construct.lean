import StudyPlan.Curriculum.Basic
import StudyPlan.Grammar.Table

/-!
# The constructs of the language

    plan       ::=  (program | semester)*
    program    ::=  CARRERA ':' title ('[' semester* ']')?
    semester   ::=  SEMESTRE ':' number '{' course* '}'
    course     ::=  CURSO ':' code '{' field* '}'
    field      ::=  word ':' value ';'
                 |  PREREQUISITO ':' '(' code (',' code)* ')'

Between the constructs of a body any other token may stand, and is stepped over.
Inside a construct every token is obligatory.  Each parser below is entered on the
word that heads its construct and reads that word without looking at it, since the
table that led there has looked already.

The course parser writes its warnings when the whole body has been read: what they
compare is the code of the course with the codes that its fields repeat.
-/

namespace StudyPlan
namespace Parser

/-- Read the semicolon that ends the field `f`. -/
def fieldEnd (f : Field) : Parser Token :=
  delimiter .semicolon (.symbolAfter .semicolon f.value)

/-- Read a list of course codes in parentheses. -/
def prerequisites : Parser (List String) := do
  let _ ← delimiter .openParen (.symbolAfter .openParen "':'")
  body "the prerequisites" Table.prerequisites (.closedBy .closeParen)
    fun _ => numeral (.item "a course code")

/-- Read the value of the field `f`, whose word stands on line `line`, with the
semicolon after it.  A list of prerequisites has no semicolon. -/
def fieldValue (f : Field) (line : Nat) : Parser Detail :=
  match f with
  | .name => do
    let text ← quoted (.item f.value)
    let _ ← fieldEnd f
    return .name text
  | .code => do
    let text ← quoted (.item f.value)
    let _ ← fieldEnd f
    return .code text line
  | .credits => do
    let amount ← number (.item f.value)
    let _ ← fieldEnd f
    return .credits amount
  | .description => do
    let text ← quoted (.item f.value)
    let _ ← fieldEnd f
    return .description text
  | .mandatory => do
    let value ← boolean (.item f.value)
    let _ ← fieldEnd f
    return .mandatory value
  | .prerequisites => do
    return .prerequisites (← prerequisites)
  | .area => do
    let text ← quoted (.item f.value)
    let _ ← fieldEnd f
    return .area text

/-- Read the field `f` of a course. -/
def field (f : Field) : Parser Detail := do
  let word ← lead
  let _ ← delimiter .colon (.symbolAfter .colon f.label)
  fieldValue f word.line

/-- Read a course of the semester `semester`. -/
def course (semester : UInt32) : Parser Course := do
  let _ ← lead
  let _ ← delimiter .colon (.symbolAfter .colon "CURSO")
  let code ← numeral (.item "the course code")
  let _ ← delimiter .openBrace (.symbolAfter .openBrace "the course code")
  emit (.courseBegun code semester)
  let details ← body s!"course {code}" Table.course (.closedBy .closeBrace) field
  emitAll (details.filterMap (Event.conflict? code))
  let course := Course.ofDetails code semester details
  emit (.courseDone course.code course.name)
  return course

/-- Read a semester. -/
def semester : Parser Semester := do
  let word ← lead
  let _ ← delimiter .colon (.symbolAfter .colon "SEMESTRE")
  let n ← number (.item "the semester number")
  let _ ← delimiter .openBrace (.symbolAfter .openBrace "the semester number")
  emit (.semesterBegun n word.line)
  let courses ← body s!"semester {n.toNat}" Table.semester (.closedBy .closeBrace)
    fun _ => course n
  emit (.semesterDone n courses.length)
  return { number := n, line := word.line, courses }

/-- Read the semesters of a program, if a bracket opens them. -/
def programBody : Parser (List Semester)
  | [] => ⟨[], .ok ([], [])⟩
  | t :: ts =>
    if t.isDelimiter .openBracket then
      body "the program" Table.program .anywhere (fun _ => semester) ts
    else
      ⟨[], .ok ([], t :: ts)⟩

/-- Read a program. -/
def program : Parser Program := do
  let _ ← lead
  let _ ← delimiter .colon (.symbolAfter .colon "CARRERA")
  let title ← quoted (.item "the program name")
  emit (.programBegun title)
  let semesters ← programBody
  return { title, semesters }

/-- Read an entry of the top level. -/
def entry : TopLevel → Parser Entry
  | .program => return .program (← program)
  | .semester => return .semester (← semester)

/-- Read all entries of a plan. -/
def entries : Parser (List Entry) :=
  body "the pensum" Table.plan .anywhere entry

/-- Read a plan and add its entries up. -/
def curriculum : Parser Curriculum :=
  entries.map Curriculum.ofEntries

end Parser

/-- The curriculum that a token list describes. -/
def Curriculum.ofTokens (tokens : List Token) : Logged SyntaxError Curriculum :=
  match Parser.curriculum tokens with
  | ⟨log, .error e⟩ => ⟨log, .error e⟩
  | ⟨log, .ok (c, _)⟩ => ⟨log ++ [.parsed c.semesterCount c.courseCount], .ok c⟩

end StudyPlan
