import StudyPlan.Report.Basic

/-!
# Reports as JSON

A report has two JSON forms.  `Report.toJson` is its own form and names the outcome
in the member `status`.  `Report.envelope` is the form that is shown to a user: a
truth value `success` and the member `data` with what was found.  In the first, what
is unknown is left out; in the second, an unknown line is null.
-/

namespace StudyPlan

/-- A member that is there only if it has a value. -/
def optionalMember (key : String) (value : Option Json) : List (String × Json) :=
  (value.map fun j => (key, j)).toList

/-- A token as a JSON value. -/
def Token.toJson (t : Token) : Json :=
  .object [
    ("type", .string t.kind.name),
    ("lexeme", .string t.text),
    ("line", .number t.line),
    ("column", .number t.column)]

/-- A list of tokens as a JSON value. -/
def tokensToJson (tokens : List Token) : Json :=
  .array (tokens.map Token.toJson)

/-- A lexical fault as a JSON value. -/
def Fault.toJson (f : Fault) : Json :=
  .object [
    ("kind", .string f.cause.name),
    ("message", .string f.message),
    ("line", .number f.line),
    ("column", .number f.column)]

/-- A course as a JSON value.  What is not known of it is left out. -/
def Course.toJson (c : Course) : Json :=
  .object ([
      ("codigo", .string c.code),
      ("nombre", .string c.name),
      ("creditos", .number c.credits.toNat),
      ("semestre", .number c.semester.toNat)] ++
    optionalMember "descripcion" (c.description.map Json.string) ++
    optionalMember "area" (c.area.map Json.string) ++
    optionalMember "obligatorio" (c.mandatory.map Json.bool) ++
    [("prerrequisitos", .array (c.prerequisites.map Json.string))])

/-- A curriculum as a JSON value. -/
def Curriculum.toJson (c : Curriculum) : Json :=
  .object [
    ("carrera", .string c.title),
    ("semestres", .array (c.coursesBySemester.map fun (number, courses) =>
      .object [
        ("numero", .number number.toNat),
        ("cursos", .array (courses.map Course.toJson))])),
    ("cursos", .object (c.coursesByCode.map fun (code, course) => (code, course.toJson))),
    ("bloques", .array (c.blocks.map fun b =>
      .object [("numero", .number b.number.toNat), ("line", .number b.line)]))]

namespace Report

/-- The report's own JSON form. -/
def toJson : Report → Json
  | lexicalFaults faults =>
    .object [
      ("status", .string "lexical_errors"),
      ("errors", .array (faults.map Fault.toJson))]
  | parsed tokens curriculum =>
    .object (("status", .string "parsed") ::
      optionalMember "tokens" (tokens.map tokensToJson) ++
      [("pensum", curriculum.toJson)])
  | syntaxError tokens message line =>
    .object (("status", .string "syntax_error") ::
      optionalMember "tokens" (tokens.map tokensToJson) ++
      ("message", .string message) ::
      optionalMember "line" (line.map Json.number))

/-- What a report has found, as it is shown to a user. -/
def data : Report → Json
  | lexicalFaults faults => .object [("errors", .array (faults.map Fault.toJson))]
  | parsed tokens curriculum =>
    .object (optionalMember "tokens" (tokens.map tokensToJson) ++
      [("pensum", curriculum.toJson)])
  | syntaxError tokens message line =>
    .object ([("error", .string message), ("line", .ofNat? line)] ++
      optionalMember "tokens" (tokens.map tokensToJson))

/-- The report as it is shown to a user. -/
def envelope (r : Report) : Json :=
  .object [("success", .bool r.isSuccess), ("data", r.data)]

end Report

/-- A rejection as it is shown to a user. -/
def Rejection.envelope (r : Rejection) : Json :=
  .object [("success", .bool false), ("error", .string r.message)]

end StudyPlan
