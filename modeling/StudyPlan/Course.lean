/-!
# Courses, semesters and programs

The things that a study plan describes.  A course is written as a code and a body
of fields; a semester is a numbered list of courses; a program is a title with a
list of semesters.  At the top level of a plan, semesters may stand alone or
inside a program, and each of these is an `Entry`.

## Fields

`Course.record` says what one more field does to a course.  A field replaces what
an earlier one of its kind has said, and a list of prerequisites is added to the
earlier lists.  A field that repeats the course's code changes nothing; all it can
do is disagree with the code that heads the course.  Since each field touches only
its own part of the course, the order of fields of different kinds is of no
consequence.

Semester numbers and credits are 32-bit numbers.
-/

namespace StudyPlan

/-- A course of a study plan. -/
structure Course where
  code : String
  semester : UInt32
  name : String := ""
  credits : UInt32 := 0
  description : Option String := none
  area : Option String := none
  mandatory : Option Bool := none
  prerequisites : List String := []
  deriving DecidableEq, Repr

/-- The seven fields that the body of a course may hold. -/
inductive Field where
  | name
  | code
  | credits
  | description
  | mandatory
  | prerequisites
  | area
  deriving DecidableEq, Repr

namespace Field

/-- The word that heads the field, as messages quote it. -/
def label : Field → String
  | name => "NOMBRE"
  | code => "CODIGO"
  | credits => "CREDITOS"
  | description => "DESCRIPCION"
  | mandatory => "OBLIGATORIO"
  | prerequisites => "PREREQUISITO"
  | area => "AREA"

/-- What the field's value is, as messages put it. -/
def value : Field → String
  | name => "the course name"
  | code => "the course code"
  | credits => "the number of credits"
  | description => "the course description"
  | mandatory => "true or false"
  | prerequisites => "the prerequisite list"
  | area => "the course area"

end Field

/-- A field with the value that was read for it.  A repeated code also remembers
the line of the field. -/
inductive Detail where
  | name (text : String)
  | code (text : String) (line : Nat)
  | credits (amount : UInt32)
  | description (text : String)
  | mandatory (value : Bool)
  | prerequisites (codes : List String)
  | area (text : String)
  deriving DecidableEq, Repr

namespace Course

/-- A course with one more field. -/
def record (c : Course) : Detail → Course
  | .name text => { c with name := text }
  | .code _ _ => c
  | .credits amount => { c with credits := amount }
  | .description text => { c with description := some text }
  | .mandatory value => { c with mandatory := some value }
  | .prerequisites codes => { c with prerequisites := c.prerequisites ++ codes }
  | .area text => { c with area := some text }

/-- The course that a code, a semester and a body of fields describe. -/
def ofDetails (code : String) (semester : UInt32) (details : List Detail) : Course :=
  details.foldl record { code, semester }

@[simp] theorem record_code (c : Course) (d : Detail) : (c.record d).code = c.code := by
  cases d <;> rfl

@[simp] theorem record_semester (c : Course) (d : Detail) :
    (c.record d).semester = c.semester := by
  cases d <;> rfl

end Course

/-- A numbered semester with its courses.  `line` is where the semester begins. -/
structure Semester where
  number : UInt32
  line : Nat
  courses : List Course
  deriving DecidableEq, Repr

/-- A program of studies: its title and the semesters written inside it. -/
structure Program where
  title : String
  semesters : List Semester
  deriving DecidableEq, Repr

/-- What may stand at the top level of a study plan. -/
inductive Entry where
  | program (p : Program)
  | semester (s : Semester)
  deriving DecidableEq, Repr

end StudyPlan
