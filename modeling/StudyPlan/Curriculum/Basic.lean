import StudyPlan.Course
import StudyPlan.Curriculum.OrderedMap

/-!
# Curricula

A curriculum is what a whole study plan adds up to.  It stores every course that
was ever added, in order, and keeps two indices into that store: the courses of
each semester, and the course that a code stands for.

## Repeated codes and repeated semesters

A code that is used again stands for the newest course, while the older one stays
in its semester.  A semester number that is used again goes on with the same list.
Both indices list their keys in the order of first appearance.  Besides, each
semester block is remembered with its line, repeated or not.

A course is filed under the semester that it names itself, whatever block it was
written in.
-/

namespace StudyPlan

/-- The number and the line of a semester as it was written. -/
structure Block where
  number : UInt32
  line : Nat
  deriving DecidableEq, Repr

/-- The number of a course in the store of a curriculum. -/
structure CourseId where
  index : Nat
  deriving DecidableEq, Repr

/-- A whole curriculum. -/
structure Curriculum where
  title : String := ""
  /-- Every course that was added, oldest first. -/
  store : Array Course := #[]
  /-- The courses of each semester, oldest first. -/
  semesters : OrderedMap UInt32 (List CourseId) := .empty
  /-- The newest course of each code. -/
  codes : OrderedMap String CourseId := .empty
  /-- The semester blocks in the order in which they were written. -/
  blocks : List Block := []
  deriving DecidableEq, Repr

namespace Curriculum

/-! ## Building -/

/-- The curriculum that nothing was added to. -/
def empty : Curriculum := {}

/-- The curriculum under another title. -/
def withTitle (c : Curriculum) (title : String) : Curriculum :=
  { c with title }

/-- Remember a semester block and see to it that its number has a list. -/
def openBlock (c : Curriculum) (b : Block) : Curriculum :=
  { c with
    blocks := c.blocks ++ [b]
    semesters := c.semesters.upsert b.number [] id }

/-- The number that the next course will get. -/
def nextId (c : Curriculum) : CourseId :=
  ⟨c.store.size⟩

/-- Store a course, file it under its semester and let its code stand for it. -/
def addCourse (c : Curriculum) (course : Course) : Curriculum :=
  { c with
    store := c.store.push course
    codes := c.codes.insert course.code c.nextId
    semesters := c.semesters.upsert course.semester [] (· ++ [c.nextId]) }

/-- Add a semester: its block, then its courses. -/
def addSemester (c : Curriculum) (s : Semester) : Curriculum :=
  s.courses.foldl addCourse (c.openBlock ⟨s.number, s.line⟩)

/-- Add an entry.  A program gives the curriculum its title. -/
def addEntry (c : Curriculum) : Entry → Curriculum
  | .program p => p.semesters.foldl addSemester (c.withTitle p.title)
  | .semester s => c.addSemester s

/-- The curriculum that a list of entries adds up to. -/
def ofEntries (entries : List Entry) : Curriculum :=
  entries.foldl addEntry empty

/-! ## Looking things up -/

/-- The course with a given number. -/
def get? (c : Curriculum) (id : CourseId) : Option Course :=
  c.store[id.index]?

/-- The course that a code stands for. -/
def course? (c : Curriculum) (code : String) : Option Course :=
  (c.codes.find? code).bind c.get?

/-- The codes, each with the course that it stands for. -/
def coursesByCode (c : Curriculum) : List (String × Course) :=
  c.codes.entries.filterMap fun (code, id) => (c.get? id).map (code, ·)

/-- The courses of a semester. -/
def semester? (c : Curriculum) (number : UInt32) : Option (List Course) :=
  (c.semesters.find? number).map (·.filterMap c.get?)

/-- The semesters, each with its courses. -/
def coursesBySemester (c : Curriculum) : List (UInt32 × List Course) :=
  c.semesters.entries.map fun (number, ids) => (number, ids.filterMap c.get?)

/-- The semester numbers, in order of first appearance. -/
def semesterNumbers (c : Curriculum) : List UInt32 :=
  c.semesters.keys

/-- The number of semesters. -/
def semesterCount (c : Curriculum) : Nat :=
  c.semesters.size

/-- The number of different course codes. -/
def courseCount (c : Curriculum) : Nat :=
  c.codes.size

/-- Has the curriculum neither a title nor a semester? -/
def isEmpty (c : Curriculum) : Bool :=
  c.title.isEmpty && c.semesters.entries.isEmpty

/-- Do two curricula hold the same things?  The order in which the indices list
their keys does not count; the order of courses and blocks does. -/
def agrees (c c' : Curriculum) : Bool :=
  c.title == c'.title && c.store == c'.store && c.semesters.agrees c'.semesters &&
    c.codes.agrees c'.codes && c.blocks == c'.blocks

end Curriculum
end StudyPlan
