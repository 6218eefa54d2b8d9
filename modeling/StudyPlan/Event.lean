import StudyPlan.Course
import StudyPlan.Token.Basic

/-!
# The log

While a study plan is read, a log is kept of what happens.  An `Event` is one thing
that happened; its severity, its headline and its named details are all determined
by it.  `Logged` is a computation's result together with the events on the way to
it.  A computation that fails keeps the events up to the failure.
-/

namespace StudyPlan

/-- How much an event matters, from least to most. -/
inductive Severity where
  | debug
  | info
  | warning
  deriving DecidableEq, Repr

namespace Severity

/-- The place of a severity in the order from least to most. -/
def rank : Severity → Nat
  | debug => 0
  | info => 1
  | warning => 2

/-- The name under which a severity is listed. -/
def name : Severity → String
  | debug => "DEBUG"
  | info => "INFO"
  | warning => "WARN"

end Severity

/-- Something that happened while a study plan was read. -/
inductive Event where
  /-- A source was cut into tokens. -/
  | lexed (tokens faults : Nat)
  /-- A source has lexical faults and is not read further. -/
  | faulty (faults : Nat)
  /-- A token was stepped over inside the named construct. -/
  | skipped (construct : String) (token : Token)
  /-- The title of a program was read. -/
  | programBegun (title : String)
  /-- The opening of a semester was read. -/
  | semesterBegun (number : UInt32) (line : Nat)
  /-- The closing of a semester with this many courses was read. -/
  | semesterDone (number : UInt32) (courses : Nat)
  /-- The opening of a course was read. -/
  | courseBegun (code : String) (semester : UInt32)
  /-- The closing of a course was read. -/
  | courseDone (code name : String)
  /-- A course repeats its code in a field and gives another one. -/
  | codeConflict (declared code : String) (line : Nat)
  /-- A whole token list was read. -/
  | parsed (semesters courses : Nat)
  /-- A token list was given up with this message. -/
  | refused (message : String)
  deriving DecidableEq, Repr

namespace Event

/-- How much an event matters. -/
def severity : Event → Severity
  | faulty _ | refused _ => .info
  | codeConflict _ _ _ => .warning
  | _ => .debug

/-- What happened, in words. -/
def headline : Event → String
  | lexed _ _ => "lexical analysis finished"
  | faulty _ => "lexical errors found"
  | skipped construct _ => s!"skipping token in {construct}"
  | programBegun _ => "parsing program"
  | semesterBegun _ _ => "parsing semester"
  | semesterDone _ _ => "semester completed"
  | courseBegun _ _ => "parsing course"
  | courseDone _ _ => "course completed"
  | codeConflict _ _ _ => "course code field does not match the course block"
  | parsed _ _ => "parse finished"
  | refused _ => "syntax error"

/-- The details of an event by name. -/
def details : Event → List (String × String)
  | lexed tokens faults => [("tokens", toString tokens), ("errors", toString faults)]
  | faulty faults => [("errors", toString faults)]
  | skipped _ t => [("kind", t.kind.name), ("text", t.text), ("line", toString t.line)]
  | programBegun title => [("carrera", title)]
  | semesterBegun number line => [("numero", toString number.toNat), ("line", toString line)]
  | semesterDone number courses =>
    [("numero", toString number.toNat), ("cursos", toString courses)]
  | courseBegun code semester => [("codigo", code), ("semestre", toString semester.toNat)]
  | courseDone code name => [("codigo", code), ("nombre", name)]
  | codeConflict declared code line =>
    [("declared", declared), ("block", code), ("line", toString line)]
  | parsed semesters courses =>
    [("semestres", toString semesters), ("cursos", toString courses)]
  | refused message => [("error", message)]

/-- The conflict between a field and the code of its course, if there is one. -/
def conflict? (code : String) : Detail → Option Event
  | .code declared line => if declared = code then none else some (codeConflict declared code line)
  | _ => none

/-- The events that matter at least as much as `least`. -/
def atLeast (least : Severity) (log : List Event) : List Event :=
  log.filter fun e => least.rank ≤ e.severity.rank

end Event

/-- The result of a computation and the events on the way to it. -/
structure Logged (ε α : Type) where
  log : List Event
  result : Except ε α

namespace Logged

variable {ε α β : Type}

/-- The same computation with earlier events before its own. -/
def after (events : List Event) (x : Logged ε α) : Logged ε α :=
  ⟨events ++ x.log, x.result⟩

/-- The same computation with its value changed by `f`. -/
def map (f : α → β) (x : Logged ε α) : Logged ε β :=
  ⟨x.log, x.result.map f⟩

@[simp] theorem log_after (events : List Event) (x : Logged ε α) :
    (x.after events).log = events ++ x.log := rfl

@[simp] theorem result_after (events : List Event) (x : Logged ε α) :
    (x.after events).result = x.result := rfl

@[simp] theorem log_map (f : α → β) (x : Logged ε α) : (x.map f).log = x.log := rfl

@[simp] theorem result_map (f : α → β) (x : Logged ε α) :
    (x.map f).result = x.result.map f := rfl

end Logged
end StudyPlan
