import StudyPlan.Grammar.Body

/-!
# The tables of the language

One table for each construct that has a body.  A table knows the words that begin
the parts of its construct and the bracket that ends it, and has no opinion on any
other token.  Nothing ends the table of a whole plan: a plan is over when its tokens
are.
-/

namespace StudyPlan

/-- The two constructs of the top level. -/
inductive TopLevel where
  | program
  | semester
  deriving DecidableEq, Repr

namespace Table

/-- The table of a whole plan. -/
def plan (t : Token) : Action TopLevel :=
  match t.kind with
  | .keyword .carrera => .enter .program
  | .keyword .semestre => .enter .semester
  | _ => .skip

/-- The table of a program. -/
def program (t : Token) : Action Unit :=
  match t.kind with
  | .keyword .semestre => .enter ()
  | .delimiter .closeBracket => .close
  | _ => .skip

/-- The table of a semester. -/
def semester (t : Token) : Action Unit :=
  match t.kind with
  | .keyword .curso => .enter ()
  | .delimiter .closeBrace => .close
  | _ => .skip

/-- The identifiers that head a list of prerequisites. -/
def prerequisiteSpellings : List String :=
  ["prerequisito", "prerequisitos", "prerrequisito", "prerrequisitos"]

/-- The field that an identifier heads.  Like reserved words, these have no case. -/
def fieldOfIdentifier? (word : String) : Option Field :=
  if prerequisiteSpellings.any (sameWord word) then some .prerequisites
  else if sameWord word "area" then some .area
  else none

/-- The table of a course. -/
def course (t : Token) : Action Field :=
  match t.kind with
  | .keyword .nombre => .enter .name
  | .keyword .codigo => .enter .code
  | .keyword .creditos => .enter .credits
  | .keyword .descripcion => .enter .description
  | .keyword .obligatorio => .enter .mandatory
  | .keyword .prerequisito => .enter .prerequisites
  | .identifier =>
    match fieldOfIdentifier? t.text with
    | some f => .enter f
    | none => .skip
  | .delimiter .closeBrace => .close
  | _ => .skip

/-- The table of a list of prerequisites.  It is the numbers that count; a comma
between them means no more than any other token. -/
def prerequisites (t : Token) : Action Unit :=
  match t.kind with
  | .number => .enter ()
  | .delimiter .closeParen => .close
  | _ => .skip

end Table
end StudyPlan
