import StudyPlan.Source.Fault
import StudyPlan.Source.Position

/-!
# Bracket nesting

While a source is read, the brackets that are open form a stack.  A closing
bracket is right when it is the partner of the innermost open one; otherwise it is
a fault, and a wrong closing bracket leaves the stack as it is.  When the source
ends inside brackets only the innermost of them is reported.
-/

namespace StudyPlan

/-- The brackets that are open, the innermost first. -/
abbrev Nesting := List Opening

namespace Nesting

/-- The nesting after `bracket` was opened at `p`. -/
def enter (n : Nesting) (bracket : Delimiter) (p : Position) : Nesting :=
  ⟨bracket, p.line, p.column⟩ :: n

/-- The nesting after `bracket` was met as a closing bracket at `p`, and the fault
that this is, if it is one. -/
def close (n : Nesting) (bracket : Delimiter) (p : Position) : Nesting × Option Fault :=
  match n with
  | [] => ([], some ⟨.unexpectedClosing bracket, p.line, p.column⟩)
  | innermost :: outer =>
    if innermost.bracket.partner? = some bracket then
      (outer, none)
    else
      (innermost :: outer, some ⟨.mismatchedClosing bracket innermost, p.line, p.column⟩)

/-- The fault of a source that ends inside these brackets. -/
def atEnd : Nesting → Option Fault
  | [] => none
  | innermost :: _ =>
    some ⟨.neverClosed innermost.bracket, innermost.line, innermost.column⟩

end Nesting
end StudyPlan
