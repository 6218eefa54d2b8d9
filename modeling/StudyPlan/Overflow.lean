/-!
# Numbers that grow too large

Credits are 32-bit numbers and the measures of a place in a text are 64-bit numbers.
A sum that does not fit is never cut down to its width: there is no answer at all,
only the cause that is named here.
-/

namespace StudyPlan

/-- A sum that does not fit into its width. -/
inductive Overflow where
  /-- The credits of one semester together do not fit into 32 bits. -/
  | credits
  /-- An offset, a line or a column does not fit into 64 bits. -/
  | position
  deriving DecidableEq, Repr

/-- What went wrong, in words.  They do not tell which sum it was. -/
def Overflow.message : Overflow → String
  | credits | position => "attempt to add with overflow"

end StudyPlan
