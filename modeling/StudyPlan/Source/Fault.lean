import StudyPlan.Token.Delimiter

/-!
# Lexical faults

What can be wrong with a source before anyone looks at its grammar.  A fault
never stops the reading: all faults of a source are collected, each with its cause
and the place where it was noticed.
-/

namespace StudyPlan

/-- A bracket that is waiting to be closed, with the place where it stands. -/
structure Opening where
  bracket : Delimiter
  line : Nat
  column : Nat
  deriving DecidableEq, Repr

/-- Why a source is lexically wrong. -/
inductive Cause where
  /-- A character that begins no segment of the language. -/
  | strayCharacter (c : Char)
  /-- A quoted text without its closing mark. -/
  | unterminatedText
  /-- A closing bracket while none is open. -/
  | unexpectedClosing (bracket : Delimiter)
  /-- A closing bracket of another pair than the innermost open bracket. -/
  | mismatchedClosing (bracket : Delimiter) (innermost : Opening)
  /-- An opening bracket that is still open when the source ends. -/
  | neverClosed (bracket : Delimiter)
  deriving DecidableEq, Repr

/-- The name under which a cause is reported. -/
def Cause.name : Cause → String
  | strayCharacter _ => "UnexpectedCharacter"
  | unterminatedText => "UnterminatedString"
  | unexpectedClosing _ => "UnexpectedClosing"
  | mismatchedClosing _ _ => "MismatchedClosing"
  | neverClosed _ => "UnclosedOpening"

/-- A lexical fault: its cause and the place where it was noticed. -/
structure Fault where
  cause : Cause
  line : Nat
  column : Nat
  deriving DecidableEq, Repr

namespace Fault

/-- What is wrong, in words. -/
def message (f : Fault) : String :=
  match f.cause with
  | .strayCharacter c => s!"Unexpected character: '{c}'"
  | .unterminatedText => "Unterminated string"
  | .unexpectedClosing b => s!"Unexpected closing symbol '{b.symbol}' at line {f.line}."
  | .mismatchedClosing b o =>
    s!"'{b.symbol}' at line {f.line}, column {f.column} does not match opening " ++
      s!"'{o.bracket.symbol}' at line {o.line}, column {o.column}."
  | .neverClosed b =>
    s!"Opening symbol '{b.symbol}' at line {f.line}, column {f.column} was never closed."

/-- What is wrong and where. -/
def describe (f : Fault) : String :=
  s!"{f.message} (line {f.line}, column {f.column})"

end Fault
end StudyPlan
