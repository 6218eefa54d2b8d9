import StudyPlan.Token.Basic

/-!
# Syntax errors

Reading a token list stops at the first token that cannot be right.  The error
says what was wanted there and what was found: another token, or nothing because
the tokens had ended.  A number that is too large is an error of its own, since it
is a number as wanted, only not a usable one.
-/

namespace StudyPlan

/-- What a reader of tokens wanted. -/
inductive Expectation where
  /-- A piece of information, described in words. -/
  | item (description : String)
  /-- A delimiter after something else. -/
  | symbolAfter (d : Delimiter) (place : String)
  /-- The delimiter that closes the named construct. -/
  | closing (d : Delimiter) (construct : String)
  /-- Something that the caller has put in its own words. -/
  | other (message : String)
  deriving DecidableEq, Repr

/-- What was wanted, in words. -/
def Expectation.message : Expectation → String
  | item description => s!"Expected {description}"
  | symbolAfter d place => s!"Expected '{d.symbol}' after {place}"
  | closing d construct => s!"Expected '{d.symbol}' to close {construct}"
  | other message => message

/-- Why a token list could not be read. -/
inductive SyntaxError where
  /-- Another token was found than the one wanted. -/
  | unexpected (wanted : Expectation) (found : Token)
  /-- The tokens ended where one was wanted. -/
  | endOfTokens (wanted : Expectation)
  /-- A number does not fit into 32 bits, or is not written as a number. -/
  | outOfRange (text : String) (line : Nat)
  deriving DecidableEq, Repr

namespace SyntaxError

/-- What is wrong, in words. -/
def message : SyntaxError → String
  | unexpected wanted found =>
    s!"{wanted.message} - found {found.kind.name} '{found.text}' at line {found.line}"
  | endOfTokens wanted => s!"{wanted.message} - reached end of file unexpectedly"
  | outOfRange text line => s!"Number '{text}' at line {line} is out of range"

/-- Where the error is: the line of the token at fault.  The end of the tokens has
no line. -/
def line? : SyntaxError → Option Nat
  | unexpected _ found => some found.line
  | endOfTokens _ => none
  | outOfRange _ line => some line

/-- The token that was found in place of the one wanted. -/
def found? : SyntaxError → Option Token
  | unexpected _ found => some found
  | _ => none

end SyntaxError
end StudyPlan
