import StudyPlan.Source.Nesting
import StudyPlan.Source.Segment

/-!
# Lexing

A source is cut into segments, the segments are given their places, and then two
things are read off the placed segments independently: the tokens, and the faults.
Tokens need no memory.  Faults do, because a closing bracket is right or wrong
depending on what is open; `faultsFrom` carries the nesting along.

A source always yields a token list, however many faults it has, and the list
always ends with the mark of the end of the source.
-/

namespace StudyPlan

/-- The tokens of a source and its lexical faults, both in order of appearance. -/
structure Lexing where
  tokens : List Token
  faults : List Fault
  deriving DecidableEq, Repr

namespace Lexing

/-- The nesting after a segment at `p`, and the fault that the segment is, if it
is one. -/
def meet (n : Nesting) (p : Position) : Segment → Nesting × Option Fault
  | .stray c => (n, some ⟨.strayCharacter c, p.line, p.column⟩)
  | .unterminated _ _ => (n, some ⟨.unterminatedText, p.line, p.column⟩)
  | .delimiter d =>
    if d.isOpening then (n.enter d p, none)
    else if d.isClosing then n.close d p
    else (n, none)
  | _ => (n, none)

/-- The faults of placed segments that are met inside the brackets `n`. -/
def faultsFrom (n : Nesting) : List (Position × Segment) → List Fault
  | [] => n.atEnd.toList
  | (p, s) :: rest => (meet n p s).2.toList ++ faultsFrom (meet n p s).1 rest

/-- The tokens and faults of a list of characters. -/
def ofChars (cs : List Char) : Lexing :=
  let placed := Segment.place .start (Segment.split cs)
  { tokens := placed.filterMap (fun ps => ps.2.token? ps.1) ++
      [.finish (Position.start.advance cs)]
    faults := faultsFrom [] placed }

/-- Has the source no lexical fault? -/
def isClean (l : Lexing) : Bool :=
  l.faults.isEmpty

end Lexing

/-- The tokens and faults of a source. -/
def lex (source : String) : Lexing :=
  Lexing.ofChars source.toList

end StudyPlan
