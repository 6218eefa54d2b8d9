import StudyPlan.Source.Literal
import StudyPlan.Token.Basic

/-!
# Segments: a source cut into pieces

Reading a source starts by cutting it up.  Every character of the source belongs
to exactly one segment: a blank, a character that means nothing, a delimiter, a
number, a word or a quoted text.  The cut loses nothing --- `flatMap_text_split`
puts the segments back together into the source --- so the place of a segment is
the place reached by the segments before it.

## Where one segment ends

The first character of a segment decides its sort.  Numbers and words run on as
long as they can.  A quoted text runs to the next occurrence of its own opening
mark; if there is none, it swallows the rest of the source and is
`unterminated`, and so it can only be the last segment.
-/

namespace StudyPlan

/-- A piece of a source. -/
inductive Segment where
  | blank (c : Char)
  | stray (c : Char)
  | delimiter (d : Delimiter)
  | number (digits : List Char)
  | word (letters : List Char)
  | quoted (mark : Char) (body : List Char)
  | unterminated (mark : Char) (body : List Char)
  deriving DecidableEq, Repr

namespace Segment

/-- The characters that separate segments and mean nothing else. -/
def isBlank (c : Char) : Bool :=
  c == ' ' || c == '\t' || c == '\r' || c == '\n'

/-- The characters of the source that a segment stands for. -/
def text : Segment → List Char
  | blank c => [c]
  | stray c => [c]
  | delimiter d => [d.symbol]
  | number digits => digits
  | word letters => letters
  | quoted mark body => mark :: body ++ [mark]
  | unterminated mark body => mark :: body

/-- The segment that begins with the character `c`, and the characters after it. -/
def first (c : Char) (cs : List Char) : Segment × List Char :=
  if isBlank c then (blank c, cs)
  else match Delimiter.ofChar? c with
  | some d => (delimiter d, cs)
  | none =>
    if Literal.isQuote c then
      match Literal.quoted c (c :: cs) with
      | .ok (body, rest) => (quoted c body, rest)
      | .error _ => (unterminated c cs, [])
    else match Literal.number (c :: cs) with
    | .ok (digits, rest) => (number digits, rest)
    | .error _ =>
      match Literal.word (c :: cs) with
      | .ok (letters, rest) => (word letters, rest)
      | .error _ => (stray c, cs)

/-! ## A segment and the rest make up the source -/

theorem text_first_append (c : Char) (cs : List Char) :
    (first c cs).1.text ++ (first c cs).2 = c :: cs := by
  unfold first
  split
  · simp [text]
  · split
    · next d hd => simp [text, Delimiter.ofChar?_eq_some_iff.1 hd]
    · split
      · split
        · next body rest h => simpa [text] using Literal.quoted_append h
        · simp [text]
      · split
        · next digits rest h => simpa [text] using (Literal.number_append h).1
        · split
          · next letters rest h => simpa [text] using (Literal.word_append h).1
          · simp [text]

theorem text_first_ne_nil (c : Char) (cs : List Char) : (first c cs).1.text ≠ [] := by
  unfold first
  split
  · simp [text]
  · split
    · simp [text]
    · split
      · split <;> simp [text]
      · split
        · next digits rest h => simpa [text] using (Literal.number_append h).2
        · split
          · next letters rest h => simpa [text] using (Literal.word_append h).2
          · simp [text]

/-- A segment takes at least one character. -/
theorem length_first_lt (c : Char) (cs : List Char) :
    (first c cs).2.length < (c :: cs).length := by
  have h := congrArg List.length (text_first_append c cs)
  have h0 := List.length_pos_iff.2 (text_first_ne_nil c cs)
  rw [List.length_append] at h
  omega

/-- All the segments of a source, from left to right. -/
def split : List Char → List Segment
  | [] => []
  | c :: cs => (first c cs).1 :: split (first c cs).2
termination_by cs => cs.length
decreasing_by exact length_first_lt c cs

@[simp] theorem split_nil : split [] = [] := by
  rw [split]

theorem split_cons (c : Char) (cs : List Char) :
    split (c :: cs) = (first c cs).1 :: split (first c cs).2 := by
  rw [split]

/-- Nothing of the source is lost. -/
theorem flatMap_text_split (cs : List Char) : (split cs).flatMap text = cs := by
  induction cs using split.induct with
  | case1 => simp
  | case2 c cs ih => rw [split_cons, List.flatMap_cons, ih, text_first_append]

/-! ## Places and tokens -/

/-- The segments with their places, the first one standing at `p`. -/
def place (p : Position) : List Segment → List (Position × Segment)
  | [] => []
  | s :: rest => (p, s) :: place (p.advance s.text) rest

/-- The token that a segment stands for.  Blanks and what is not understood stand
for none. -/
def token? (p : Position) : Segment → Option Token
  | blank _ | stray _ | unterminated _ _ => none
  | delimiter d => some (.startingAt p (.delimiter d) [d.symbol])
  | number digits => some (.startingAt p .number digits)
  | word letters => some (.startingAt p (.ofWord (String.ofList letters)) letters)
  | quoted _ body => some (.startingAt p .quoted body)

end Segment
end StudyPlan
