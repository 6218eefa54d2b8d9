import StudyPlan.Overflow

/-!
# Places in a source text

A source is read from left to right, and everything that is found in it --- a
token, a fault --- is reported at the place where it starts.  A `Position` keeps
three running measures of the text already read: its length in UTF-8 bytes, the
number of the line that comes next, and the column on that line.

## What counts as a line and as a column

Only the newline character starts a new line.  A tab or a carriage return is one
column wide like any other character, and columns count characters, not bytes, so
`offset` and `column` drift apart as soon as a line holds a character outside
ASCII.

`advance` is a fold of `step`, hence `advance_append`: reading two texts one after
the other is reading their concatenation.

## How far a place can be

The measures of a place are 64-bit numbers.  A text that is read from its start is
far too short to reach that limit, so lexing reads with `advance`.  From a place
given by somebody else the limit is within reach: `advanceWithin` stops at the first
character after which a measure does not fit, even if a later newline would have
brought the column back to one.  Where it does not stop it agrees with `advance`.
-/

namespace StudyPlan

/-- The place reached after reading some text: bytes read so far, and the line
and column of the character that comes next.  Lines and columns start at one. -/
structure Position where
  offset : Nat
  line : Nat
  column : Nat
  deriving DecidableEq, Repr

namespace Position

/-- The place before any text has been read. -/
def start : Position := ⟨0, 1, 1⟩

/-- The place after one more character. -/
def step (p : Position) (c : Char) : Position :=
  if c = '\n' then
    ⟨p.offset + c.utf8Size, p.line + 1, 1⟩
  else
    ⟨p.offset + c.utf8Size, p.line, p.column + 1⟩

/-- The place after the characters of `text`. -/
def advance (p : Position) (text : List Char) : Position :=
  text.foldl step p

@[simp] theorem advance_nil (p : Position) : p.advance [] = p := rfl

@[simp] theorem advance_cons (p : Position) (c : Char) (cs : List Char) :
    p.advance (c :: cs) = (p.step c).advance cs := rfl

theorem advance_append (p : Position) (cs ds : List Char) :
    p.advance (cs ++ ds) = (p.advance cs).advance ds :=
  List.foldl_append

/-- Every measure of the place fits into 64 bits. -/
def Fits (p : Position) : Prop :=
  p.offset < UInt64.size ∧ p.line < UInt64.size ∧ p.column < UInt64.size

instance (p : Position) : Decidable p.Fits := by
  unfold Fits; infer_instance

theorem fits_start : start.Fits := by decide

/-- The place after one more character, if it fits. -/
def stepWithin (p : Position) (c : Char) : Except Overflow Position :=
  if (p.step c).Fits then .ok (p.step c) else .error .position

/-- The place after the characters of `text`, if every place on the way fits. -/
def advanceWithin (p : Position) (text : List Char) : Except Overflow Position :=
  text.foldlM stepWithin p

@[simp] theorem advanceWithin_nil (p : Position) : p.advanceWithin [] = .ok p := rfl

theorem advanceWithin_cons_of_fits {p : Position} {c : Char} (h : (p.step c).Fits)
    (cs : List Char) : p.advanceWithin (c :: cs) = (p.step c).advanceWithin cs := by
  simp [advanceWithin, stepWithin, h, bind, Except.bind]

theorem advanceWithin_cons_of_not_fits {p : Position} {c : Char} (h : ¬ (p.step c).Fits)
    (cs : List Char) : p.advanceWithin (c :: cs) = .error .position := by
  simp [advanceWithin, stepWithin, h, bind, Except.bind]

theorem eq_advance_of_advanceWithin {p q : Position} {text : List Char}
    (h : p.advanceWithin text = .ok q) : q = p.advance text := by
  induction text generalizing p with
  | nil => cases h; rfl
  | cons c cs ih =>
    by_cases hc : (p.step c).Fits
    · rw [advanceWithin_cons_of_fits hc] at h
      exact ih h
    · rw [advanceWithin_cons_of_not_fits hc] at h
      cases h

/-- A place in words. -/
def describe (p : Position) : String :=
  s!"line: {p.line}, column: {p.column}"

end Position
end StudyPlan
