/-!
# Literals

The three spellings that take more than one character: a run of digits, a word,
and a text between quotes.  Each reader takes a literal off the front of the
characters and hands back the rest, or says what it missed and how far in, counted
in bytes, it missed it.

Digits and letters are those of ASCII: a character outside ASCII belongs to no
number and to no word, although it may stand inside a quoted text.
-/

namespace StudyPlan
namespace Literal

/-- The two characters that may enclose a quoted text. -/
def isQuote (c : Char) : Bool :=
  c == '"' || c == '\''

/-- A character that may begin a word: an ASCII letter or an underscore. -/
def isLetter (c : Char) : Bool :=
  c.isAlpha || c == '_'

/-- A character that may continue a word: an ASCII letter, an ASCII digit or an
underscore. -/
def isWordPart (c : Char) : Bool :=
  c.isAlphanum || c == '_'

/-- What a reader was looking for when it gave up. -/
inductive Wanted where
  | digit
  | letter
  | quote (q : Char)
  deriving DecidableEq, Repr

/-- A literal that is not there: what was missed, and how many bytes into the
characters. -/
structure Mismatch where
  offset : Nat
  wanted : Wanted
  deriving DecidableEq, Repr

/-- The number of bytes that characters take up in UTF-8. -/
def byteLength : List Char → Nat
  | [] => 0
  | c :: cs => c.utf8Size + byteLength cs

/-- All the digits at the front. -/
def number (cs : List Char) : Except Mismatch (List Char × List Char) :=
  match cs.takeWhile Char.isDigit with
  | [] => .error ⟨0, .digit⟩
  | digits => .ok (digits, cs.dropWhile Char.isDigit)

/-- A letter and all the word characters after it. -/
def word (cs : List Char) : Except Mismatch (List Char × List Char) :=
  match cs with
  | [] => .error ⟨0, .letter⟩
  | c :: rest =>
    if isLetter c then
      .ok (c :: rest.takeWhile isWordPart, rest.dropWhile isWordPart)
    else
      .error ⟨0, .letter⟩

/-- The text between a mark `q` at the front and the next mark `q`, wherever that
is. -/
def quoted (q : Char) (cs : List Char) : Except Mismatch (List Char × List Char) :=
  match cs with
  | [] => .error ⟨0, .quote q⟩
  | c :: inner =>
    if c = q then
      match inner.dropWhile (· ≠ q) with
      | [] => .error ⟨byteLength cs, .quote q⟩
      | _ :: rest => .ok (inner.takeWhile (· ≠ q), rest)
    else
      .error ⟨0, .quote q⟩

/-! ## A literal and the rest make up the characters -/

/-- A number and what follows it make up the characters, and a number is not empty. -/
theorem number_append {cs digits rest : List Char}
    (h : number cs = .ok (digits, rest)) : digits ++ rest = cs ∧ digits ≠ [] := by
  unfold number at h
  split at h
  · cases h
  · next hne =>
    cases h
    exact ⟨List.takeWhile_append_dropWhile, hne⟩

/-- A word and what follows it make up the characters, and a word is not empty. -/
theorem word_append {cs letters rest : List Char}
    (h : word cs = .ok (letters, rest)) : letters ++ rest = cs ∧ letters ≠ [] := by
  unfold word at h
  split at h
  · cases h
  · split at h
    · cases h
      exact ⟨by simp [List.takeWhile_append_dropWhile], by simp⟩
    · cases h

/-- A quoted text between its marks, and what follows, make up the characters. -/
theorem quoted_append {q : Char} {cs body rest : List Char}
    (h : quoted q cs = .ok (body, rest)) : q :: body ++ q :: rest = cs := by
  unfold quoted at h
  split at h
  · cases h
  · next c inner =>
    split at h
    · next hc =>
      split at h
      · cases h
      · next d rest' hd =>
        cases h
        -- the mark that ended the run is the one that was looked for
        have hq : d = q := by
          have := List.head?_dropWhile_not (fun x => decide (x ≠ q)) inner
          rw [hd] at this
          simpa using this
        subst hc hq
        rw [List.cons_append, ← hd, List.takeWhile_append_dropWhile]
    · cases h

end Literal
end StudyPlan
