import StudyPlan.Proofs.Matching
import StudyPlan.Proofs.Relexing

/-!
# Two sources, one below the other

When a source is written below another one, with a newline between them, nothing is read
differently.  The newline ends a number or a word that the first source may have ended
with, and it leaves the first column to the second source.  So the tokens and the faults
of the second source are found as many lines further down as the first one has, and in
the same columns.

## What must have come to an end

Two things of the first source may reach into the second one.  A quoted text that is not
terminated would swallow the newline and whatever follows it, so the segments of the first
source must all be terminated (`Terminated`).  And a bracket that is still open would be
closed by the second source, so that the faults, though not the tokens, need all brackets
to be closed (`nestingAfter`).
-/

namespace StudyPlan

/-! ## Lower places -/

/-- The second place is that many lines below the first one, in the same column. -/
structure Position.Below (lines : Nat) (p q : Position) : Prop where
  line : q.line = p.line + lines
  column : q.column = p.column

/-- The bracket that many lines further down. -/
def Opening.below (lines : Nat) (o : Opening) : Opening :=
  { o with line := o.line + lines }

/-- The token that many lines further down. -/
def Token.below (lines : Nat) (t : Token) : Token :=
  { t with line := t.line + lines }

/-- The cause when the brackets stand that many lines further down. -/
def Cause.below (lines : Nat) : Cause → Cause
  | mismatchedClosing b innermost => mismatchedClosing b (innermost.below lines)
  | c => c

/-- The fault that many lines further down. -/
def Fault.below (lines : Nat) (f : Fault) : Fault :=
  ⟨f.cause.below lines, f.line + lines, f.column⟩

section Below

variable {lines : Nat} {p q : Position}

theorem Position.Below.step (h : p.Below lines q) (c : Char) :
    (p.step c).Below lines (q.step c) := by
  rw [Position.step, Position.step]
  by_cases hc : c = '\n'
  · rw [if_pos hc, if_pos hc]
    have hline := h.line
    exact ⟨by simp only; omega, rfl⟩
  · rw [if_neg hc, if_neg hc]
    have hcolumn := h.column
    exact ⟨h.line, by simp only; omega⟩

theorem Position.Below.advance (h : p.Below lines q) (cs : List Char) :
    (p.advance cs).Below lines (q.advance cs) := by
  induction cs generalizing p q with
  | nil => exact h
  | cons c cs ih => exact ih (h.step c)

theorem Position.Below.startingAt (h : p.Below lines q) (kind : Kind) (text : List Char) :
    Token.startingAt q kind text = (Token.startingAt p kind text).below lines := by
  rw [Token.startingAt, Token.startingAt, Token.below, h.line, h.column]

namespace Segment

theorem token?_below (h : p.Below lines q) (s : Segment) :
    s.token? q = (s.token? p).map (Token.below lines) := by
  cases s with
  | blank | stray | unterminated => rfl
  | delimiter | number | word | quoted => exact congrArg some (h.startingAt _ _)

theorem tokensOf_place_below (h : p.Below lines q) (ss : List Segment) :
    tokensOf (place q ss) = (tokensOf (place p ss)).map (Token.below lines) := by
  induction ss generalizing p q with
  | nil => rfl
  | cons s ss ih =>
    have ih := ih (h.advance s.text)
    rw [place, place, tokensOf, tokensOf, List.filterMap_cons, List.filterMap_cons,
      token?_below h]
    cases s.token? p with
    | none => exact ih
    | some t => exact congrArg (t.below lines :: ·) ih

end Segment

namespace Lexing

open Segment

theorem close_below (h : p.Below lines q) (n : Nesting) (d : Delimiter) :
    Nesting.close (n.map (Opening.below lines)) d q =
      ((n.close d p).1.map (Opening.below lines), (n.close d p).2.map (Fault.below lines)) := by
  rcases n with _ | ⟨o, n⟩
  · simp [Nesting.close, Fault.below, Cause.below, h.line, h.column]
  · rw [List.map_cons, Nesting.close, Nesting.close]
    by_cases hp : o.bracket.partner? = some d
    · rw [if_pos hp, if_pos (show (o.below lines).bracket.partner? = some d from hp)]
      rfl
    · rw [if_neg hp, if_neg (show ¬ (o.below lines).bracket.partner? = some d from hp)]
      simp [Fault.below, Cause.below, h.line, h.column]

theorem meet_below (h : p.Below lines q) (n : Nesting) (s : Segment) :
    meet (n.map (Opening.below lines)) q s =
      ((meet n p s).1.map (Opening.below lines), (meet n p s).2.map (Fault.below lines)) := by
  cases s with
  | delimiter d =>
    rw [meet, meet]
    split
    · simp [Nesting.enter, Opening.below, h.line, h.column]
    · split
      · exact close_below h n d
      · rfl
  | stray | unterminated => simp [meet, Fault.below, Cause.below, h.line, h.column]
  | blank | number | word | quoted => rfl

/-- The faults of segments further down are their faults further down. -/
theorem faultsFrom_place_below (h : p.Below lines q) (n : Nesting) (ss : List Segment) :
    faultsFrom (n.map (Opening.below lines)) (place q ss) =
      (faultsFrom n (place p ss)).map (Fault.below lines) := by
  induction ss generalizing n p q with
  | nil =>
    rcases n with _ | ⟨o, n⟩
    · rfl
    · rfl
  | cons s ss ih =>
    rw [place, place, faultsFrom, faultsFrom, meet_below h, List.map_append]
    dsimp only
    rw [ih (h.advance s.text)]
    cases (meet n p s).2 <;> rfl

end Lexing
end Below

/-! ## Segments in front of other segments -/

namespace Segment

/-- No text is left without its closing mark. -/
def Terminated (ss : List Segment) : Prop :=
  ∀ mark body, .unterminated mark body ∉ ss

theorem Stands.append {s : Segment} {rest more : List Char} (h : s.Stands rest)
    (hs : ∀ mark body, s ≠ .unterminated mark body)
    (hmore : ∀ c ∈ more.head?, Literal.isWordPart c = false) : s.Stands (rest ++ more) := by
  -- the first character behind the segment is the one that was there, or that of `more`
  have hend : ∀ {P : Char → Bool}, (∀ {c}, Literal.isWordPart c = false → P c = false) →
      (∀ c ∈ rest.head?, P c = false) → ∀ c ∈ (rest ++ more).head?, P c = false := by
    intro P hP hrest c hc
    rcases rest with _ | ⟨r, rest⟩
    · exact hP (hmore c hc)
    · exact hrest c hc
  cases h with
  | blank hc => exact .blank hc
  | stray hc => exact .stray hc
  | delimiter d => exact .delimiter d _
  | number hne hdigits hrest =>
    exact .number hne hdigits (hend Literal.isDigit_eq_false_of_isWordPart hrest)
  | word hc hcs hrest => exact .word hc hcs (hend id hrest)
  | quoted hq hbody => exact .quoted hq hbody
  | unterminated => exact absurd rfl (hs _ _)

theorem allStand_append {ss us : List Segment} (hss : AllStand ss) (hterm : Terminated ss)
    (hus : AllStand us) (hhead : ∀ c ∈ (us.flatMap text).head?, Literal.isWordPart c = false) :
    AllStand (ss ++ us) := by
  induction ss with
  | nil => exact hus
  | cons s ss ih =>
    obtain ⟨hs, hss⟩ := hss
    have hfirst : s.Stands (ss.flatMap text ++ us.flatMap text) := by
      refine hs.append (fun mark body heq => hterm mark body ?_) hhead
      rw [heq]
      exact List.mem_cons_self ..
    rw [← List.flatMap_append] at hfirst
    exact ⟨hfirst, ih hss fun mark body hmem => hterm mark body (List.mem_cons_of_mem _ hmem)⟩

/-- A newline stands between the cut of what is before it and the cut of what is behind
it. -/
theorem split_append_newline {cs ds : List Char} (h : Terminated (split cs)) :
    split (cs ++ '\n' :: ds) = split cs ++ .blank '\n' :: split ds := by
  have hlower : AllStand (.blank '\n' :: split ds) := ⟨.blank (by decide), allStand_split ds⟩
  rw [split_eq_iff]
  constructor
  · refine allStand_append (allStand_split cs) h hlower ?_
    rintro c ⟨⟩
    decide
  · rw [List.flatMap_append, List.flatMap_cons, flatMap_text_split, flatMap_text_split]
    rfl

theorem place_append (p : Position) (ss us : List Segment) :
    place p (ss ++ us) = place p ss ++ place (p.advance (ss.flatMap text)) us := by
  induction ss generalizing p with
  | nil => rfl
  | cons s ss ih =>
    rw [List.cons_append, place, place, ih, List.flatMap_cons, Position.advance_append]
    rfl

end Segment

/-! ## Faults of unterminated texts -/

namespace Lexing

open Segment

/-- A text without its closing mark is a fault, wherever it stands. -/
theorem exists_fault_of_unterminated {mark : Char} {body : List Char} {ss : List Segment}
    (h : .unterminated mark body ∈ ss) (n : Nesting) (p : Position) :
    ∃ f ∈ faultsFrom n (place p ss), f.cause = .unterminatedText := by
  induction ss generalizing n p with
  | nil => cases h
  | cons s ss ih =>
    rw [place, faultsFrom]
    rcases List.mem_cons.1 h with rfl | h
    · exact ⟨_, List.mem_append_left _ (List.mem_singleton.2 rfl), rfl⟩
    · obtain ⟨f, hf, hcause⟩ := ih h (meet n p s).1 (p.advance s.text)
      exact ⟨f, List.mem_append_right _ hf, hcause⟩

end Lexing

/-! ## Sources -/

open Segment

/-- The number of lines that a source takes up. -/
def lineCount (source : String) : Nat :=
  1 + source.toList.count '\n'

theorem toList_append_newline (upper lower : String) :
    (upper ++ "\n" ++ lower).toList = upper.toList ++ '\n' :: lower.toList := by
  simp [String.toList_append]

/-- Behind a source and a newline the second source starts as many lines further down as
the first one has. -/
theorem below_start (upper : String) :
    Position.start.Below (lineCount upper) ((Position.start.advance upper.toList).step '\n') := by
  rw [Position.step, if_pos rfl, Position.line_advance]
  constructor
  · simp only [Position.start, lineCount]
    omega
  · rfl

/-- The placed segments of two sources, one below the other. -/
theorem place_split_append_newline {upper : String} (h : Terminated (split upper.toList))
    (lower : String) :
    place .start (split (upper ++ "\n" ++ lower).toList) =
      place .start (split upper.toList) ++
        (Position.start.advance upper.toList, .blank '\n') ::
          place ((Position.start.advance upper.toList).step '\n') (split lower.toList) := by
  rw [toList_append_newline, split_append_newline h, place_append, flatMap_text_split]
  rfl

/-- **The tokens of a source below another one are its tokens further down.** -/
theorem tokens_lex_append_newline {upper : String} (h : Terminated (split upper.toList))
    (lower : String) :
    (lex (upper ++ "\n" ++ lower)).tokens =
      (lex upper).tokens.dropLast ++
        (lex lower).tokens.map (Token.below (lineCount upper)) := by
  have hbelow := below_start upper
  have hupper : (lex upper).tokens.dropLast = tokensOf (place .start (split upper.toList)) :=
    List.dropLast_concat
  rw [tokens_lex (upper ++ "\n" ++ lower), hupper, tokens_lex lower,
    place_split_append_newline h, toList_append_newline, Position.advance_append,
    Position.advance_cons, tokensOf, List.filterMap_append, List.filterMap_cons, List.map_append,
    List.append_assoc]
  refine congrArg (_ ++ ·) ?_
  rw [← tokensOf_place_below hbelow]
  exact congrArg (fun t => _ ++ [t]) ((hbelow.advance lower.toList).startingAt .finish [])

/-- **The faults of a source below another one are its faults further down**, when the
brackets of the other one are closed. -/
theorem faults_lex_append_newline {upper : String} (h : Terminated (split upper.toList))
    (hclosed : Lexing.nestingAfter [] (place .start (split upper.toList)) = [])
    (lower : String) :
    (lex (upper ++ "\n" ++ lower)).faults =
      (lex upper).faults ++ (lex lower).faults.map (Fault.below (lineCount upper)) := by
  have hupper : (lex upper).faults = Lexing.faultsMet [] (place .start (split upper.toList)) := by
    have heq := Lexing.faultsFrom_eq [] (place .start (split upper.toList))
    rw [hclosed] at heq
    exact heq.trans (List.append_nil _)
  have hlower := Lexing.faultsFrom_place_below (below_start upper) [] (split lower.toList)
  show Lexing.faultsFrom [] (place .start (split (upper ++ "\n" ++ lower).toList)) = _
  rw [place_split_append_newline h, Lexing.faultsFrom_append, hclosed, hupper]
  exact congrArg (_ ++ ·) hlower

/-- Where no text is reported as unterminated, none is. -/
theorem terminated_of_faults {source : String}
    (h : ∀ f ∈ (lex source).faults, f.isUnterminated = false) :
    Terminated (split source.toList) := by
  intro mark body hmem
  obtain ⟨f, hf, hcause⟩ := Lexing.exists_fault_of_unterminated hmem [] .start
  have hnot := h f hf
  rw [Fault.isUnterminated, hcause] at hnot
  cases hnot

/-- Where no bracket is reported as never closed, all are closed. -/
theorem nestingAfter_eq_nil_of_faults {source : String}
    (h : ∀ f ∈ (lex source).faults, f.isNeverClosed = false) :
    Lexing.nestingAfter [] (place .start (split source.toList)) = [] := by
  rw [faults_lex, List.forall_mem_append] at h
  rcases hn : Lexing.nestingAfter [] (place .start (split source.toList)) with _ | ⟨o, n⟩
  · rfl
  · rw [hn] at h
    cases h.2 _ (List.mem_singleton.2 rfl)

/-- The texts and the brackets of a source without faults have come to an end. -/
theorem terminated_of_isClean {source : String} (h : (lex source).isClean = true) :
    Terminated (split source.toList) ∧
      Lexing.nestingAfter [] (place .start (split source.toList)) = [] := by
  have hfaults : (lex source).faults = [] := List.isEmpty_iff.1 h
  constructor
  · refine terminated_of_faults ?_
    rw [hfaults]
    nofun
  · refine nestingAfter_eq_nil_of_faults ?_
    rw [hfaults]
    nofun

/-- **A source below another one is lexed as it is alone,** as many lines further down as
the other one has, if the texts of the other one are terminated.  If its brackets are closed
besides, then the faults, too, are those of the one and then those of the other.  What else
is wrong with the two sources is of no consequence. -/
theorem lexing_goes_on_below {upper : String}
    (hterminated : ∀ f ∈ (lex upper).faults, f.isUnterminated = false) (lower : String) :
    (lex (upper ++ "\n" ++ lower)).tokens =
        (lex upper).tokens.dropLast ++
          (lex lower).tokens.map (Token.below (lineCount upper)) ∧
      ((∀ f ∈ (lex upper).faults, f.isNeverClosed = false) →
        (lex (upper ++ "\n" ++ lower)).faults =
          (lex upper).faults ++ (lex lower).faults.map (Fault.below (lineCount upper))) := by
  have h := terminated_of_faults hterminated
  exact ⟨tokens_lex_append_newline h lower, fun hclosed =>
    faults_lex_append_newline h (nestingAfter_eq_nil_of_faults hclosed) lower⟩

/-- Two lines with a stray character, a closing bracket too many and one of a wrong pair, a
text over two lines, and a word at the end. -/
def faultyUpper : String :=
  "# ) [ \x7d 'a\nb' ] Cur"

/-- A line that goes on with a word, does not close its bracket and does not end its text. -/
def faultyLower : String :=
  "so ( \x7d \"c"

theorem lexing_goes_on_below_faultyUpper :
    (lex faultyUpper).faults.length = 3 ∧
      (∀ f ∈ (lex faultyUpper).faults, f.isUnterminated = false ∧ f.isNeverClosed = false) ∧
      (lex (faultyUpper ++ "\n" ++ faultyLower)).tokens =
        (lex faultyUpper).tokens.dropLast ++
          (lex faultyLower).tokens.map (Token.below (lineCount faultyUpper)) ∧
      (lex (faultyUpper ++ "\n" ++ faultyLower)).faults =
        (lex faultyUpper).faults ++
          (lex faultyLower).faults.map (Fault.below (lineCount faultyUpper)) ∧
      (lex faultyLower).faults.length = 3 := by
  have hended : ∀ f ∈ (lex faultyUpper).faults,
      f.isUnterminated = false ∧ f.isNeverClosed = false := by decide +kernel
  obtain ⟨htokens, hfaults⟩ :=
    lexing_goes_on_below (fun f hf => (hended f hf).1) faultyLower
  exact ⟨by decide +kernel, hended, htokens, hfaults fun f hf => (hended f hf).2,
    by decide +kernel⟩

end StudyPlan
