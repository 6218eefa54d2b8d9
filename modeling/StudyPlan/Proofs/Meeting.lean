import StudyPlan.Proofs.Lossless

/-!
# What a segment does to the open brackets

The bracket check meets one segment after another and carries the open brackets along.
There are five things that can happen, and `Lexing.Met` lists them: a segment that is no
bracket leaves the brackets alone, an opening bracket comes to lie on top of them, a closing
bracket takes its partner from the top, and a closing bracket without a partner on top is a
fault and changes nothing --- whether nothing is open or another bracket is.

`met_meet` says that this list is complete.  Everything that is proved about the bracket
faults of a source is an induction over its segments with these five cases.

## The faults of a whole source

The faults of a source are those met on the way (`faultsMet`) and one more for the innermost
bracket that is open at the end, if there is one (`faultsFrom_eq`).
-/

namespace StudyPlan

/-! ## Pairs of brackets -/

/-- The first bracket opens what the second one closes. -/
inductive Delimiter.Pairs : Delimiter → Delimiter → Prop
  | braces : Pairs .openBrace .closeBrace
  | brackets : Pairs .openBracket .closeBracket
  | parens : Pairs .openParen .closeParen

theorem Delimiter.partner?_eq_some_iff {o c : Delimiter} : o.partner? = some c ↔ o.Pairs c := by
  constructor
  · intro h
    cases o <;> simp only [partner?, Option.some.injEq, reduceCtorEq] at h <;> subst h <;>
      constructor
  · rintro ⟨⟩ <;> rfl

namespace Delimiter.Pairs

variable {o c : Delimiter}

theorem isOpening (h : o.Pairs c) : o.isOpening = true := by
  cases h <;> rfl

theorem isClosing (h : o.Pairs c) : c.isClosing = true := by
  cases h <;> rfl

end Delimiter.Pairs

/-- No bracket both opens and closes. -/
theorem Delimiter.isClosing_eq_false_of_isOpening {d : Delimiter} (h : d.isOpening = true) :
    d.isClosing = false := by
  cases d <;> first | rfl | cases h

theorem Delimiter.isOpening_eq_false_of_isClosing {d : Delimiter} (h : d.isClosing = true) :
    d.isOpening = false := by
  cases d <;> first | rfl | cases h

/-- The bracket that a token is, if it is one. -/
def Token.bracket? (t : Token) : Option Delimiter :=
  match t.kind with
  | .delimiter d => if d.isOpening || d.isClosing then some d else none
  | _ => none

namespace Segment

/-- The bracket that a segment is, if it is one. -/
def bracket? : Segment → Option Delimiter
  | delimiter d => if d.isOpening || d.isClosing then some d else none
  | _ => none

/-- A segment is the bracket that its token is. -/
theorem bracket?_token? (s : Segment) (p : Position) :
    (s.token? p).bind Token.bracket? = s.bracket? := by
  cases s with
  | blank | stray | unterminated | number | quoted | delimiter => rfl
  | word letters =>
    show (match Kind.ofWord (String.ofList letters) with
      | .delimiter d => if d.isOpening || d.isClosing then some d else none
      | _ => none) = none
    split
    · next d hd => exact absurd hd (Kind.ofWord_ne rfl _)
    · rfl

theorem bracket?_delimiter {d : Delimiter} (h : d.isOpening = true ∨ d.isClosing = true) :
    (delimiter d).bracket? = some d :=
  if_pos (by simpa using h)

theorem eq_delimiter_of_bracket? {s : Segment} {d : Delimiter} (h : s.bracket? = some d) :
    s = delimiter d := by
  cases s with
  | delimiter d' =>
    simp only [bracket?, Option.ite_none_right_eq_some, Option.some.injEq] at h
    rw [h.2]
  | blank | stray | number | word | quoted | unterminated => cases h

/-- The brackets among placed segments. -/
def bracketsOf (placed : List (Position × Segment)) : List Delimiter :=
  placed.filterMap fun ps => ps.2.bracket?

theorem bracketsOf_cons (p : Position) (s : Segment) (placed : List (Position × Segment)) :
    bracketsOf ((p, s) :: placed) = s.bracket?.toList ++ bracketsOf placed := by
  rw [bracketsOf, List.filterMap_cons]
  cases s.bracket? <;> rfl

/-- The brackets among the tokens of some segments are those among the segments. -/
theorem brackets_tokensOf (placed : List (Position × Segment)) :
    (tokensOf placed).filterMap Token.bracket? = bracketsOf placed := by
  rw [tokensOf, List.filterMap_filterMap]
  exact congrArg (List.filterMap · placed) (funext fun ps => bracket?_token? ps.2 ps.1)

end Segment

/-! ## One segment -/

namespace Lexing

open Segment

/-- A segment at `p` that is met inside the brackets `n` leaves the brackets that are given
next, with this fault. -/
inductive Met (p : Position) : Nesting → Segment → Nesting → Option Fault → Prop
  | plain {n : Nesting} {s : Segment} : s.bracket? = none → Met p n s n (ownFault? p s)
  | opened {n : Nesting} {o : Delimiter} :
      o.isOpening = true → Met p n (.delimiter o) (n.enter o p) none
  | closed {n : Nesting} {o : Opening} {c : Delimiter} :
      o.bracket.Pairs c → Met p (o :: n) (.delimiter c) n none
  | unexpected {c : Delimiter} :
      c.isClosing = true →
        Met p [] (.delimiter c) [] (some ⟨.unexpectedClosing c, p.line, p.column⟩)
  | mismatched {n : Nesting} {o : Opening} {c : Delimiter} :
      c.isClosing = true → ¬ o.bracket.Pairs c →
        Met p (o :: n) (.delimiter c) (o :: n)
          (some ⟨.mismatchedClosing c o, p.line, p.column⟩)

theorem met_close {d : Delimiter} (hd : d.isClosing = true) (n : Nesting) (p : Position) :
    Met p n (.delimiter d) (n.close d p).1 (n.close d p).2 := by
  rcases n with _ | ⟨o, n⟩
  · exact .unexpected hd
  · rw [Nesting.close]
    by_cases hp : o.bracket.partner? = some d
    · rw [if_pos hp]
      exact .closed (Delimiter.partner?_eq_some_iff.1 hp)
    · rw [if_neg hp]
      exact .mismatched hd fun h => hp (Delimiter.partner?_eq_some_iff.2 h)

/-- **These are all the things that can happen.** -/
theorem met_meet (n : Nesting) (p : Position) (s : Segment) :
    Met p n s (meet n p s).1 (meet n p s).2 := by
  cases s with
  | delimiter d =>
    rw [meet]
    split
    · next ho => exact .opened ho
    · next ho =>
      split
      · next hc => exact met_close hc n p
      · next hc => exact .plain (by simp [Segment.bracket?, ho, hc])
  | blank | stray | number | word | quoted | unterminated => exact .plain rfl

/-- Nothing else happens: the cases exclude each other. -/
theorem Met.meet_eq {n n' : Nesting} {p : Position} {s : Segment} {f : Option Fault}
    (h : Met p n s n' f) : meet n p s = (n', f) := by
  have hclosing : ∀ {c : Delimiter}, c.isClosing = true → ¬ c.isOpening = true :=
    fun hc => Bool.eq_false_iff.1 (Delimiter.isOpening_eq_false_of_isClosing hc)
  cases h with
  | plain hs =>
    cases s with
    | delimiter d =>
      simp only [Segment.bracket?, ite_eq_right_iff, reduceCtorEq, imp_false, Bool.or_eq_true,
        not_or] at hs
      rw [meet, if_neg hs.1, if_neg hs.2]
      rfl
    | blank | stray | number | word | quoted | unterminated => rfl
  | opened ho => rw [meet, if_pos ho]
  | closed hp =>
    rw [meet, if_neg (hclosing hp.isClosing), if_pos hp.isClosing, Nesting.close,
      if_pos (Delimiter.partner?_eq_some_iff.2 hp)]
  | unexpected hc =>
    rw [meet, if_neg (hclosing hc), if_pos hc]
    rfl
  | mismatched hc hp =>
    rw [meet, if_neg (hclosing hc), if_pos hc, Nesting.close,
      if_neg fun h => hp (Delimiter.partner?_eq_some_iff.1 h)]

/-! ## One segment behind the other -/

/-- The brackets that are open behind placed segments. -/
def nestingAfter (n : Nesting) : List (Position × Segment) → Nesting
  | [] => n
  | (p, s) :: rest => nestingAfter (meet n p s).1 rest

/-- The faults that are met in placed segments, without the one for a bracket that is
still open behind them. -/
def faultsMet (n : Nesting) : List (Position × Segment) → List Fault
  | [] => []
  | (p, s) :: rest => (meet n p s).2.toList ++ faultsMet (meet n p s).1 rest

theorem nestingAfter_append (n : Nesting) (placed later : List (Position × Segment)) :
    nestingAfter n (placed ++ later) = nestingAfter (nestingAfter n placed) later := by
  induction placed generalizing n with
  | nil => rfl
  | cons ps placed ih => exact ih _

theorem faultsMet_append (n : Nesting) (placed later : List (Position × Segment)) :
    faultsMet n (placed ++ later) =
      faultsMet n placed ++ faultsMet (nestingAfter n placed) later := by
  induction placed generalizing n with
  | nil => rfl
  | cons ps placed ih =>
    rw [List.cons_append, faultsMet, ih, faultsMet, nestingAfter, List.append_assoc]

theorem faultsFrom_append (n : Nesting) (placed later : List (Position × Segment)) :
    faultsFrom n (placed ++ later) =
      faultsMet n placed ++ faultsFrom (nestingAfter n placed) later := by
  induction placed generalizing n with
  | nil => rfl
  | cons ps placed ih =>
    rw [List.cons_append, faultsFrom, ih, faultsMet, nestingAfter, List.append_assoc]

theorem faultsFrom_eq (n : Nesting) (placed : List (Position × Segment)) :
    faultsFrom n placed = faultsMet n placed ++ (nestingAfter n placed).atEnd.toList := by
  have h := faultsFrom_append n placed []
  rwa [List.append_nil] at h

end Lexing
end StudyPlan
