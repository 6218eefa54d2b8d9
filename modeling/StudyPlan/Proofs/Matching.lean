import StudyPlan.Proofs.Balanced
import StudyPlan.Proofs.Meeting

/-!
# Which brackets match

The bracket check reports what is wrong and says nothing of what is right.  This module says
what its reports amount to.

## Balance

There is no report on a bracket exactly if the brackets of the source, read off its tokens,
are a balanced word (`no_bracket_fault_iff_balanced`).  One direction puts the open brackets
in front of what is still to come: this stays balanced from the end of the source back to its
start, since a bracket that is closed is a pair put in.  The other direction follows the
balanced word: the brackets that are open behind such a word are those before it.

## Brackets that do not match

When some brackets do not match, the others still do, and it is told by the tokens alone which
ones: a bracket is matched by the first closing bracket of its pair behind it, not counting
those that are matched by brackets in between (`ClosedIn`).  `Settled` describes the tokens
that may stand in between.  At every moment of the check the open brackets divide the tokens
read so far into such stretches (`Unclosed`), and this is why the one that is reported at the
end has no match, while those behind it have (`brackets_are_conserved`).
-/

namespace StudyPlan

open Segment

/-! ## Brackets without faults -/

namespace Lexing

/-- The placed segments, met inside the brackets `n`, leave `n'` and no fault of a bracket. -/
def Quiet (n : Nesting) (placed : List (Position × Segment)) (n' : Nesting) : Prop :=
  nestingAfter n placed = n' ∧ ∀ f ∈ faultsMet n placed, f.cause.isBracket = false

variable {n n' n'' : Nesting} {placed later : List (Position × Segment)}

theorem Quiet.nil (n : Nesting) : Quiet n [] n :=
  ⟨rfl, nofun⟩

theorem Quiet.append (h : Quiet n placed n') (h' : Quiet n' later n'') :
    Quiet n (placed ++ later) n'' := by
  obtain ⟨rfl, hfaults⟩ := h
  obtain ⟨rfl, hfaults'⟩ := h'
  refine ⟨nestingAfter_append n placed later, ?_⟩
  rw [faultsMet_append]
  exact List.forall_mem_append.2 ⟨hfaults, hfaults'⟩

theorem quiet_cons_iff {p : Position} {s : Segment} :
    Quiet n ((p, s) :: placed) n'' ↔
      ∃ n' f?, Met p n s n' f? ∧ (∀ f ∈ f?, f.cause.isBracket = false) ∧
        Quiet n' placed n'' := by
  simp only [Quiet, nestingAfter, faultsMet, List.forall_mem_append, Option.mem_toList]
  constructor
  · rintro ⟨hn, hf, hplaced⟩
    exact ⟨_, _, met_meet n p s, hf, hn, hplaced⟩
  · rintro ⟨n', f?, hmet, hf, hn, hplaced⟩
    rw [hmet.meet_eq]
    exact ⟨hn, hf, hplaced⟩

/-- What a segment is wrong by itself has nothing to do with brackets. -/
theorem isBracket_ownFault? {p : Position} {s : Segment} {f : Fault} (h : f ∈ ownFault? p s) :
    f.cause.isBracket = false := by
  cases s <;> cases h <;> rfl

theorem Met.quiet {p : Position} {s : Segment} {f? : Option Fault} (h : Met p n s n' f?)
    (hf : ∀ f ∈ f?, f.cause.isBracket = false) : Quiet n [(p, s)] n' :=
  quiet_cons_iff.2 ⟨n', f?, h, hf, .nil n'⟩

theorem quiet_of_no_brackets (h : ∀ ps ∈ placed, ps.2.bracket? = none) (n : Nesting) :
    Quiet n placed n := by
  induction placed with
  | nil => exact .nil n
  | cons ps placed ih =>
    obtain ⟨hs, hplaced⟩ := List.forall_mem_cons.1 h
    exact ((Met.plain hs).quiet fun _ hf => isBracket_ownFault? hf).append (ih hplaced)

/-- **A balanced word of brackets is met without a fault, and what was open before it is
open behind it.** -/
theorem quiet_of_balanced {w : List Delimiter} (h : Balanced Delimiter.Pairs w)
    (hw : bracketsOf placed = w) (n : Nesting) : Quiet n placed n := by
  induction h generalizing placed n with
  | nil => exact quiet_of_no_brackets (List.filterMap_eq_nil_iff.1 hw) n
  | append _ _ ihu ihv =>
    obtain ⟨placed, later, rfl, hu, hv⟩ := List.filterMap_eq_append_iff.1 hw
    exact (ihu hu n).append (ihv hv n)
  | @enclosed o c w hpair _ ih =>
    obtain ⟨before, ⟨p, s⟩, placed, rfl, hbefore, ho, hrest⟩ := List.filterMap_eq_cons_iff.1 hw
    obtain ⟨inner, closing, rfl, hinner, hclosing⟩ := List.filterMap_eq_append_iff.1 hrest
    obtain ⟨before', ⟨q, s'⟩, behind, rfl, hbefore', hc, hbehind⟩ :=
      List.filterMap_eq_cons_iff.1 hclosing
    obtain rfl := eq_delimiter_of_bracket? ho
    obtain rfl := eq_delimiter_of_bracket? hc
    have hopen : Quiet n [(p, .delimiter o)] (n.enter o p) :=
      (Met.opened hpair.isOpening).quiet nofun
    have hclose : Quiet (n.enter o p) [(q, .delimiter c)] n := (Met.closed hpair).quiet nofun
    have hall := (quiet_of_no_brackets hbefore n).append (hopen.append ((ih hinner _).append
      ((quiet_of_no_brackets hbefore' _).append (hclose.append
        (quiet_of_no_brackets (List.filterMap_eq_nil_iff.1 hbehind) n)))))
    exact hall

/-- **Where no bracket is at fault, the brackets that are open are balanced by those that
follow.** -/
theorem balanced_of_quiet (h : Quiet n placed []) :
    Balanced Delimiter.Pairs
      ((n.map Opening.bracket).reverse ++ bracketsOf placed) := by
  induction placed generalizing n with
  | nil =>
    obtain ⟨rfl, -⟩ := h
    exact .nil
  | cons ps placed ih =>
    obtain ⟨p, s⟩ := ps
    obtain ⟨n', f?, hmet, hf, hrest⟩ := quiet_cons_iff.1 h
    have ih := ih hrest
    rw [bracketsOf_cons]
    cases hmet with
    | plain hs =>
      rw [hs]
      exact ih
    | opened ho =>
      rw [bracket?_delimiter (.inl ho)]
      simpa [Nesting.enter] using ih
    | closed hp =>
      rw [bracket?_delimiter (.inr hp.isClosing)]
      simpa using ih.insert_pair hp
    | unexpected | mismatched => exact absurd (hf _ rfl) (by simp [Cause.isBracket])

end Lexing

/-- The brackets among the tokens. -/
def Lexing.brackets (l : Lexing) : List Delimiter :=
  l.tokens.filterMap Token.bracket?

theorem brackets_lex (source : String) :
    (lex source).brackets = bracketsOf (place .start (split source.toList)) := by
  rw [← brackets_tokensOf]
  exact (List.filterMap_append ..).trans (List.append_nil _)

theorem faults_lex (source : String) :
    (lex source).faults =
      Lexing.faultsMet [] (place .start (split source.toList)) ++
        (Lexing.nestingAfter [] (place .start (split source.toList))).atEnd.toList :=
  Lexing.faultsFrom_eq _ _

/-- **A source has no fault of a bracket exactly if its brackets are balanced.** -/
theorem no_bracket_fault_iff_balanced (source : String) :
    (∀ f ∈ (lex source).faults, f.cause.isBracket = false) ↔
      Balanced Delimiter.Pairs (lex source).brackets := by
  rw [faults_lex, brackets_lex, List.forall_mem_append]
  constructor
  · rintro ⟨hmet, hend⟩
    refine Lexing.balanced_of_quiet (n := []) ⟨?_, hmet⟩
    -- a bracket that is still open would be reported
    rcases hn : Lexing.nestingAfter [] _ with _ | ⟨o, n⟩
    · rfl
    · rw [hn] at hend
      exact absurd (hend _ (List.mem_singleton.2 rfl)) (by simp [Cause.isBracket])
  · intro h
    obtain ⟨hn, hmet⟩ := Lexing.quiet_of_balanced h rfl []
    rw [hn]
    exact ⟨hmet, nofun⟩

/-! ## Counting -/

namespace Fault

/-- Is this the fault of a closing bracket while none was open? -/
def isUnexpectedClosing (f : Fault) : Bool :=
  match f.cause with
  | .unexpectedClosing _ => true
  | _ => false

/-- Is this the fault of a closing bracket of another pair than the innermost open one? -/
def isMismatchedClosing (f : Fault) : Bool :=
  match f.cause with
  | .mismatchedClosing _ _ => true
  | _ => false

/-- Is this the fault of a bracket that was never closed? -/
def isNeverClosed (f : Fault) : Bool :=
  match f.cause with
  | .neverClosed _ => true
  | _ => false

/-- The number of closing brackets among these faults. -/
def wrongClosings (fs : List Fault) : Nat :=
  fs.countP isUnexpectedClosing + fs.countP isMismatchedClosing

theorem wrongClosings_append (fs gs : List Fault) :
    wrongClosings (fs ++ gs) = wrongClosings fs + wrongClosings gs := by
  simp only [wrongClosings, List.countP_append]
  omega

/-- A fault that is no fault of a bracket counts for nothing. -/
theorem not_of_isBracket_eq_false {f : Fault} (h : f.cause.isBracket = false) :
    f.isUnexpectedClosing = false ∧ f.isMismatchedClosing = false ∧
      f.isNeverClosed = false := by
  obtain ⟨cause, line, column⟩ := f
  cases cause <;> first | exact ⟨rfl, rfl, rfl⟩ | cases h

end Fault

namespace Lexing

variable {n n' : Nesting} {p : Position} {s : Segment} {f? : Option Fault}

/-- What a segment adds to the open brackets and to the faults balances what it is: an
opening bracket is open from now on, and a closing bracket closes one or is a fault. -/
theorem Met.conserves (h : Met p n s n' f?) :
    n.length + s.bracket?.toList.countP Delimiter.isOpening + Fault.wrongClosings f?.toList =
        n'.length + s.bracket?.toList.countP Delimiter.isClosing ∧
      Fault.wrongClosings f?.toList ≤ s.bracket?.toList.countP Delimiter.isClosing ∧
      f?.toList.countP Fault.isNeverClosed = 0 := by
  cases h with
  | plain hs =>
    rcases hf : ownFault? p s with _ | f
    · simp [hs, Fault.wrongClosings]
    · obtain ⟨hunexpected, hmismatched, hnever⟩ :=
        Fault.not_of_isBracket_eq_false (isBracket_ownFault? hf)
      simp [hs, Fault.wrongClosings, hunexpected, hmismatched, hnever]
  | opened ho =>
    simp [bracket?_delimiter (.inl ho), ho, Delimiter.isClosing_eq_false_of_isOpening ho,
      Nesting.enter, Fault.wrongClosings]
  | closed hp =>
    have hc := Delimiter.isOpening_eq_false_of_isClosing hp.isClosing
    simp [bracket?_delimiter (.inr hp.isClosing), hp.isClosing, hc, Fault.wrongClosings]
  | unexpected hc =>
    simp [bracket?_delimiter (.inr hc), hc, Delimiter.isOpening_eq_false_of_isClosing hc,
      Fault.wrongClosings, Fault.isUnexpectedClosing, Fault.isMismatchedClosing,
      Fault.isNeverClosed]
  | mismatched hc =>
    simp [bracket?_delimiter (.inr hc), hc, Delimiter.isOpening_eq_false_of_isClosing hc,
      Fault.wrongClosings, Fault.isUnexpectedClosing, Fault.isMismatchedClosing,
      Fault.isNeverClosed]

/-- **Opening brackets are closed or stay open, closing brackets close one or are faults.** -/
theorem conserved (n : Nesting) (placed : List (Position × Segment)) :
    n.length + (bracketsOf placed).countP Delimiter.isOpening +
          Fault.wrongClosings (faultsMet n placed) =
        (nestingAfter n placed).length + (bracketsOf placed).countP Delimiter.isClosing ∧
      Fault.wrongClosings (faultsMet n placed) ≤
        (bracketsOf placed).countP Delimiter.isClosing ∧
      (faultsMet n placed).countP Fault.isNeverClosed = 0 := by
  induction placed generalizing n with
  | nil => simp [bracketsOf, faultsMet, nestingAfter, Fault.wrongClosings]
  | cons ps placed ih =>
    obtain ⟨p, s⟩ := ps
    have hstep := (met_meet n p s).conserves
    have hrest := ih (meet n p s).1
    simp only [bracketsOf_cons, faultsMet, nestingAfter, List.countP_append,
      Fault.wrongClosings_append]
    omega

end Lexing

/-! ## Which brackets match -/

/-- Tokens that leave the innermost open bracket `top` open, or no bracket if none is: an
opening bracket among them is closed among them, and a closing bracket closes one of them or
nothing. -/
inductive Settled : Option Delimiter → List Token → Prop
  | nil {top : Option Delimiter} : Settled top []
  | plain {top : Option Delimiter} {t : Token} {ts : List Token} :
      t.bracket? = none → Settled top ts → Settled top (t :: ts)
  | wrong {top : Option Delimiter} {t : Token} {c : Delimiter} {ts : List Token} :
      t.bracket? = some c → c.isClosing = true → (∀ o ∈ top, ¬ o.Pairs c) →
        Settled top ts → Settled top (t :: ts)
  | pair {top : Option Delimiter} {opening closing : Token} {o c : Delimiter}
      {inner ts : List Token} :
      opening.bracket? = some o → Settled (some o) inner → closing.bracket? = some c →
        o.Pairs c → Settled top ts → Settled top (opening :: (inner ++ closing :: ts))

/-- An opening bracket `o` is closed by a token among those behind it. -/
def ClosedIn (o : Delimiter) (behind : List Token) : Prop :=
  ∃ inner closing rest c, behind = inner ++ closing :: rest ∧ Settled (some o) inner ∧
    closing.bracket? = some c ∧ o.Pairs c

namespace Settled

variable {top : Option Delimiter} {ts us : List Token}

theorem append (h : Settled top ts) (h' : Settled top us) : Settled top (ts ++ us) := by
  induction h with
  | nil => exact h'
  | plain ht _ ih => exact .plain ht (ih h')
  | wrong ht hc htop _ ih => exact .wrong ht hc htop (ih h')
  | pair ho hinner hc hp _ _ ih =>
    rw [List.cons_append, List.append_assoc]
    exact .pair ho hinner hc hp (ih h')

/-! ### The first token tells how to go on -/

section First

variable {t : Token}

theorem of_plain (h : Settled top (t :: ts)) (ht : t.bracket? = none) : Settled top ts := by
  cases h with
  | plain _ h => exact h
  | wrong hc => simp [ht] at hc
  | pair ho => simp [ht] at ho

theorem of_closing {c : Delimiter} (h : Settled top (t :: ts)) (ht : t.bracket? = some c)
    (hc : c.isClosing = true) : (∀ o ∈ top, ¬ o.Pairs c) ∧ Settled top ts := by
  cases h with
  | plain hplain => simp [ht] at hplain
  | wrong hc' _ htop h =>
    obtain rfl := Option.some.inj (ht.symm.trans hc')
    exact ⟨htop, h⟩
  | pair ho _ _ hp =>
    obtain rfl := Option.some.inj (ht.symm.trans ho)
    simp [Delimiter.isClosing_eq_false_of_isOpening hp.isOpening] at hc

theorem of_opening {o : Delimiter} (h : Settled top (t :: ts)) (ht : t.bracket? = some o)
    (ho : o.isOpening = true) : ∃ inner closing rest c, ts = inner ++ closing :: rest ∧
      Settled (some o) inner ∧ closing.bracket? = some c ∧ o.Pairs c ∧ Settled top rest := by
  cases h with
  | plain hplain => simp [ht] at hplain
  | wrong hc hclosing =>
    obtain rfl := Option.some.inj (ht.symm.trans hc)
    simp [Delimiter.isOpening_eq_false_of_isClosing hclosing] at ho
  | pair ho' hinner hc hp hrest =>
    obtain rfl := Option.some.inj (ht.symm.trans ho')
    exact ⟨_, _, _, _, rfl, hinner, hc, hp, hrest⟩

end First

/-- No closing bracket among the tokens closes the bracket around them.

A stretch between two brackets can be found in one way only.  This is shown along with the
fact, so the induction is on the number of tokens before the closing bracket: a stretch among
them is shorter than the whole. -/
theorem not_pairs {before behind : List Token} {t : Token} {c : Delimiter}
    (h : Settled top (before ++ t :: behind)) (hbefore : Settled top before)
    (ht : t.bracket? = some c) : ∀ o ∈ top, ¬ o.Pairs c := by
  induction hlen : before.length using Nat.strongRecOn
    generalizing top before behind t c with
  | ind len ih =>
    subst hlen
    cases hbefore with
    | nil => exact fun o ho hp => (h.of_closing ht hp.isClosing).1 o ho hp
    | plain hx hbefore => exact ih _ (Nat.lt_succ_self _) (h.of_plain hx) hbefore ht rfl
    | wrong hx hc _ hbefore =>
      exact ih _ (Nat.lt_succ_self _) (h.of_closing hx hc).2 hbefore ht rfl
    | @pair _ opening closing o c' inner before ho hinner hc hp hbefore =>
      obtain ⟨inner', closing', rest, c'', heq, hinner', hc', hp', hrest⟩ :=
        h.of_opening ho hp.isOpening
      have heq := (List.append_assoc ..).symm.trans heq
      -- neither of the two stretches goes on where the other one is closed
      rcases List.append_eq_append_iff.1 heq with ⟨more, rfl, htail⟩ | ⟨more, rfl, htail⟩
      · rcases more with _ | ⟨x, more⟩
        · obtain ⟨rfl, rfl⟩ := List.cons.inj htail
          refine ih _ ?_ hrest hbefore ht rfl
          simp only [List.length_cons, List.length_append]
          omega
        · obtain ⟨rfl, -⟩ := List.cons.inj htail
          refine absurd hp (ih _ ?_ hinner' hinner hc rfl o rfl)
          simp only [List.length_cons, List.length_append]
          omega
      · rcases more with _ | ⟨x, more⟩
        · obtain ⟨rfl, rfl⟩ := List.cons.inj htail
          refine ih _ ?_ hrest hbefore ht rfl
          simp only [List.length_cons, List.length_append]
          omega
        · obtain ⟨rfl, -⟩ := List.cons.inj htail
          refine absurd hp' (ih _ ?_ hinner hinner' hc' rfl o rfl)
          simp only [List.length_cons, List.length_append]
          omega

theorem not_closedIn {o : Delimiter} (h : Settled (some o) ts) : ¬ ClosedIn o ts := by
  rintro ⟨inner, closing, rest, c, rfl, hinner, hc, hp⟩
  exact h.not_pairs hinner hc o rfl hp

end Settled

theorem ClosedIn.append {o : Delimiter} {behind : List Token} (h : ClosedIn o behind)
    (more : List Token) : ClosedIn o (behind ++ more) := by
  obtain ⟨inner, closing, rest, c, rfl, hinner, hc, hp⟩ := h
  exact ⟨inner, closing, rest ++ more, c, by simp, hinner, hc, hp⟩

/-- Every opening bracket among the tokens is closed among those behind it. -/
def AllClosed : List Token → Prop
  | [] => True
  | t :: ts =>
    (∀ o, t.bracket? = some o → o.isOpening = true → ClosedIn o ts) ∧ AllClosed ts

theorem AllClosed.append {ts us : List Token} (h : AllClosed ts) (h' : AllClosed us) :
    AllClosed (ts ++ us) := by
  induction ts with
  | nil => exact h'
  | cons t ts ih => exact ⟨fun o ht ho => (h.1 o ht ho).append us, ih h.2⟩

theorem Settled.allClosed {top : Option Delimiter} {ts : List Token} (h : Settled top ts) :
    AllClosed ts := by
  induction h with
  | nil => trivial
  | plain ht _ ih => exact ⟨fun o ho => by simp [ht] at ho, ih⟩
  | wrong ht hc _ _ ih =>
    refine ⟨fun o ho hopening => ?_, ih⟩
    obtain rfl := Option.some.inj (ht.symm.trans ho)
    simp [Delimiter.isClosing_eq_false_of_isOpening hopening] at hc
  | @pair _ opening closing o c inner ts ho hinner hc hp _ ihinner ih =>
    refine ⟨fun o' ho' _ => ?_, ihinner.append ⟨fun o' ho' hopening => ?_, ih⟩⟩
    · obtain rfl := Option.some.inj (ho.symm.trans ho')
      exact ⟨inner, closing, ts, c, rfl, hinner, hc, hp⟩
    · obtain rfl := Option.some.inj (hc.symm.trans ho')
      have hclosing := hp.isClosing
      simp [Delimiter.isClosing_eq_false_of_isOpening hopening] at hclosing

/-! ## The open brackets among the tokens -/

/-- The brackets of `n`, the innermost first, are those of the tokens that stay open: they
divide the tokens into settled stretches. -/
inductive Unclosed : Nesting → List Token → Prop
  | settled {ts : List Token} : Settled none ts → Unclosed [] ts
  | opened {n : Nesting} {ts inner : List Token} {t : Token} {o : Delimiter} :
      Unclosed n ts → t.bracket? = some o → o.isOpening = true → Settled (some o) inner →
        Unclosed (⟨o, t.line, t.column⟩ :: n) (ts ++ t :: inner)

/-- The innermost open bracket. -/
def Nesting.top? (n : Nesting) : Option Delimiter :=
  n.head?.map Opening.bracket

/-- Tokens that leave the innermost bracket open leave all brackets as they are. -/
theorem Unclosed.append {n : Nesting} {ts us : List Token} (h : Unclosed n ts)
    (hus : Settled n.top? us) : Unclosed n (ts ++ us) := by
  cases h with
  | settled hts => exact .settled (hts.append hus)
  | opened hts ht ho hinner =>
    rw [List.append_assoc]
    exact .opened hts ht ho (hinner.append hus)

/-- A segment does to the open brackets among the tokens what it does in the check. -/
theorem Unclosed.met {n n' : Nesting} {p : Position} {s : Segment} {f? : Option Fault}
    {ts : List Token} (h : Unclosed n ts) (hmet : Lexing.Met p n s n' f?) :
    Unclosed n' (ts ++ (s.token? p).toList) := by
  have htoken := bracket?_token? s p
  cases hmet with
  | plain hs =>
    refine h.append ?_
    rw [hs] at htoken
    cases ht : s.token? p with
    | none => exact .nil
    | some t => exact .plain (by rwa [ht] at htoken) .nil
  | @opened _ o ho =>
    rw [bracket?_delimiter (.inl ho)] at htoken
    have ht : (Token.startingAt p (.delimiter o) [o.symbol]).bracket? = some o := htoken
    exact .opened h ht ho .nil
  | @closed _ o c hp =>
    rw [bracket?_delimiter (.inr hp.isClosing)] at htoken
    cases h with
    | opened hts ht ho hinner =>
      rw [List.append_assoc]
      exact hts.append (.pair ht hinner htoken hp .nil)
  | unexpected hc =>
    rw [bracket?_delimiter (.inr hc)] at htoken
    exact h.append (.wrong htoken hc nofun .nil)
  | mismatched hc hp =>
    rw [bracket?_delimiter (.inr hc)] at htoken
    refine h.append (.wrong htoken hc ?_ .nil)
    rintro _ ⟨⟩
    exact hp

/-- **The open brackets of the check are those of the tokens.** -/
theorem Unclosed.nestingAfter {n : Nesting} {ts : List Token} (h : Unclosed n ts)
    (placed : List (Position × Segment)) :
    Unclosed (Lexing.nestingAfter n placed) (ts ++ tokensOf placed) := by
  induction placed generalizing n ts with
  | nil => rwa [tokensOf, List.filterMap_nil, List.append_nil]
  | cons ps placed ih =>
    obtain ⟨p, s⟩ := ps
    have ih := ih (h.met (Lexing.met_meet n p s))
    rw [List.append_assoc] at ih
    rw [tokensOf, List.filterMap_cons]
    cases ht : s.token? p with
    | none => rwa [ht] at ih
    | some t => rwa [ht] at ih

theorem unclosed_lex (source : String) :
    Unclosed (Lexing.nestingAfter [] (place .start (split source.toList)))
      (lex source).tokens :=
  ((Unclosed.settled .nil).nestingAfter _).append (.plain rfl .nil)

/-- The token `t` stands for an opening bracket `o` that none of the tokens behind it
closes, while they close all the brackets that they open. -/
structure LastUnclosed (o : Delimiter) (t : Token) (behind : List Token) : Prop where
  bracket : t.bracket? = some o
  isOpening : o.isOpening = true
  not_closed : ¬ ClosedIn o behind
  all_closed : AllClosed behind

/-- At most one bracket that is never closed is reported, however many there are. -/
theorem Nesting.counts_atEnd (n : Nesting) :
    Fault.wrongClosings n.atEnd.toList = 0 ∧
      n.atEnd.toList.countP Fault.isNeverClosed = min n.length 1 := by
  rcases n with _ | ⟨o, n⟩
  · exact ⟨rfl, rfl⟩
  · simp [atEnd, Fault.wrongClosings, Fault.isUnexpectedClosing, Fault.isMismatchedClosing,
      Fault.isNeverClosed]

/-- The numbers of brackets and of their faults in a whole source, `left` being the number of
those that are open at its end. -/
theorem conserved_lex (source : String) :
    ∃ left : Nat,
      (lex source).brackets.countP Delimiter.isOpening + Fault.wrongClosings (lex source).faults =
        left + (lex source).brackets.countP Delimiter.isClosing ∧
      Fault.wrongClosings (lex source).faults ≤
        (lex source).brackets.countP Delimiter.isClosing ∧
      (lex source).faults.countP Fault.isNeverClosed = min left 1 := by
  refine ⟨(Lexing.nestingAfter [] (place .start (split source.toList))).length, ?_⟩
  obtain ⟨hcount, hwrong, hmet⟩ := Lexing.conserved [] (place .start (split source.toList))
  obtain ⟨hend, hnever⟩ :=
    (Lexing.nestingAfter [] (place .start (split source.toList))).counts_atEnd
  rw [brackets_lex, faults_lex, Fault.wrongClosings_append, List.countP_append, hend, hnever,
    hmet, Nat.zero_add, Nat.add_zero]
  rw [List.length_nil, Nat.zero_add] at hcount
  exact ⟨hcount, hwrong, rfl⟩

/-- The bracket that is reported as never closed is the last one that no token closes. -/
theorem exists_lastUnclosed {source : String} {f : Fault} (hf : f ∈ (lex source).faults)
    (hnever : f.isNeverClosed = true) :
    ∃ before t behind o, (lex source).tokens = before ++ t :: behind ∧
      t.line = f.line ∧ t.column = f.column ∧ f.cause = .neverClosed o ∧
      LastUnclosed o t behind := by
  have hmet := (Lexing.conserved [] (place .start (split source.toList))).2.2
  have hunclosed := unclosed_lex source
  rw [faults_lex, List.mem_append] at hf
  generalize Lexing.nestingAfter [] (place .start (split source.toList)) = n at hf hunclosed
  generalize (lex source).tokens = tokens at hunclosed ⊢
  rcases hf with hf | hf
  · exact absurd hnever (List.countP_eq_zero.1 hmet f hf)
  · cases hunclosed with
    | settled => cases hf
    | @opened n ts inner t o _ ht ho hinner =>
      obtain rfl := List.mem_singleton.1 hf
      exact ⟨ts, t, inner, o, rfl, rfl, rfl, rfl, ht, ho, hinner.not_closedIn,
        hinner.allClosed⟩

namespace Lexing

/-- The number of opening brackets among the tokens. -/
def opens (l : Lexing) : Nat :=
  l.brackets.countP Delimiter.isOpening

/-- The number of closing brackets among the tokens. -/
def closes (l : Lexing) : Nat :=
  l.brackets.countP Delimiter.isClosing

/-- The number of closing brackets that are no faults. -/
def matched (l : Lexing) : Nat :=
  l.closes - l.faults.countP Fault.isUnexpectedClosing -
    l.faults.countP Fault.isMismatchedClosing

end Lexing

/-- **Brackets are conserved.**  Of the closing brackets, all but the faulty ones close an
opening bracket, so they are no more than these, and if they are fewer, then one bracket is
reported that is never closed: the last one that no token closes. -/
theorem brackets_are_conserved (source : String) :
    ((lex source).faults.countP Fault.isUnexpectedClosing +
          (lex source).faults.countP Fault.isMismatchedClosing ≤ (lex source).closes ∧
      (lex source).matched ≤ (lex source).opens ∧
      (lex source).faults.countP Fault.isNeverClosed =
        if (lex source).matched < (lex source).opens then 1 else 0) ∧
    ∀ f ∈ (lex source).faults, f.isNeverClosed = true →
      ∃ before t behind o, (lex source).tokens = before ++ t :: behind ∧
        t.line = f.line ∧ t.column = f.column ∧ f.cause = .neverClosed o ∧
        LastUnclosed o t behind := by
  obtain ⟨left, hconserved, hwrong, hnever⟩ := conserved_lex source
  simp only [Fault.wrongClosings] at hconserved hwrong
  have hmatched : (lex source).opens = left + (lex source).matched := by
    simp only [Lexing.matched, Lexing.closes, Lexing.opens]
    omega
  refine ⟨⟨hwrong, by omega, ?_⟩, fun f hf hf' => exists_lastUnclosed hf hf'⟩
  rw [hnever, hmatched]
  split <;> omega

end StudyPlan
