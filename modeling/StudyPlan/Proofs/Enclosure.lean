import Mathlib.Control.Monad.Basic
import StudyPlan.Proofs.Triple
import StudyPlan.Source.Lexing

/-!
# A clean source does not end inside a body

The lexer checks brackets with a stack.  The grammar keeps no stack: a body steps over
opening brackets that it has no use for and ends at the first closing bracket of its
own kind, so it may well end before the bracket that the lexer matched with its
opening one.  What keeps the two together is that a body can only end too early and
never too late.

## The invariant

`Nested opened ts` says that the tokens `ts` close the brackets `opened`, the
innermost first, and nothing else.  A parser knows the brackets of the constructs it
is in, but not the ones that were stepped over.  So what it keeps is
`Within outer ts`: the tokens ahead close the brackets `outer`, and before them maybe
others.  Reading any token keeps this, unless the token closes the innermost of the
brackets `outer` themselves (`Within.step`) --- and at that token, if not before, the
body that this bracket opened is over.

## What follows

While any bracket is open the tokens cannot end, so inside a body there is always a
next token.  Only the header of a construct at the top level can be cut short, and
the semesters of a program always end with a bracket.
-/

namespace StudyPlan

/-- A kind that neither opens nor closes a bracket nor ends a source. -/
def Kind.isPlain : Kind → Bool
  | .finish => false
  | .delimiter d => !(d.isOpening || d.isClosing)
  | _ => true

theorem isFinish_eq_false_of_isPlain {t : Token} (h : t.kind.isPlain = true) :
    t.isFinish = false := by
  cases hf : t.isFinish with
  | false => rfl
  | true =>
    have hk : t.kind = .finish := by simpa [Token.isFinish] using hf
    simp [hk, Kind.isPlain] at h

/-- The tokens close the brackets `opened`, from left to right, and every bracket
that they open themselves. -/
inductive Nested : List Delimiter → List Token → Prop
  | nil : Nested [] []
  | finish {t : Token} {ts : List Token} :
      t.kind = .finish → Nested [] ts → Nested [] (t :: ts)
  | plain {opened : List Delimiter} {t : Token} {ts : List Token} :
      t.kind.isPlain = true → Nested opened ts → Nested opened (t :: ts)
  | opening {opened : List Delimiter} {o : Delimiter} {t : Token} {ts : List Token} :
      o.isOpening = true → t.kind = .delimiter o → Nested (o :: opened) ts →
        Nested opened (t :: ts)
  | closing {opened : List Delimiter} {o c : Delimiter} {t : Token} {ts : List Token} :
      o.partner? = some c → t.kind = .delimiter c → Nested opened ts →
        Nested (o :: opened) (t :: ts)

/-! ## Clean sources are nested -/

theorem Kind.isPlain_ofWord (word : String) : (Kind.ofWord word).isPlain = true := by
  unfold Kind.ofWord
  split
  · rfl
  · split <;> rfl

/-- Placed segments without faults stand for tokens that close what is open. -/
theorem nested_of_faultsFrom_eq_nil {n : Nesting} {p q : Position} {ss : List Segment}
    (h : Lexing.faultsFrom n (Segment.place p ss) = []) :
    Nested (n.map Opening.bracket)
      ((Segment.place p ss).filterMap (fun ps => ps.2.token? ps.1) ++ [.finish q]) := by
  induction ss generalizing n p with
  | nil =>
    rcases n with _ | ⟨o, n⟩
    · exact .finish rfl .nil
    · simp [Segment.place, Lexing.faultsFrom, Nesting.atEnd] at h
  | cons s ss ih =>
    rw [Segment.place, Lexing.faultsFrom, List.append_eq_nil_iff] at h
    obtain ⟨hmeet, hrest⟩ := h
    rw [Segment.place, List.filterMap_cons]
    cases s with
    | blank c => exact ih hrest
    | stray c => simp [Lexing.meet] at hmeet
    | unterminated mark body => simp [Lexing.meet] at hmeet
    | number digits => exact .plain rfl (ih hrest)
    | word letters => exact .plain (Kind.isPlain_ofWord _) (ih hrest)
    | quoted mark body => exact .plain rfl (ih hrest)
    | delimiter d =>
      simp only [Lexing.meet] at hmeet hrest
      split at hrest
      · next ho => exact .opening ho rfl (ih hrest)
      · next ho =>
        split at hrest
        · next hc =>
          rw [if_neg ho, if_pos hc] at hmeet
          rcases n with _ | ⟨o, n⟩
          · simp [Nesting.close] at hmeet
          · by_cases hp : o.bracket.partner? = some d
            · rw [Nesting.close, if_pos hp] at hrest
              exact .closing hp rfl (ih hrest)
            · simp [Nesting.close, hp] at hmeet
        · next hc =>
          refine .plain ?_ (ih hrest)
          simp [Token.startingAt, Kind.isPlain, ho, hc]

/-- The tokens of a source without faults are nested. -/
theorem nested_of_isClean {source : String} (h : (lex source).isClean = true) :
    Nested [] (lex source).tokens :=
  nested_of_faultsFrom_eq_nil (n := []) (by simpa [Lexing.isClean, lex, Lexing.ofChars] using h)

/-! ## The brackets around a parser -/

/-- The tokens ahead close the brackets `outer`, and before them maybe others. -/
def Within (outer : List Delimiter) (ts : List Token) : Prop :=
  ∃ inner, Nested (inner ++ outer) ts

/-- The tokens ahead close the bracket `o` somewhere within `outer`. -/
def Inside (o : Delimiter) (outer : List Delimiter) (ts : List Token) : Prop :=
  ∃ between, Within (o :: (between ++ outer)) ts

theorem Within.of_append (inner : List Delimiter) {outer : List Delimiter} {ts : List Token}
    (h : Within (inner ++ outer) ts) : Within outer ts := by
  obtain ⟨k, hk⟩ := h
  exact ⟨k ++ inner, by rwa [List.append_assoc]⟩

theorem Inside.within {o : Delimiter} {outer : List Delimiter} {ts : List Token}
    (h : Inside o outer ts) : Within outer ts := by
  obtain ⟨between, h⟩ := h
  exact Within.of_append (o :: between) h

/-- Inside brackets the tokens do not end. -/
theorem Within.next?_ne_none {o : Delimiter} {outer : List Delimiter} {ts : List Token}
    (h : Within (o :: outer) ts) : Parser.next? ts ≠ none := by
  obtain ⟨inner, h⟩ := h
  generalize hopened : inner ++ o :: outer = opened at h
  have hne : opened ≠ [] := by
    rw [← hopened]
    simp
  rcases ts with _ | ⟨t, ts⟩
  · cases h
    exact absurd rfl hne
  · have ht : t.isFinish = false := by
      cases hf : t.isFinish with
      | false => rfl
      | true =>
        have hk : t.kind = .finish := by simpa [Token.isFinish] using hf
        cases h with
        | finish _ _ => exact absurd rfl hne
        | plain hp _ => simp [hk, Kind.isPlain] at hp
        | opening _ hk' _ => simp [hk] at hk'
        | closing _ hk' _ => simp [hk] at hk'
    simp [Parser.next?, ht]

/-- **A token leaves the brackets around it alone or closes the innermost of them.** -/
theorem Within.step {outer : List Delimiter} {t : Token} {ts : List Token}
    (h : Within outer (t :: ts)) (ht : t.isFinish = false) :
    Within outer ts ∨ ∃ o c outer', outer = o :: outer' ∧ o.partner? = some c ∧
      t.kind = .delimiter c ∧ Within outer' ts := by
  obtain ⟨inner, h⟩ := h
  generalize hopened : inner ++ outer = opened at h
  cases h with
  | finish hk _ => simp [Token.isFinish, hk] at ht
  | plain _ h => exact .inl ⟨inner, hopened ▸ h⟩
  | @opening _ o _ _ _ _ h =>
    subst hopened
    exact .inl ⟨o :: inner, h⟩
  | @closing opened' o c _ _ hp hk h =>
    rcases inner with _ | ⟨o', inner⟩
    · exact .inr ⟨o, c, opened', hopened, hp, hk, [], h⟩
    · obtain ⟨rfl, rfl⟩ := List.cons.inj hopened
      exact .inl ⟨inner, h⟩

theorem Within.of_plain {outer : List Delimiter} {t : Token} {ts : List Token}
    (h : Within outer (t :: ts)) (ht : t.kind.isPlain = true) : Within outer ts := by
  have hf : t.isFinish = false := isFinish_eq_false_of_isPlain ht
  rcases h.step hf with h | ⟨o, c, _, -, hp, hk, -⟩
  · exact h
  · have hc : c.isClosing = true := Delimiter.isClosing_iff_exists_partner.2 ⟨o, hp⟩
    simp [hk, Kind.isPlain, hc] at ht

/-- At the top level every token may be stepped over. -/
theorem Within.tail {t : Token} {ts : List Token} (h : Within [] (t :: ts))
    (ht : t.isFinish = false) : Within [] ts := by
  rcases h.step ht with h | ⟨_, _, _, ho, -⟩
  · exact h
  · cases ho

/-- An opening bracket is one more bracket to be closed. -/
theorem Within.of_opening {outer : List Delimiter} {o : Delimiter} {t : Token}
    {ts : List Token} (h : Within outer (t :: ts)) (ho : o.isOpening = true)
    (hk : t.kind = .delimiter o) : Inside o outer ts := by
  obtain ⟨inner, h⟩ := h
  generalize hopened : inner ++ outer = opened at h
  cases h with
  | finish hk' _ => simp [hk] at hk'
  | plain hp _ => simp [hk, Kind.isPlain, ho] at hp
  | opening _ hk' h =>
    obtain rfl := Kind.delimiter.inj (hk.symm.trans hk')
    subst hopened
    exact ⟨inner, [], h⟩
  | closing hp hk' _ =>
    obtain rfl := Kind.delimiter.inj (hk.symm.trans hk')
    exact absurd ho (Delimiter.not_isOpening_of_partner hp)

/-- A bracket that does not close `o` leaves it to be closed. -/
theorem Inside.of_not_closing {o c : Delimiter} {outer : List Delimiter} {t : Token}
    {ts : List Token} (h : Inside o outer (t :: ts)) (ht : t.isFinish = false)
    (hp : o.partner? = some c) (hk : t.kind ≠ .delimiter c) : Inside o outer ts := by
  obtain ⟨between, h⟩ := h
  rcases h.step ht with h | ⟨_, c', _, ho, hp', hk', -⟩
  · exact ⟨between, h⟩
  · obtain ⟨rfl, -⟩ := List.cons.inj ho
    obtain rfl := Option.some.inj (hp.symm.trans hp')
    exact absurd hk' hk

/-- **The closing bracket of a body closes its opening bracket or one inside it.** -/
theorem Inside.of_closing {o : Delimiter} {outer : List Delimiter} {t : Token}
    {ts : List Token} (h : Inside o outer (t :: ts)) (ht : t.isFinish = false) :
    Within outer ts := by
  obtain ⟨between, h⟩ := h
  rcases h.step ht with h | ⟨_, _, _, ho, -, -, h⟩
  · exact Within.of_append (o :: between) h
  · obtain ⟨-, rfl⟩ := List.cons.inj ho
    exact Within.of_append between h

/-! ## What a construct keeps -/

/-- What may be missing when the tokens end: the header of a program or of a
semester that stands at the top level. -/
def headerExpectations : List Expectation :=
  [.symbolAfter .colon "CARRERA", .item "the program name", .symbolAfter .colon "SEMESTRE",
    .item "the semester number", .symbolAfter .openBrace "the semester number"]

/-- The errors that may arise within brackets: the tokens end only where there are
none, and only in a header. -/
def Arises (outer : List Delimiter) : SyntaxError → Prop
  | .endOfTokens wanted => outer = [] ∧ wanted ∈ headerExpectations
  | .unexpected _ _ => True
  | .outOfRange _ _ => True

/-- An error from inside a body is no end of the tokens, so it may arise anywhere. -/
theorem Arises.of_cons {o : Delimiter} {outer outer' : List Delimiter} {e : SyntaxError}
    (h : Arises (o :: outer) e) : Arises outer' e := by
  cases e with
  | endOfTokens wanted => exact absurd h.1 (List.cons_ne_nil _ _)
  | unexpected wanted found => trivial
  | outOfRange text line => trivial

namespace Parser

open StudyPlan.Derivation

variable {outer : List Delimiter} {wanted : Expectation}

/-- Where the tokens end nothing is open, so a header may be cut short there. -/
theorem arises_of_next?_eq_none {ts : List Token} (h : Within outer ts) (hn : next? ts = none)
    (hw : outer = [] → wanted ∈ headerExpectations) : Arises outer (.endOfTokens wanted) := by
  rcases outer with _ | ⟨o, outer⟩
  · exact ⟨rfl, hw rfl⟩
  · exact absurd hn h.next?_ne_none

theorem meets_token_plain {kind : Kind} (hk : kind.isPlain = true)
    (hw : outer = [] → wanted ∈ headerExpectations) :
    Meets (Within outer) (token kind wanted) (fun _ => Within outer) (Arises outer) := by
  refine meets_token ?_ (fun _ _ _ _ _ => trivial) fun ts h hn => ?_
  · rintro t rest h - rfl
    exact h.of_plain hk
  · exact arises_of_next?_eq_none h hn hw

theorem meets_opening {o : Delimiter} (ho : o.isOpening = true)
    (hw : outer = [] → wanted ∈ headerExpectations) :
    Meets (Within outer) (delimiter o wanted) (fun _ => Inside o outer) (Arises outer) := by
  refine meets_token ?_ (fun _ _ _ _ _ => trivial) fun ts h hn => ?_
  · intro t rest h _ hk
    exact h.of_opening ho hk
  · exact arises_of_next?_eq_none h hn hw

theorem meets_quoted (hw : outer = [] → wanted ∈ headerExpectations) :
    Meets (Within outer) (quoted wanted) (fun _ => Within outer) (Arises outer) :=
  (meets_token_plain rfl hw).bind fun _ => meets_pure _ fun _ h => h

theorem meets_numeral (hw : outer = [] → wanted ∈ headerExpectations) :
    Meets (Within outer) (numeral wanted) (fun _ => Within outer) (Arises outer) :=
  (meets_token_plain rfl hw).bind fun _ => meets_pure _ fun _ h => h

theorem meets_boolean (hw : outer = [] → wanted ∈ headerExpectations) :
    Meets (Within outer) (boolean wanted) (fun _ => Within outer) (Arises outer) :=
  (meets_token_plain rfl hw).bind fun _ => meets_pure _ fun _ h => h

theorem meets_number (hw : outer = [] → wanted ∈ headerExpectations) :
    Meets (Within outer) (number wanted) (fun _ => Within outer) (Arises outer) := by
  refine (meets_token_plain rfl hw).bind fun t => ?_
  split
  · exact meets_pure _ fun _ h => h
  · exact meets_fail trivial

/-- A part of a body is entered on a token that is no bracket: what is around it is
around the tokens behind it too. -/
def Entered (outer : List Delimiter) (ts : List Token) : Prop :=
  Within outer ts ∧ Behind (Within outer) ts

theorem Meets.of_lead {α : Type} {p : Parser α}
    (h : Meets (Behind (Within outer)) p (fun _ => Within outer) (Arises outer)) :
    Meets (Entered outer) p (fun _ => Within outer) (Arises outer) :=
  h.mono (fun _ h => h.2) (fun _ _ h => h) fun _ h => h

/-- **A body that was opened by `o` ends at a bracket.**  How it would behave at the
end of the tokens is of no consequence, since it never gets there. -/
theorem meets_body {α σ : Type} {name : String} {table : Token → Action σ} {ending : Ending}
    {enter : σ → Parser α} {Part : List Token → α → List Token → Prop} {Passed : Token → Prop}
    (hfit : Fits table enter Part Passed) {o c : Delimiter} (hp : o.partner? = some c)
    (hclose : ∀ {t : Token}, table t = .close ↔ t.kind = .delimiter c)
    (hplain : ∀ {t : Token} {what : σ}, table t = .enter what → t.kind.isPlain = true)
    (henter : ∀ what between, Meets (Entered (o :: between)) (enter what)
      (fun _ => Within (o :: between)) (Arises (o :: between))) :
    Meets (Inside o outer) (body name table ending enter) (fun _ => Within outer)
      (Arises outer) := by
  refine Meets.body hfit ?_ ?_ ?_ ?_
  · rintro ts ⟨_, h⟩ hn
    exact absurd hn h.next?_ne_none
  · intro t ts ht _ h
    exact h.of_closing ht
  · intro t ts ht hskip h
    refine h.of_not_closing ht hp fun hk => ?_
    rw [hclose.2 hk] at hskip
    cases hskip
  · rintro t ts what ht hwhat ⟨between, h⟩
    refine (henter what (between ++ outer)).mono ?_ (fun _ _ h => ⟨between, h⟩)
      fun _ h => h.of_cons
    rintro _ rfl
    exact ⟨h, t, ts, rfl, h.of_plain (hplain hwhat)⟩

theorem isPlain_of_heads {w : Token} {f : Field} (h : Heads w f) : w.kind.isPlain = true := by
  cases f with
  | name | code | credits | description | mandatory => rw [h]; rfl
  | prerequisites => rcases h with h | ⟨h, -⟩ <;> rw [h] <;> rfl
  | area => rw [h.1]; rfl

variable {o : Delimiter}

theorem meets_prerequisites :
    Meets (Within (o :: outer)) prerequisites (fun _ => Within (o :: outer))
      (Arises (o :: outer)) := by
  refine (meets_opening (o := .openParen) rfl (by simp)).bind fun _ => ?_
  refine meets_body (fits_prerequisites _) rfl Table.prerequisites_eq_close_iff ?_ ?_
  · intro t what h
    rw [Table.prerequisites_eq_enter_iff.1 h]
    rfl
  · intro _ between
    exact (meets_numeral (by simp)).mono (fun _ h => h.1) (fun _ _ h => h) fun _ h => h

theorem meets_fieldEnd (f : Field) :
    Meets (Within (o :: outer)) (fieldEnd f) (fun _ => Within (o :: outer))
      (Arises (o :: outer)) :=
  meets_token_plain rfl (by simp)

theorem meets_fieldValue (f : Field) (line : Nat) :
    Meets (Within (o :: outer)) (fieldValue f line) (fun _ => Within (o :: outer))
      (Arises (o :: outer)) := by
  cases f with
  | name | code | description | area =>
    exact (meets_quoted (by simp)).bind fun _ => (meets_fieldEnd _).bind fun _ =>
      meets_pure _ fun _ h => h
  | credits =>
    exact (meets_number (by simp)).bind fun _ => (meets_fieldEnd _).bind fun _ =>
      meets_pure _ fun _ h => h
  | mandatory =>
    exact (meets_boolean (by simp)).bind fun _ => (meets_fieldEnd _).bind fun _ =>
      meets_pure _ fun _ h => h
  | prerequisites => exact meets_prerequisites.bind fun _ => meets_pure _ fun _ h => h

theorem meets_field (f : Field) :
    Meets (Behind (Within (o :: outer))) (field f) (fun _ => Within (o :: outer))
      (Arises (o :: outer)) :=
  meets_lead.bind fun _ => (meets_token_plain rfl (by simp)).bind fun _ =>
    meets_fieldValue _ _

theorem meets_course (n : UInt32) :
    Meets (Behind (Within (o :: outer))) (course n) (fun _ => Within (o :: outer))
      (Arises (o :: outer)) := by
  refine meets_lead.bind fun _ => (meets_token_plain rfl (by simp)).bind fun _ => ?_
  refine (meets_numeral (by simp)).bind fun code => ?_
  refine (meets_opening (o := .openBrace) rfl (by simp)).bind fun _ => ?_
  refine (meets_emit _).bind fun _ => Meets.bind (R := fun _ => Within (o :: outer)) ?_ fun _ => ?_
  · refine meets_body fits_course rfl Table.course_eq_close_iff ?_ ?_
    · intro t f h
      exact isPlain_of_heads (Table.course_eq_enter_iff.1 h)
    · intro f between
      exact (meets_field f).of_lead
  · exact (meets_emitAll _).bind fun _ => (meets_emit _).bind fun _ => meets_pure _ fun _ h => h

theorem meets_semester :
    Meets (Behind (Within outer)) semester (fun _ => Within outer) (Arises outer) := by
  refine meets_lead.bind fun _ => ?_
  refine (meets_token_plain rfl fun _ => by simp [headerExpectations]).bind fun _ => ?_
  refine (meets_number fun _ => by simp [headerExpectations]).bind fun n => ?_
  refine (meets_opening (o := .openBrace) rfl fun _ => by
    simp [headerExpectations]).bind fun _ => ?_
  refine (meets_emit _).bind fun _ => Meets.bind (R := fun _ => Within outer) ?_ fun _ => ?_
  · refine meets_body (fits_semester n) rfl Table.semester_eq_close_iff ?_ ?_
    · intro t what h
      rw [Table.semester_eq_enter_iff.1 h]
      rfl
    · intro _ between
      exact (meets_course n).of_lead
  · exact (meets_emit _).bind fun _ => meets_pure _ fun _ h => h

/-- The semesters of a program, whatever is to happen if the tokens end in them. -/
theorem meets_semesters {name : String} {ending : Ending} :
    Meets (Inside .openBracket outer) (body name Table.program ending fun _ => semester)
      (fun _ => Within outer) (Arises outer) := by
  refine meets_body fits_program rfl Table.program_eq_close_iff ?_ ?_
  · intro t what h
    rw [Table.program_eq_enter_iff.1 h]
    rfl
  · intro _ between
    exact meets_semester.of_lead

theorem meets_programBody :
    Meets (Within outer) programBody (fun _ => Within outer) (Arises outer) := by
  rintro (_ | ⟨t, ts⟩) h
  · exact h
  · by_cases hk : t.isDelimiter .openBracket = true
    · rw [programBody, if_pos hk]
      exact meets_semesters ts (h.of_opening rfl (by simpa [Token.isDelimiter] using hk))
    · rw [programBody, if_neg hk]
      exact h

theorem meets_program :
    Meets (Behind (Within outer)) program (fun _ => Within outer) (Arises outer) := by
  refine meets_lead.bind fun _ => ?_
  refine (meets_token_plain rfl fun _ => by simp [headerExpectations]).bind fun _ => ?_
  refine (meets_quoted fun _ => by simp [headerExpectations]).bind fun _ => ?_
  exact (meets_emit _).bind fun _ => meets_programBody.bind fun _ => meets_pure _ fun _ h => h

theorem meets_entry (what : TopLevel) :
    Meets (Behind (Within outer)) (entry what) (fun _ => Within outer) (Arises outer) := by
  cases what with
  | program => exact meets_program.bind fun _ => meets_pure _ fun _ h => h
  | semester => exact meets_semester.bind fun _ => meets_pure _ fun _ h => h

/-- At the top level nothing has to be closed, and the tokens may end anywhere but in
a header. -/
theorem meets_entries : Meets (Within []) entries (fun _ _ => True) (Arises []) := by
  refine Meets.body fits_plan (fun _ _ _ => trivial) (fun _ _ _ _ _ => trivial) ?_ ?_
  · intro t ts ht _ h
    exact h.tail ht
  · rintro t ts what ht - h
    refine (meets_entry what).mono ?_ (fun _ _ h => h) fun _ h => h
    rintro _ rfl
    exact ⟨t, ts, rfl, h.tail ht⟩

/-- The semesters of a program do not run on to the end of the tokens. -/
theorem next?_ne_none_of_semestersOf {ts rest : List Token} {ss : List Semester}
    (h : Inside .openBracket [] ts) (hrun : SemestersOf ts ss rest) : next? rest ≠ none := by
  intro hn
  -- a body that insists on its closing bracket would have failed here
  have hfail : (body "" Table.program (.closedBy .closeBracket) (fun _ => semester) ts).result =
      .error (.endOfTokens (.closing .closeBracket "")) := by
    rw [result_body_of_run fits_program hrun, body_of_next?_eq_none hn]
    rfl
  have harises := meets_semesters.of_error h hfail
  exact absurd harises.2 (by decide)

/-- A program whose bracket was entered ends with a closing bracket. -/
theorem exists_closing_of_program {w colon title opening : Token} {inner rest : List Token}
    {p : Program} (h : Within [] (opening :: inner)) (hw : w.kind = .keyword .carrera)
    (ho : opening.kind = .delimiter .openBracket)
    (hp : (program (w :: colon :: title :: opening :: inner)).result = .ok (p, rest)) :
    ∃ body closing, inner = body ++ closing :: rest ∧
      closing.kind = .delimiter .closeBracket := by
  have hinside : Inside .openBracket [] inner := h.of_opening rfl ho
  cases (result_program_eq_ok_iff hw).1 hp with
  | bare _ _ _ hbare => exact absurd ho (hbare opening rfl)
  | closed _ _ _ _ hrun hc =>
    obtain ⟨body, hbody⟩ := hrun.suffix headed_semesterOf
    exact ⟨body, _, hbody.symm, hc⟩
  | cut _ _ _ _ hrun hn => exact absurd hn (next?_ne_none_of_semestersOf hinside hrun)

end Parser

/-! ## Clean sources -/

/-- What follows in nested tokens is nested in whatever is open there. -/
theorem Nested.within_of_append {opened : List Delimiter} {before ts : List Token}
    (h : Nested opened (before ++ ts)) : Within [] ts := by
  induction before generalizing opened with
  | nil => exact ⟨opened, by simpa using h⟩
  | cons t before ih =>
    cases h with
    | finish _ h | plain _ h | opening _ _ h | closing _ _ h => exact ih h

theorem result_ofTokens_eq_error_iff {ts : List Token} {e : SyntaxError} :
    (Curriculum.ofTokens ts).result = .error e ↔ (Parser.entries ts).result = .error e := by
  unfold Curriculum.ofTokens Parser.curriculum Parser.map
  rcases Parser.entries ts with ⟨log, e' | ⟨es, rest⟩⟩
  · simp [Logged.map, Except.map]
  · simp [Logged.map, Except.map]

/-- The messages of a plan that ends in the header of a construct. -/
def headerMessages : List String :=
  ["Expected ':' after CARRERA", "Expected the program name", "Expected ':' after SEMESTRE",
    "Expected the semester number", "Expected '\x7b' after the semester number"]

theorem message_mem_headerMessages {wanted : Expectation} (h : wanted ∈ headerExpectations) :
    wanted.message ∈ headerMessages := by
  revert wanted
  decide

/-- **The tokens of a clean source never end inside a body.**  If they end where one
is wanted, a header of the top level is cut short, and no bracket is missed.  And
wherever in the tokens a program is read and its bracket was entered, it ends with a
closing bracket. -/
theorem clean_source_ends_in_no_body (source : String)
    (hclean : (lex source).isClean = true) :
    (∀ wanted, (Curriculum.ofTokens (lex source).tokens).result = .error (.endOfTokens wanted) →
      wanted.message ∈ headerMessages) ∧
    (∀ d construct, (Curriculum.ofTokens (lex source).tokens).result ≠
      .error (.endOfTokens (.closing d construct))) ∧
    ∀ before w colon title opening inner p rest,
      (lex source).tokens = before ++ w :: colon :: title :: opening :: inner →
      w.kind = .keyword .carrera → opening.kind = .delimiter .openBracket →
      (Parser.program (w :: colon :: title :: opening :: inner)).result = .ok (p, rest) →
      ∃ body closing, inner = body ++ closing :: rest ∧
        closing.kind = .delimiter .closeBracket := by
  have hnested : Nested [] (lex source).tokens := nested_of_isClean hclean
  have harises : ∀ wanted,
      (Curriculum.ofTokens (lex source).tokens).result = .error (.endOfTokens wanted) →
      wanted ∈ headerExpectations := by
    intro wanted h
    have hentries := result_ofTokens_eq_error_iff.1 h
    exact (Parser.meets_entries.of_error ⟨[], hnested⟩ hentries).2
  refine ⟨fun wanted h => message_mem_headerMessages (harises wanted h), ?_, ?_⟩
  · intro d construct h
    have hmem := harises _ h
    simp [headerExpectations] at hmem
  · intro before w colon title opening inner p rest htokens hw ho hp
    have hwithin : Within [] (opening :: inner) := by
      have hsplit : (lex source).tokens = (before ++ [w, colon, title]) ++ opening :: inner := by
        rw [htokens]
        simp
      rw [hsplit] at hnested
      exact hnested.within_of_append
    exact Parser.exists_closing_of_program hwithin hw ho hp

/-- A clean source whose semester ends at a bracket that belongs to another one, and
whose last word begins a header. -/
def cutHeader : String :=
  "Carrera: 'X' [ Semestre: 1 \x7b \x7b \x7d \x7d ] Semestre"

theorem clean_source_ends_in_no_body_cutHeader :
    (lex cutHeader).isClean = true ∧
    (Curriculum.ofTokens (lex cutHeader).tokens).result =
      .error (.endOfTokens (.symbolAfter .colon "SEMESTRE")) ∧
    (Expectation.symbolAfter .colon "SEMESTRE").message ∈ headerMessages := by
  have hclean : (lex cutHeader).isClean = true := by decide +kernel
  have hend : (Curriculum.ofTokens (lex cutHeader).tokens).result =
      .error (.endOfTokens (.symbolAfter .colon "SEMESTRE")) := by decide +kernel
  exact ⟨hclean, hend, (clean_source_ends_in_no_body cutHeader hclean).1 _ hend⟩

end StudyPlan
