import Mathlib.Control.Monad.Basic
import StudyPlan.Proofs.Exactness

/-!
# The plans that are accepted

A token list is accepted exactly when what stands before its first mark of an end
can be derived as a plan, and its curriculum is then the one that the derived
entries add up to.

## Nothing behind the end is seen

A mark of the end of a source ends a token list wherever it stands.  A parser is
`Blind` when it does the same on a token list as on the tokens before its first
mark, and leaves the same apart from what stands behind the mark.  Every parser of
the language is blind, with one reservation: `lead` takes the token it is given, a
mark of the end included.  What begins with `lead` is therefore only blind in front
of a token that is no such mark (`BlindAhead`), and the bodies enter their parts
nowhere else.
-/

namespace StudyPlan

/-- The tokens before the first mark of the end. -/
def upToFinish (ts : List Token) : List Token :=
  ts.takeWhile fun t => !t.isFinish

@[simp] theorem upToFinish_nil : upToFinish [] = [] := rfl

theorem upToFinish_cons_of_finish {t : Token} (h : t.isFinish = true) (ts : List Token) :
    upToFinish (t :: ts) = [] := by
  simp [upToFinish, h]

theorem upToFinish_cons {t : Token} (h : t.isFinish = false) (ts : List Token) :
    upToFinish (t :: ts) = t :: upToFinish ts := by
  simp [upToFinish, h]

/-- What comes from a mark of the end on is not before the first one. -/
theorem upToFinish_append_cons_of_finish {finish : Token} (h : finish.isFinish = true)
    (ts behind : List Token) : upToFinish (ts ++ finish :: behind) = upToFinish ts := by
  induction ts with
  | nil => exact upToFinish_cons_of_finish h behind
  | cons t ts ih =>
    rw [List.cons_append]
    cases ht : t.isFinish with
    | true => rw [upToFinish_cons_of_finish ht, upToFinish_cons_of_finish ht]
    | false => rw [upToFinish_cons ht, upToFinish_cons ht, ih]

namespace Parser

open StudyPlan.Derivation

variable {α β σ : Type}

/-- The value read, and what is visible of the tokens left. -/
def visible (x : α × List Token) : α × List Token :=
  (x.1, upToFinish x.2)

/-- The parser sees nothing behind the first mark of the end. -/
def Blind (p : Parser α) : Prop :=
  ∀ ts, p (upToFinish ts) = (p ts).map visible

/-- The parser sees nothing behind the first mark of the end, when it is given
anything but that mark. -/
def BlindAhead (p : Parser α) : Prop :=
  ∀ t ts, t.isFinish = false → p (upToFinish (t :: ts)) = (p (t :: ts)).map visible

theorem Blind.ahead {p : Parser α} (h : Blind p) : BlindAhead p :=
  fun t ts _ => h (t :: ts)

theorem map_bind (p : Parser α) (f : α → Parser β) (ts : List Token) :
    ((p >>= f) ts).map visible =
      match p ts with
      | ⟨log, .error e⟩ => ⟨log, .error e⟩
      | ⟨log, .ok (a, rest)⟩ => ((f a rest).map visible).after log := by
  rw [bind_apply]
  rcases p ts with ⟨log, e | ⟨a, rest⟩⟩ <;> rfl

/-! ## Sequences and single tokens -/

theorem blind_pure (a : α) : Blind (pure a : Parser α) := fun _ => rfl

theorem blind_fail (e : SyntaxError) : Blind (fail e : Parser α) := fun _ => rfl

theorem blind_emit (e : Event) : Blind (emit e) := fun _ => rfl

theorem blind_emitAll (es : List Event) : Blind (emitAll es) := fun _ => rfl

theorem BlindAhead.bind {p : Parser α} {f : α → Parser β} (hp : BlindAhead p)
    (hf : ∀ a, Blind (f a)) : BlindAhead (p >>= f) := by
  intro t ts ht
  rw [map_bind, bind_apply, hp t ts ht]
  rcases p (t :: ts) with ⟨log, e | ⟨a, rest⟩⟩
  · rfl
  · show ((f a) (upToFinish rest)).after log = _
    rw [hf a rest]

theorem Blind.bind {p : Parser α} {f : α → Parser β} (hp : Blind p)
    (hf : ∀ a, Blind (f a)) : Blind (p >>= f) := by
  intro ts
  rw [map_bind, bind_apply, hp ts]
  rcases p ts with ⟨log, e | ⟨a, rest⟩⟩
  · rfl
  · show ((f a) (upToFinish rest)).after log = _
    rw [hf a rest]

theorem blindAhead_lead : BlindAhead lead := by
  intro t ts ht
  rw [upToFinish_cons ht]
  rfl

theorem blind_token (kind : Kind) (wanted : Expectation) : Blind (token kind wanted) := by
  rintro (_ | ⟨t, ts⟩)
  · rfl
  · cases ht : t.isFinish with
    | true =>
      rw [upToFinish_cons_of_finish ht]
      simp [token, ht, Logged.map, Except.map]
    | false =>
      rw [upToFinish_cons ht]
      by_cases hk : t.kind = kind
      · simp [token, ht, hk, Logged.map, Except.map, visible]
      · simp [token, ht, hk, Logged.map, Except.map]

theorem blind_delimiter (d : Delimiter) (wanted : Expectation) : Blind (delimiter d wanted) :=
  blind_token _ _

theorem blind_quoted (wanted : Expectation) : Blind (quoted wanted) :=
  (blind_token _ _).bind fun _ => blind_pure _

theorem blind_numeral (wanted : Expectation) : Blind (numeral wanted) :=
  (blind_token _ _).bind fun _ => blind_pure _

theorem blind_boolean (wanted : Expectation) : Blind (boolean wanted) :=
  (blind_token _ _).bind fun _ => blind_pure _

theorem blind_number (wanted : Expectation) : Blind (number wanted) := by
  refine (blind_token _ _).bind fun t => ?_
  split
  · exact blind_pure _
  · exact blind_fail _

/-! ## Bodies -/

variable {name : String} {table : Token → Action σ} {ending : Ending} {enter : σ → Parser α}
  {Part : List Token → α → List Token → Prop} {Passed : Token → Prop}

theorem map_visible_bodyEnd (ts : List Token) :
    (bodyEnd name ending ts : Logged SyntaxError (List α × List Token)).map visible =
      bodyEnd name ending (upToFinish ts) := by
  cases ending <;> rfl

/-- What is left of the tokens behind the head of a part, as far as it is visible. -/
theorem Fits.length_upToFinish_le (hfit : Fits table enter Part Passed)
    (henter : ∀ what, BlindAhead (enter what)) {t : Token} {ts rest : List Token} {a : α}
    {what : σ} (ht : t.isFinish = false) (hwhat : table t = .enter what)
    (h : (enter what (t :: ts)).result = .ok (a, rest)) :
    (upToFinish rest).length ≤ (upToFinish ts).length := by
  have hb := congrArg Logged.result (henter what t ts ht)
  rw [upToFinish_cons ht, Logged.result_map, h] at hb
  exact (hfit.suffix ht hwhat hb).length_le

/-- A body is blind when its parts are. -/
theorem blind_body (hfit : Fits table enter Part Passed)
    (henter : ∀ what, BlindAhead (enter what)) : Blind (body name table ending enter) := by
  intro ts
  fun_induction body name table ending enter ts with
  | case1 => rw [map_visible_bodyEnd, upToFinish_nil, body_nil]
  | case2 t ts hf => rw [map_visible_bodyEnd, upToFinish_cons_of_finish hf, body_nil]
  | case3 t ts hf hclose =>
    have hf' : t.isFinish = false := by simpa using hf
    rw [upToFinish_cons hf', body_close hf' hclose]
    rfl
  | case4 t ts hf hskip ih =>
    have hf' : t.isFinish = false := by simpa using hf
    rw [upToFinish_cons hf', body_skip hf' hskip, ih]
    rfl
  | case5 t ts hf what hwhat log e he =>
    have hf' : t.isFinish = false := by simpa using hf
    have hb := henter what t ts hf'
    rw [he, upToFinish_cons hf'] at hb
    rw [upToFinish_cons hf', body_enter_error hf' hwhat hb]
    rfl
  | case6 t ts hf what hwhat log a rest he ih =>
    have hf' : t.isFinish = false := by simpa using hf
    have hresult : (enter what (t :: ts)).result = .ok (a, rest) := by rw [he]
    have hs := hfit.suffix hf' hwhat hresult
    have hb := henter what t ts hf'
    rw [he, upToFinish_cons hf'] at hb
    rw [upToFinish_cons hf', body_enter_ok hf' hwhat hb
      (hfit.length_upToFinish_le henter hf' hwhat hresult)]
    rw [atMost_of_length_le hs.length_le] at ih ⊢
    show ((body name table ending enter (upToFinish rest)).map _).after log = _
    rw [ih]
    rcases body name table ending enter rest with ⟨log', e | ⟨as, rest'⟩⟩ <;> rfl

/-! ## Constructs -/

theorem blind_prerequisites : Blind prerequisites :=
  (blind_delimiter _ _).bind fun _ =>
    blind_body (fits_prerequisites _) fun _ => (blind_numeral _).ahead

theorem blind_fieldEnd (f : Field) : Blind (fieldEnd f) := blind_delimiter _ _

theorem blind_fieldValue (f : Field) (line : Nat) : Blind (fieldValue f line) := by
  cases f with
  | name | code | description | area =>
    exact (blind_quoted _).bind fun _ => (blind_fieldEnd _).bind fun _ => blind_pure _
  | credits =>
    exact (blind_number _).bind fun _ => (blind_fieldEnd _).bind fun _ => blind_pure _
  | mandatory =>
    exact (blind_boolean _).bind fun _ => (blind_fieldEnd _).bind fun _ => blind_pure _
  | prerequisites => exact blind_prerequisites.bind fun _ => blind_pure _

theorem blindAhead_field (f : Field) : BlindAhead (field f) :=
  blindAhead_lead.bind fun _ => (blind_delimiter _ _).bind fun _ => blind_fieldValue _ _

theorem blindAhead_course (n : UInt32) : BlindAhead (course n) :=
  blindAhead_lead.bind fun _ => (blind_delimiter _ _).bind fun _ =>
    (blind_numeral _).bind fun _ => (blind_delimiter _ _).bind fun _ =>
    (blind_emit _).bind fun _ => (blind_body fits_course blindAhead_field).bind fun _ =>
    (blind_emitAll _).bind fun _ => (blind_emit _).bind fun _ => blind_pure _

theorem blindAhead_semester : BlindAhead semester :=
  blindAhead_lead.bind fun _ => (blind_delimiter _ _).bind fun _ =>
    (blind_number _).bind fun _ => (blind_delimiter _ _).bind fun _ =>
    (blind_emit _).bind fun _ =>
    (blind_body (fits_semester _) fun _ => blindAhead_course _).bind fun _ =>
    (blind_emit _).bind fun _ => blind_pure _

/-- The look at the token behind a title is no look behind the end: a mark of the end
is not a bracket. -/
theorem blind_programBody : Blind programBody := by
  rintro (_ | ⟨t, ts⟩)
  · rfl
  · cases ht : t.isFinish with
    | true =>
      have hk : t.isDelimiter .openBracket = false := by
        have hf : t.kind = .finish := by simpa [Token.isFinish] using ht
        simp [Token.isDelimiter, hf]
      rw [upToFinish_cons_of_finish ht]
      simp [programBody, hk, Logged.map, Except.map, visible, upToFinish_cons_of_finish ht]
    | false =>
      rw [upToFinish_cons ht]
      cases hk : t.isDelimiter .openBracket with
      | true =>
        rw [programBody, programBody, if_pos hk, if_pos hk]
        exact blind_body fits_program (fun _ => blindAhead_semester) ts
      | false =>
        simp [programBody, hk, Logged.map, Except.map, visible, upToFinish_cons ht]

theorem blindAhead_program : BlindAhead program :=
  blindAhead_lead.bind fun _ => (blind_delimiter _ _).bind fun _ =>
    (blind_quoted _).bind fun _ => (blind_emit _).bind fun _ =>
    blind_programBody.bind fun _ => blind_pure _

theorem blindAhead_entry (what : TopLevel) : BlindAhead (entry what) := by
  cases what with
  | program => exact blindAhead_program.bind fun _ => blind_pure _
  | semester => exact blindAhead_semester.bind fun _ => blind_pure _

theorem blind_entries : Blind entries := blind_body fits_plan blindAhead_entry

end Parser

open StudyPlan.Derivation

/-! ## Whole token lists -/

/-- The curriculum of a token list, with its log, is that of the tokens before its
first mark of the end. -/
theorem ofTokens_upToFinish (ts : List Token) :
    Curriculum.ofTokens (upToFinish ts) = Curriculum.ofTokens ts := by
  have h := Parser.blind_entries ts
  unfold Curriculum.ofTokens Parser.curriculum Parser.map
  rw [h]
  rcases Parser.entries ts with ⟨log, e | ⟨es, rest⟩⟩ <;> rfl

/-- **A mark of the end ends the tokens wherever it stands.**  A token list is read like
the tokens before its first mark, with the same value or error and the same log.  So it
makes no difference whether a mark is put behind some tokens, or a mark and any tokens
behind it, or nothing. -/
theorem first_finish_ends_tokens (ts : List Token) :
    Curriculum.ofTokens ts = Curriculum.ofTokens (upToFinish ts) ∧
      ∀ finish behind, finish.isFinish = true →
        Curriculum.ofTokens (ts ++ finish :: behind) = Curriculum.ofTokens ts := by
  refine ⟨(ofTokens_upToFinish ts).symm, fun finish behind hfinish => ?_⟩
  calc Curriculum.ofTokens (ts ++ finish :: behind)
      = Curriculum.ofTokens (upToFinish (ts ++ finish :: behind)) :=
        (ofTokens_upToFinish _).symm
    _ = Curriculum.ofTokens (upToFinish ts) := by
        rw [upToFinish_append_cons_of_finish hfinish]
    _ = Curriculum.ofTokens ts := ofTokens_upToFinish ts

/-- A semester without its closing bracket. -/
def openSemester : List Token :=
  [⟨.keyword .semestre, "Semestre", 1, 1⟩, ⟨.delimiter .colon, ":", 1, 9⟩,
    ⟨.number, "1", 1, 11⟩, ⟨.delimiter .openBrace, "\x7b", 1, 13⟩]

/-- The bracket that would close it. -/
def closingBrace : Token :=
  ⟨.delimiter .closeBrace, "\x7d", 2, 1⟩

/-- The bracket closes the semester, but not behind a mark of the end. -/
theorem first_finish_ends_tokens_openSemester :
    (Curriculum.ofTokens (openSemester ++ [closingBrace])).result.isOk = true ∧
      (Token.finish .start).isFinish = true ∧
      Curriculum.ofTokens (openSemester ++ .finish .start :: [closingBrace]) =
        Curriculum.ofTokens openSemester ∧
      (Curriculum.ofTokens openSemester).result =
        .error (.endOfTokens (.closing .closeBrace "semester 1")) :=
  ⟨by decide +kernel, rfl, (first_finish_ends_tokens openSemester).2 _ _ rfl,
    by decide +kernel⟩

theorem result_ofTokens_eq_ok_iff {ts : List Token} {c : Curriculum} :
    (Curriculum.ofTokens ts).result = .ok c ↔
      ∃ es rest, (Parser.entries ts).result = .ok (es, rest) ∧ c = Curriculum.ofEntries es := by
  unfold Curriculum.ofTokens Parser.curriculum Parser.map
  rcases Parser.entries ts with ⟨log, e | ⟨es, rest⟩⟩
  · simp [Logged.map, Except.map]
  · simp [Logged.map, Except.map, eq_comm]

/-- Where no mark of the end stands, the entries of a plan are read exactly when they
can be derived without anything being left. -/
theorem result_entries_upToFinish_eq_ok_iff {ts rest : List Token} {es : List Entry} :
    (Parser.entries (upToFinish ts)).result = .ok (es, rest) ↔
      EntriesOf (upToFinish ts) es [] ∧ rest = [] := by
  rw [Parser.result_entries_eq_ok_iff]
  constructor
  · rintro ⟨h, hn⟩
    obtain rfl : rest = [] := by
      rcases rest with _ | ⟨t, rest⟩
      · rfl
      · -- a token that is left was there to begin with, so it marks no end
        have hmem : t ∈ upToFinish ts := (h.suffix headed_entryOf).subset (List.mem_cons_self ..)
        have ht : (!t.isFinish) = true := List.all_eq_true.1 List.all_takeWhile t hmem
        simp_all [Parser.next?]
    exact ⟨h, rfl⟩
  · rintro ⟨h, rfl⟩
    exact ⟨h, rfl⟩

/-- Both lists of entries are what the parser reads. -/
theorem entriesOf_upToFinish_unique {ts : List Token} {es es' : List Entry}
    (h : EntriesOf (upToFinish ts) es []) (h' : EntriesOf (upToFinish ts) es' []) : es = es' := by
  have hr := result_entries_upToFinish_eq_ok_iff.2 ⟨h, rfl⟩
  have hr' := result_entries_upToFinish_eq_ok_iff.2 ⟨h', rfl⟩
  exact (Prod.mk.inj (Except.ok.inj (hr.symm.trans hr'))).1

/-- **A token list is accepted exactly when what stands before its first mark of the
end can be derived as a plan.**  The curriculum is the one that the entries of the
derivation add up to, and no token list has derivations with different entries. -/
theorem accepted_iff_derivable (ts : List Token) :
    (∀ c, (Curriculum.ofTokens ts).result = .ok c ↔
      ∃ es, EntriesOf (upToFinish ts) es [] ∧ c = Curriculum.ofEntries es) ∧
    ∀ es es', EntriesOf (upToFinish ts) es [] → EntriesOf (upToFinish ts) es' [] →
      es = es' := by
  constructor
  · intro c
    rw [← ofTokens_upToFinish, result_ofTokens_eq_ok_iff]
    simp only [result_entries_upToFinish_eq_ok_iff]
    constructor
    · rintro ⟨es, _, ⟨h, -⟩, hc⟩
      exact ⟨es, h, hc⟩
    · rintro ⟨es, h, hc⟩
      exact ⟨es, [], ⟨h, rfl⟩, hc⟩
  · intro es es' h h'
    exact entriesOf_upToFinish_unique h h'

end StudyPlan
