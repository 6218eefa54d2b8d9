import StudyPlan.Proofs.Decoding
import StudyPlan.Proofs.Promptness
import StudyPlan.Proofs.Shape

/-!
# Numbers are taken at their value

Two numbers of a plan are more than texts: the number of a semester and the credits of a course.
They have 32 bits, and a numeral may be as long as it likes.  So each of them is either read at
the value that its digits have, or given up, and never cut down to what fits.

## What a numeral denotes

`Numeral.Denotes` says it with digits and their value, and there are not many ways to write a
number: its own digits, any number of zeros in front, and possibly a plus sign
(`Numeral.denotes_iff_exists_zeros`).  A plus sign is allowed by the parser and by no source,
where it is a stray character.

## Where an error comes from

That a number is out of range is said in one place, where its token has just been read.  What
that means for the error of a whole plan is found in two ways.  Which token the error is about is
known from the first token that cannot be right (`Parser.Prompt.exists_blamed`), and that its
number is as large as that comes with every error of the parser (`SyntaxError.IsSpecific`).
-/

namespace StudyPlan

/-! ## What a numeral denotes -/

namespace Numeral

variable {text : String} {n : Nat}

/-- The text is a plus sign or none, and digits behind it, at least one, of which `n` is the
value. -/
def Denotes (text : String) (n : Nat) : Prop :=
  ∃ sign digits : List Char, text.toList = sign ++ digits ∧ (sign = [] ∨ sign = ['+']) ∧
    digits ≠ [] ∧ (∀ c ∈ digits, c.isDigit = true) ∧ Nat.ofDigitChars 10 digits 0 = n

theorem digits_of_toList_eq {sign ds : List Char} (htext : text.toList = sign ++ ds)
    (hsign : sign = [] ∨ sign = ['+']) (hds : ∀ c ∈ ds, c.isDigit = true) :
    digits text = ds := by
  unfold digits
  rw [htext]
  rcases hsign with rfl | rfl
  · rw [List.nil_append]
    split
    · cases hds '+' List.mem_cons_self
    · rfl
  · rfl

theorem exists_sign (text : String) :
    ∃ sign, text.toList = sign ++ digits text ∧ (sign = [] ∨ sign = ['+']) := by
  unfold digits
  split
  · next rest h => exact ⟨['+'], h, .inr rfl⟩
  · exact ⟨[], rfl, .inl rfl⟩

theorem denotes_iff : Denotes text n ↔ isNumeral text = true ∧ value text = n := by
  simp only [isNumeral, value, Bool.and_eq_true, Bool.not_eq_true', List.isEmpty_eq_false_iff,
    List.all_eq_true]
  constructor
  · rintro ⟨sign, ds, htext, hsign, hne, hds, rfl⟩
    rw [digits_of_toList_eq htext hsign hds]
    exact ⟨⟨hne, hds⟩, rfl⟩
  · rintro ⟨⟨hne, hds⟩, rfl⟩
    obtain ⟨sign, htext, hsign⟩ := exists_sign text
    exact ⟨sign, digits text, htext, hsign, hne, hds, rfl⟩

theorem toUInt32?_eq_some_iff_denotes {v : UInt32} :
    toUInt32? text = some v ↔ Denotes text v.toNat := by
  rw [toUInt32?_eq_some_iff, denotes_iff]

/-- A text that is not taken for a number has no value that fits. -/
theorem Denotes.size_le (h : Denotes text n) (hnone : toUInt32? text = none) :
    UInt32.size ≤ n := by
  by_contra hlt
  rw [Nat.not_le] at hlt
  have hsome : toUInt32? text = some (UInt32.ofNatLT n hlt) :=
    toUInt32?_eq_some_iff_denotes.2 (by simpa using h)
  rw [hnone] at hsome
  cases hsome

theorem toUInt32?_eq_none_iff :
    toUInt32? text = none ↔ ∀ v : UInt32, ¬ Denotes text v.toNat := by
  rw [Option.eq_none_iff_forall_ne_some]
  simp only [ne_eq, toUInt32?_eq_some_iff_denotes]

theorem ofDigitChars_replicate_zero (k : Nat) (ds : List Char) :
    Nat.ofDigitChars 10 (List.replicate k '0' ++ ds) 0 = Nat.ofDigitChars 10 ds 0 := by
  induction k with
  | zero => rfl
  | succ k ih => rwa [List.replicate_succ, List.cons_append, Nat.ofDigitChars_cons]

/-- A number is written with its own digits behind any number of zeros, and a plus sign or
none. -/
theorem denotes_iff_exists_zeros : Denotes text n ↔ ∃ sign k, (sign = [] ∨ sign = ['+']) ∧
    text.toList = sign ++ (List.replicate k '0' ++ Nat.toDigits 10 n) := by
  constructor
  · rintro ⟨sign, ds, htext, hsign, hne, hds, rfl⟩
    obtain ⟨k, hk⟩ := Json.exists_zeros hne hds
    exact ⟨sign, k, hsign, htext.trans (congrArg _ hk)⟩
  · rintro ⟨sign, k, hsign, htext⟩
    refine ⟨sign, _, htext, hsign, by simp [Nat.toDigits_ne_nil], ?_, ?_⟩
    · intro c hc
      rcases List.mem_append.1 hc with hc | hc
      · rw [List.eq_of_mem_replicate hc]
        rfl
      · exact Nat.isDigit_of_mem_toDigits (by decide) (by decide) hc
    · rw [ofDigitChars_replicate_zero, Nat.ofDigitChars_ten_toDigits]

end Numeral

/-! ## Where numbers are read -/

open StudyPlan.Derivation

/-- A number token is read at its value, or it is out of range. -/
theorem Parser.result_runAt_number {wanted : Expectation} {tokens : List Token} {pos : Nat}
    {t : Token} (ht : tokens[pos]? = some t) (hk : t.kind = .number) :
    ((number wanted).runAt tokens pos).result =
      match Numeral.toUInt32? t.text with
      | some v => .ok (v, pos + 1)
      | none => .error (.outOfRange t.text t.line) := by
  obtain ⟨hpos, hget⟩ := List.getElem?_eq_some_iff.1 ht
  have hdrop : tokens.drop pos = t :: tokens.drop (pos + 1) :=
    hget ▸ List.drop_eq_getElem_cons hpos
  have hfinish := isFinish_eq_false hk nofun
  rw [runAt, hdrop]
  cases hv : Numeral.toUInt32? t.text <;>
    simp [number, bind_apply, token, hfinish, hk, hv, Except.map]

/-- The text stands in the source, on the line `line`, as digits with no further digit behind
them. -/
def HasDigits (source text : String) (line : Nat) : Prop :=
  IsCode text ∧ ∃ before after, source.toList = before ++ (text.toList ++ after) ∧
    line = 1 + before.count '\n' ∧ ∀ c ∈ after.head?, c.isDigit = false

/-- A number among the tokens of a source stands in the source. -/
theorem hasDigits_of_mem_lex {source : String} {t : Token} (ht : t ∈ (lex source).tokens)
    (hk : t.kind = .number) : HasDigits source t.text t.line := by
  obtain ⟨before, lexeme, after, hsource, hstand⟩ :=
    exists_standsFor_of_mem_lex ht (isFinish_eq_false hk nofun)
  have hlexeme := hstand.spelled.lexeme_eq (by simp [hk])
  refine ⟨isCode_of_mem_numbersOf (mem_numbersOf_iff.2 ⟨t, ht, hk, rfl⟩), before, after,
    hlexeme ▸ hsource, ?_, hstand.number_ends hk⟩
  rw [hstand.line, Position.line_advance]
  rfl

/-! ## Errors -/

/-- A number that is given up as out of range is one of the tokens, and is out of range. -/
theorem exists_token_of_outOfRange {ts : List Token} {text : String} {line : Nat}
    (h : (Curriculum.ofTokens ts).result = .error (.outOfRange text line)) :
    Numeral.toUInt32? text = none ∧ ∃ t ∈ ts, t.kind = .number ∧ t.text = text ∧ t.line = line := by
  have hentries := result_ofTokens_eq_error_iff.1 h
  refine ⟨Parser.specific_entries.of_error trivial hentries, ?_⟩
  obtain ⟨before, t, later, rfl, hblames, -, -⟩ := Parser.prompt_entries.exists_blamed rfl hentries
  exact ⟨t, by simp, hblames⟩

/-- Digits denote their value. -/
theorem IsCode.denotes {text : String} (h : IsCode text) :
    Numeral.Denotes text (Nat.ofDigitChars 10 text.toList 0) :=
  ⟨[], text.toList, rfl, .inl rfl, h.1, h.2, rfl⟩

/-! ## Plans -/

/-- Somewhere among the tokens is `w`, and the next but one behind it is a number that denotes
`n`. -/
def NumberBehind (ts : List Token) (w : Token) (n : Nat) : Prop :=
  ∃ k t, ts[k]? = some w ∧ ts[k + 2]? = some t ∧ t.kind = .number ∧ Numeral.Denotes t.text n

theorem numberBehind_of_suffix {ts inner : List Token} {w colon t : Token} {n : UInt32}
    (h : w :: colon :: t :: inner <:+ ts) (ht : Writes t n) : NumberBehind ts w n.toNat := by
  obtain ⟨before, rfl⟩ := h
  exact ⟨before.length, t, by simp, by simp, ht.1, Numeral.denotes_iff.2 ht.2⟩

/-- A field that gives credits gives those of a number in it. -/
theorem Derivation.FieldOf.credits {ts rest : List Token} {n : UInt32}
    (h : FieldOf ts (.credits n) rest) :
    ∃ w colon t inner, ts = w :: colon :: t :: inner ∧ w.kind = .keyword .creditos ∧
      Writes t n := by
  cases h with
  | single hw _ hv _ =>
    cases hv with
    | credits ht => exact ⟨_, _, _, _, rfl, hw, ht⟩

/-- The credits of a course are those of one of its fields, if there are any. -/
theorem Course.credits_mem_of_ne_zero {code : String} {n : UInt32} {F : List Detail}
    (h : (Course.ofDetails code n F).credits ≠ 0) :
    Detail.credits (Course.ofDetails code n F).credits ∈ F := by
  rw [Course.ofDetails_eq_lastWins] at h ⊢
  rw [Course.lastWins] at h ⊢
  rcases hlast : Detail.last? .credits F with _ | d
  · simp [hlast] at h
  · have hd : d ∈ F := List.mem_of_mem_filter (List.mem_of_getLast? hlast)
    cases d with
    | credits amount => exact hd
    | name | code | description | mandatory | prerequisites | area =>
      simp [hlast, Detail.credits?] at h

theorem Derivation.CourseOf.credits {n : UInt32} {ts rest : List Token} {c : Course}
    (h : CourseOf n ts c rest) (hc : c.credits ≠ 0) :
    ∃ w colon t inner, w :: colon :: t :: inner <:+ ts ∧ w.kind = .keyword .creditos ∧
      Writes t c.credits := by
  obtain ⟨_, _, _, _, hfields, _⟩ := h
  obtain ⟨us, mid, hus, hfield⟩ :=
    hfields.exists_part headed_fieldOf _ (Course.credits_mem_of_ne_zero hc)
  obtain ⟨w, colon, t, inner, rfl, hw, ht⟩ := hfield.credits
  exact ⟨w, colon, t, inner, hus.trans ⟨[_, _, _, _], rfl⟩, hw, ht⟩

/-- **Numbers are exact.**  A number token is read at the value that it denotes, if this fits into
32 bits, and is given up as out of range with its text and line otherwise.  A number of a source
that was given up stands in the source, with digits whose value does not fit.  And in a plan that
was read, every semester and every course that has credits has them from a number that denotes
just that. -/
theorem numbers_are_exact :
    (∀ wanted tokens pos (t : Token), tokens[pos]? = some t → t.kind = .number →
      (∀ v pos', ((Parser.number wanted).runAt tokens pos).result = .ok (v, pos') ↔
        pos' = pos + 1 ∧ Numeral.Denotes t.text v.toNat) ∧
      ((∀ v : UInt32, ¬ Numeral.Denotes t.text v.toNat) →
        ((Parser.number wanted).runAt tokens pos).result = .error (.outOfRange t.text t.line))) ∧
    (∀ source text line,
      (Curriculum.ofTokens (lex source).tokens).result = .error (.outOfRange text line) →
        HasDigits source text line ∧ 2 ^ 32 ≤ Nat.ofDigitChars 10 text.toList 0) ∧
    ∀ ts c, (Curriculum.ofTokens ts).result = .ok c →
      (∀ b ∈ c.blocks, ∃ w : Token, w.kind = .keyword .semestre ∧ w.line = b.line ∧
        NumberBehind ts w b.number.toNat) ∧
      ∀ x ∈ c.store.toList, x.credits ≠ 0 →
        ∃ w : Token, w.kind = .keyword .creditos ∧ NumberBehind ts w x.credits.toNat := by
  refine ⟨?_, ?_, ?_⟩
  · intro wanted tokens pos t ht hk
    rw [Parser.result_runAt_number ht hk]
    constructor
    · intro v pos'
      rw [← Numeral.toUInt32?_eq_some_iff_denotes]
      cases Numeral.toUInt32? t.text <;> simp [and_comm, eq_comm]
    · intro hnone
      rw [Numeral.toUInt32?_eq_none_iff.2 hnone]
  · intro source text line h
    obtain ⟨hnone, t, ht, hk, rfl, rfl⟩ := exists_token_of_outOfRange h
    have hdigits := hasDigits_of_mem_lex ht hk
    exact ⟨hdigits, hdigits.1.denotes.size_le hnone⟩
  · intro ts c h
    obtain ⟨es, rest, hread, rfl⟩ := result_ofTokens_eq_ok_iff.1 h
    have hamong := (Parser.result_entries_eq_ok_iff.1 hread).1.semesters
    constructor
    · rw [Curriculum.blocks_ofEntries, List.forall_mem_map]
      intro s hs
      obtain ⟨us, mid, hus, hsemester⟩ := hamong.exists_part headed_semesterOf s hs
      obtain ⟨w, colon, number, inner, rfl, -, hw, hline, -, hnumber⟩ := hsemester.exists_head
      exact ⟨w, hw, hline, numberBehind_of_suffix hus hnumber⟩
    · rw [Curriculum.toList_store_ofEntries]
      intro x hx hcredits
      obtain ⟨us, mid, hus, hcourse⟩ :=
        hamong.courses.exists_part headed_courseOf_semester x hx
      obtain ⟨w, colon, t, inner, hfield, hw, ht⟩ := hcourse.credits hcredits
      exact ⟨w, hw, numberBehind_of_suffix (hfield.trans hus) ht⟩

/-- A number that no source has: a plus sign stands in it. -/
def signedNumber : Token :=
  ⟨.number, "+0042", 3, 7⟩

/-- A course with the least number of credits that does not fit. -/
def wideCredits : String :=
  "Semestre: 1 \x7b Curso: 7 \x7b Creditos:\n4294967296; \x7d \x7d"

/-- A course with as many credits as fit, in a semester whose number has zeros in front. -/
def fullCredits : String :=
  "Semestre: 007 \x7b Curso: 7 \x7b Creditos: 4294967295; \x7d \x7d"

theorem numbers_are_exact_atBoundary :
    ((Parser.number (.item "a number")).runAt [signedNumber] 0).result = .ok (42, 1) ∧
      HasDigits wideCredits "4294967296" 2 ∧
      (∃ w : Token, w.kind = .keyword .semestre ∧
        NumberBehind (lex fullCredits).tokens w 7) ∧
      ∃ w : Token, w.kind = .keyword .creditos ∧
        NumberBehind (lex fullCredits).tokens w 4294967295 := by
  obtain ⟨hnumber, herror, hplan⟩ := numbers_are_exact
  have hwide : (Curriculum.ofTokens (lex wideCredits).tokens).result =
      .error (.outOfRange "4294967296" 2) := by
    decide +kernel
  have hfull : (Curriculum.ofTokens (lex fullCredits).tokens).result = .ok (.ofEntries
      [.semester ⟨7, 1, [.ofDetails "7" 7 [.credits 4294967295]]⟩]) := by
    decide +kernel
  obtain ⟨hblocks, hcourses⟩ := hplan _ _ hfull
  refine ⟨?_, (herror _ _ _ hwide).1, ?_, ?_⟩
  · exact ((hnumber _ [signedNumber] 0 signedNumber rfl rfl).1 42 1).2
      ⟨rfl, ['+'], ['0', '0', '4', '2'], rfl, .inr rfl, nofun, List.all_eq_true.1 rfl, rfl⟩
  · obtain ⟨w, hw, -, hbehind⟩ := hblocks ⟨7, 1⟩ (by decide +kernel)
    exact ⟨w, hw, hbehind⟩
  · exact hcourses (.ofDetails "7" 7 [.credits 4294967295]) (by decide +kernel)
      (by decide +kernel)

end StudyPlan
