import StudyPlan.Failure
import StudyPlan.Proofs.Lossless
import StudyPlan.Proofs.Promptness

/-!
# Two ways to the same verdict

A source can be asked for its curriculum (`Curriculum.ofSource`), and it can be analysed under
some settings (`analyze`).  The two are written down separately.  They agree as follows.

The settings say which sources are let through (`Settings.Admits`).  For a source that is let
through, the outcome of the first decides the report of the second, the list of tokens apart
(`analyze_eq_ok_iff`).  So no setting changes a verdict: it keeps a source from having one, or
it leaves the tokens out (`verdict_does_not_depend_on_settings`).

## The line of a syntax error

An error has a line unless the tokens have ended too early, and it is the line of a token.
That is more than what an error says of itself, for a number that does not fit into 32 bits
is reported without its token.  That there is one is due to the reading: the first token that
cannot be right is always named (`Parser.Prompt.exists_blamed`).
-/

namespace StudyPlan

/-! ## What is let through -/

/-- The settings let a source through. -/
def Settings.Admits (s : Settings) (source : String) : Prop :=
  source ≠ "" ∧ ∀ limit ∈ s.maxInputBytes, source.utf8ByteSize ≤ limit.toNat

theorem Settings.rejection?_eq_none_iff {s : Settings} {source : String} :
    s.rejection? source = none ↔ s.Admits source := by
  rw [rejection?, Admits, ne_eq, ← String.isEmpty_iff]
  cases hempty : source.isEmpty <;> cases hlimit : s.maxInputBytes <;> simp

theorem Settings.rejection?_eq_emptyInput_iff {s : Settings} {source : String} :
    s.rejection? source = some .emptyInput ↔ source = "" := by
  rw [rejection?, ← String.isEmpty_iff]
  cases hempty : source.isEmpty <;> cases hlimit : s.maxInputBytes <;> simp

theorem Settings.rejection?_eq_tooLarge_iff {s : Settings} {source : String}
    {length limit : Nat} :
    s.rejection? source = some (.tooLarge length limit) ↔
      source ≠ "" ∧ length = source.utf8ByteSize ∧
        s.maxInputBytes.map UInt64.toNat = some limit ∧ limit < length := by
  rw [rejection?, ne_eq, ← String.isEmpty_iff]
  cases hempty : source.isEmpty <;> cases hlimit : s.maxInputBytes <;> simp
  constructor
  · rintro ⟨hlong, rfl, rfl⟩
    exact ⟨rfl, rfl, hlong⟩
  · rintro ⟨rfl, rfl, hlong⟩
    exact ⟨hlong, rfl, rfl⟩

/-! ## What becomes of a source that is let through -/

/-- The report on a source, with the tokens that it is to list, by what comes of the source.
The other failures are none of a source. -/
def Report.ofOutcome? (tokens : Option (List Token)) : Except Failure Curriculum → Option Report
  | .ok c => some (.parsed tokens c)
  | .error (.lexical faults) => some (.lexicalFaults faults)
  | .error (.grammar e) => some (.syntaxError tokens e.message e.line?)
  | .error _ => none

/-- The report without its list of tokens. -/
def Report.withoutTokens : Report → Report
  | lexicalFaults faults => lexicalFaults faults
  | parsed _ c => parsed none c
  | syntaxError _ message line => syntaxError none message line

/-- Only a report of faults lists no tokens where it is to list some. -/
theorem Report.tokens?_of_ofOutcome? {r : Report} {tokens : Option (List Token)}
    {outcome : Except Failure Curriculum} (h : ofOutcome? tokens outcome = some r) :
    (∃ faults, r = .lexicalFaults faults) ∨ r.tokens? = tokens := by
  cases outcome with
  | ok c =>
    cases h
    exact .inr rfl
  | error failure =>
    cases failure <;> cases h
    · exact .inl ⟨_, rfl⟩
    · exact .inr rfl

/-- What two reports on one outcome leave to differ is the list of tokens. -/
theorem Report.withoutTokens_of_ofOutcome? {r : Report} {tokens : Option (List Token)}
    {outcome : Except Failure Curriculum} (h : ofOutcome? tokens outcome = some r) :
    ofOutcome? none outcome = some r.withoutTokens := by
  cases outcome with
  | ok c =>
    cases h
    rfl
  | error failure => cases failure <;> cases h <;> rfl

/-- The tokens of a source that a report on it is to list. -/
def Settings.listed (s : Settings) (source : String) : Option (List Token) :=
  if s.includeTokens then some (lex source).tokens else none

theorem Lexing.exists_report (settings : Settings) (source : String) :
    ∃ report, ((lex source).report settings).result = .ok report ∧
      Report.ofOutcome? (settings.listed source) (Curriculum.ofSource source) = some report := by
  rw [Lexing.report, Curriculum.ofSource]
  by_cases hclean : (lex source).isClean = true
  · rw [if_pos hclean, if_pos hclean]
    rcases Curriculum.ofTokens (lex source).tokens with ⟨log, e | c⟩
    · exact ⟨_, rfl, rfl⟩
    · exact ⟨_, rfl, rfl⟩
  · rw [if_neg hclean, if_neg hclean]
    exact ⟨_, rfl, rfl⟩

theorem analyze_eq_error_iff {settings : Settings} {source : String} {r : Rejection} :
    (analyze settings source).result = .error r ↔ settings.rejection? source = some r := by
  rw [analyze]
  cases hr : settings.rejection? source with
  | some r' => simp
  | none =>
    obtain ⟨report, hreport, -⟩ := Lexing.exists_report settings source
    simp [hreport]

/-- A source that is let through has one report. -/
theorem analyze_eq_ok_iff {settings : Settings} {source : String} {report : Report} :
    (analyze settings source).result = .ok report ↔ settings.Admits source ∧
      Report.ofOutcome? (settings.listed source) (Curriculum.ofSource source) = some report := by
  rw [analyze, ← Settings.rejection?_eq_none_iff]
  cases hr : settings.rejection? source with
  | some r => simp
  | none =>
    obtain ⟨report', hreport, houtcome⟩ := Lexing.exists_report settings source
    simp [hreport, houtcome]

theorem exists_analyze_eq_ok_iff {settings : Settings} {source : String} :
    (∃ report, (analyze settings source).result = .ok report) ↔ settings.Admits source := by
  constructor
  · rintro ⟨report, h⟩
    exact (analyze_eq_ok_iff.1 h).1
  · intro h
    obtain ⟨report, -, houtcome⟩ := Lexing.exists_report settings source
    exact ⟨report, analyze_eq_ok_iff.2 ⟨h, houtcome⟩⟩

/-! ## The line of a syntax error -/

theorem SyntaxError.line?_eq_none_iff {e : SyntaxError} :
    e.line? = none ↔ ∃ wanted, e = .endOfTokens wanted := by
  cases e <;> simp [line?]

theorem SyntaxError.Blames.line?_eq {e : SyntaxError} {t : Token} (h : e.Blames t) :
    e.line? = some t.line := by
  cases e with
  | unexpected wanted found => exact congrArg (fun t : Token => some t.line) h
  | endOfTokens wanted => cases h
  | outOfRange text line => exact congrArg some h.2.2.symm

/-- The line of an error is that of a token before the end. -/
theorem exists_token_of_line {ts : List Token} {e : SyntaxError} {n : Nat}
    (h : (Curriculum.ofTokens ts).result = .error e) (hn : e.line? = some n) :
    ∃ t ∈ ts, t.isFinish = false ∧ t.line = n := by
  have hfinal : e.isFinal = true := by
    cases e with
    | endOfTokens wanted => cases hn
    | unexpected | outOfRange => rfl
  rw [← ofTokens_upToFinish, result_ofTokens_eq_error_iff] at h
  obtain ⟨before, t, later, hts, hblamed, -, -⟩ :=
    Parser.prompt_entries.exists_blamed hfinal h
  have hmem : t ∈ upToFinish ts := by
    rw [hts]
    simp
  refine ⟨t, (List.takeWhile_prefix _).subset hmem,
    (take_of_upToFinish_eq hts).2 t (by simp), ?_⟩
  exact Option.some.inj (hblamed.line?_eq.symm.trans hn)

theorem ofSource_eq_grammar_iff {source : String} {e : SyntaxError} :
    Curriculum.ofSource source = .error (.grammar e) ↔ (lex source).isClean = true ∧
      (Curriculum.ofTokens (lex source).tokens).result = .error e := by
  rw [Curriculum.ofSource]
  by_cases hclean : (lex source).isClean = true
  · rw [if_pos hclean]
    cases (Curriculum.ofTokens (lex source).tokens).result <;> simp [hclean]
  · rw [if_neg hclean]
    simp [hclean]

/-! ## Verdicts -/

namespace Report

/-- The report says of a source what is asked of it directly. -/
structure IsVerdictOn (r : Report) (source : String) : Prop where
  parsed : ∀ c, (∃ tokens, r = .parsed tokens c) ↔ Curriculum.ofSource source = .ok c
  faulty : ∀ faults,
    r = .lexicalFaults faults ↔ Curriculum.ofSource source = .error (.lexical faults)
  refused : ∀ message line, (∃ tokens, r = .syntaxError tokens message line) ↔
    ∃ e, Curriculum.ofSource source = .error (.grammar e) ∧
      message = e.message ∧ line = e.line?
  /-- All tokens are listed, if any, up to the mark of the end. -/
  tokens : ∀ tokens, r.tokens? = some tokens → tokens = (lex source).tokens ∧
    ∃ before p, tokens = before ++ [.finish p] ∧ ∀ t ∈ before, t.isFinish = false
  /-- An error has no line if the tokens ended too early. -/
  endless : ∀ tokens message line, r = .syntaxError tokens message line →
    (line = none ↔ ∃ wanted, Curriculum.ofSource source = .error (.grammar (.endOfTokens wanted)))
  /-- Else it has the line of a token. -/
  line : ∀ tokens message n, r = .syntaxError tokens message (some n) →
    ∃ t ∈ (lex source).tokens, t.isFinish = false ∧ t.line = n

theorem isVerdictOn_of_ofOutcome? {r : Report} {settings : Settings} {source : String}
    (h : ofOutcome? (settings.listed source) (Curriculum.ofSource source) = some r) :
    r.IsVerdictOn source := by
  have hlisted : ∀ tokens, settings.listed source = some tokens → tokens = (lex source).tokens ∧
      ∃ before p, tokens = before ++ [.finish p] ∧ ∀ t ∈ before, t.isFinish = false := by
    intro tokens htokens
    obtain ⟨before, hbefore, hfinish, -⟩ := (Cut.explains_ofSegments source).tokens
    rw [Settings.listed] at htokens
    split at htokens
    · cases htokens
      exact ⟨rfl, before, _, hbefore, hfinish⟩
    · cases htokens
  cases houtcome : Curriculum.ofSource source with
  | ok c =>
    rw [houtcome] at h
    cases h
    exact {
      parsed := by simp [houtcome]
      faulty := by simp [houtcome]
      refused := by simp [houtcome]
      tokens := hlisted
      endless := nofun
      line := nofun }
  | error failure =>
    rw [houtcome] at h
    cases failure with
    | lexical faults =>
      cases h
      exact {
        parsed := by simp [houtcome]
        faulty := by simp [houtcome]
        refused := by simp [houtcome]
        tokens := nofun
        endless := nofun
        line := nofun }
    | grammar e =>
      cases h
      exact {
        parsed := by simp [houtcome]
        faulty := by simp [houtcome]
        refused := by simp [houtcome, eq_comm]
        tokens := hlisted
        endless := by
          rintro _ _ _ ⟨⟩
          simp [houtcome, SyntaxError.line?_eq_none_iff]
        line := fun tokens message n hr => by
          have hn : e.line? = some n := (Report.syntaxError.inj hr).2.2
          exact exists_token_of_line (ofSource_eq_grammar_iff.1 houtcome).2 hn }
    | rejected | settings | io | internal => cases h

end Report

/-- **No setting changes a verdict.**  A source is rejected if it is empty or longer than the
settings allow, and otherwise its report says what is asked of it directly.  Under other
settings it may be rejected or listed with its tokens or without them, and nothing else. -/
theorem verdict_does_not_depend_on_settings (settings : Settings) (source : String) :
    ((analyze settings source).result = .error .emptyInput ↔ source = "") ∧
      (∀ length limit, (analyze settings source).result = .error (.tooLarge length limit) ↔
        source ≠ "" ∧ length = source.utf8ByteSize ∧
          settings.maxInputBytes.map UInt64.toNat = some limit ∧ limit < length) ∧
      ((∃ report, (analyze settings source).result = .ok report) ↔ settings.Admits source) ∧
      ∀ report, (analyze settings source).result = .ok report → report.IsVerdictOn source ∧
        ∀ settings' report', (analyze settings' source).result = .ok report' →
          report.withoutTokens = report'.withoutTokens := by
  refine ⟨?_, ?_, exists_analyze_eq_ok_iff, ?_⟩
  · rw [analyze_eq_error_iff, Settings.rejection?_eq_emptyInput_iff]
  · intro length limit
    rw [analyze_eq_error_iff, Settings.rejection?_eq_tooLarge_iff]
  · intro report h
    have houtcome := (analyze_eq_ok_iff.1 h).2
    refine ⟨Report.isVerdictOn_of_ofOutcome? houtcome, fun settings' report' h' => ?_⟩
    have houtcome' := (analyze_eq_ok_iff.1 h').2
    exact Option.some.inj ((Report.withoutTokens_of_ofOutcome? houtcome).symm.trans
      (Report.withoutTokens_of_ofOutcome? houtcome'))

/-- A number with one more than 32 bits can hold, on a line of its own. -/
def hugeNumber : String :=
  "Semestre:\n4294967296 \x7b\x7d"

theorem verdict_does_not_depend_on_settings_hugeNumber :
    (analyze {} "").result = .error .emptyInput ∧
      (analyze { maxInputBytes := some 8 } hugeNumber).result = .error (.tooLarge 23 8) ∧
      ∃ report report', (analyze {} hugeNumber).result = .ok report ∧
        (analyze { includeTokens := false } hugeNumber).result = .ok report' ∧
        report ≠ report' ∧ report.withoutTokens = report'.withoutTokens ∧
        ∃ t ∈ (lex hugeNumber).tokens, t.isFinish = false ∧ t.line = 2 := by
  have hlisted : (analyze {} hugeNumber).result =
      .ok (.syntaxError (some (lex hugeNumber).tokens)
        "Number '4294967296' at line 2 is out of range" (some 2)) := by
    decide +kernel
  have hunlisted : (analyze { includeTokens := false } hugeNumber).result =
      .ok (.syntaxError none "Number '4294967296' at line 2 is out of range" (some 2)) := by
    decide +kernel
  have hempty := (verdict_does_not_depend_on_settings {} "").1.2 rfl
  have hlong := ((verdict_does_not_depend_on_settings { maxInputBytes := some 8 } hugeNumber).2.1
    23 8).2 (by decide +kernel)
  obtain ⟨hverdict, hsame⟩ := (verdict_does_not_depend_on_settings {} hugeNumber).2.2.2 _ hlisted
  exact ⟨hempty, hlong, _, _, hlisted, hunlisted, nofun, hsame _ _ hunlisted,
    hverdict.line _ _ _ rfl⟩

end StudyPlan
