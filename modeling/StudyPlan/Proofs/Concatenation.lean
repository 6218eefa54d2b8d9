import StudyPlan.Failure
import StudyPlan.Proofs.Acceptance
import StudyPlan.Proofs.Consistency
import StudyPlan.Proofs.Joining
import StudyPlan.Proofs.Resemblance
import StudyPlan.Proofs.Window

/-!
# A plan below another plan

Two plans that are written one below the other make one plan, and it is what the two
curricula add up to: the semesters of the second one go on with those of the first, and
its courses replace those of the first that have the same codes.

Every stage of the reading has its part in this.  The lexer reads the second source as it
would be read alone, only further down (`Proofs.Joining`).  The grammar reads the first
one as before, since its entries depend on nothing behind them (`Proofs.Window`), with the
exception that a bracket may not follow a title; and it reads the second one as before,
since it does not look at lines (`Proofs.Resemblance`).  Finally the steps of the two
histories follow one another, and what they lead to is read off the lists of
`Proofs.History`, each of which is the one list followed by the other.
-/

namespace StudyPlan

open Curriculum (History Step ofEntries ofHistory)

/-- The block that many lines further down. -/
def Block.below (lines : Nat) (b : Block) : Block :=
  { b with line := b.line + lines }

/-! ## The histories of entries that resemble each other -/

/-- Two steps that differ in the line of a block. -/
inductive Curriculum.Step.Resembles (R : Token → Token → Prop) : Step → Step → Prop
  | withTitle (title : String) : Resembles R (.withTitle title) (.withTitle title)
  | openBlock {b b' : Block} :
      b.number = b'.number → LineOf R b.line b'.line →
        Resembles R (.openBlock b) (.openBlock b')
  | addCourse (course : Course) : Resembles R (.addCourse course) (.addCourse course)

section Resembling

variable {R : Token → Token → Prop}

theorem Semester.Resembles.steps {s s' : Semester} (h : s.Resembles R s') :
    List.Forall₂ (Step.Resembles R) s.steps s'.steps := by
  rw [Semester.steps, Semester.steps, ← h.courses]
  refine .cons (.openBlock h.number h.line) (List.forall₂_same.2 fun step hstep => ?_)
  obtain ⟨course, -, rfl⟩ := List.mem_map.1 hstep
  exact .addCourse course

theorem Entry.Resembles.steps {e e' : Entry} (h : e.Resembles R e') :
    List.Forall₂ (Step.Resembles R) e.steps e'.steps := by
  cases h with
  | semester hs => exact hs.steps
  | program hp =>
    rw [Entry.steps, Entry.steps, hp.title]
    exact .cons (.withTitle _) (forall₂_flatMap hp.semesters fun _ _ hs => hs.steps)

variable {h h' : History} (hsteps : List.Forall₂ (Step.Resembles R) h h')

include hsteps

/-- What does not depend on the line of a block is the same in both histories. -/
theorem filterMap_eq_of_resembles {β : Type} {f : Step → Option β}
    (hf : ∀ s s', s.Resembles R s' → f s = f s') : h.filterMap f = h'.filterMap f := by
  induction hsteps with
  | nil => rfl
  | cons hs _ ih => rw [List.filterMap_cons, List.filterMap_cons, hf _ _ hs, ih]

theorem titles_eq_of_resembles : h.titles = h'.titles :=
  filterMap_eq_of_resembles hsteps fun _ _ hs => by cases hs <;> rfl

theorem courses_eq_of_resembles : h.courses = h'.courses :=
  filterMap_eq_of_resembles hsteps fun _ _ hs => by cases hs <;> rfl

theorem numbers_eq_of_resembles : h.numbers = h'.numbers := by
  refine filterMap_eq_of_resembles hsteps fun _ _ hs => ?_
  cases hs with
  | openBlock hnumber => exact congrArg some hnumber
  | withTitle | addCourse => rfl

theorem blocks_eq_of_resembles {lines : Nat}
    (hline : ∀ line line', LineOf R line line' → line' = line + lines) :
    h'.blocks = h.blocks.map (Block.below lines) := by
  induction hsteps with
  | nil => rfl
  | cons hs _ ih =>
    cases hs with
    | @openBlock b b' hnumber hl =>
      have hb : b' = b.below lines := by
        obtain ⟨number, line⟩ := b
        obtain ⟨number', line'⟩ := b'
        obtain rfl : number = number' := hnumber
        rw [Block.below, ← hline _ _ hl]
      rw [hb]
      exact congrArg (b.below lines :: ·) ih
    | withTitle | addCourse => exact ih

end Resembling

/-! ## One history behind another -/

namespace Curriculum

/-- The curriculum `p` is `a` followed by `b`, and `b` stood that many lines further
down. -/
structure Joined (lines : Nat) (a b p : Curriculum) : Prop where
  blocks : p.blocks = a.blocks ++ b.blocks.map (Block.below lines)
  /-- The new numbers come behind the old ones. -/
  semesterNumbers : p.semesterNumbers =
    a.semesterNumbers ++ b.semesterNumbers.filter (· ∉ a.semesterNumbers)
  /-- A semester of both goes on. -/
  semester : ∀ n, (p.semester? n).getD [] = (a.semester? n).getD [] ++ (b.semester? n).getD []
  semester_eq_none : ∀ n, p.semester? n = none ↔ a.semester? n = none ∧ b.semester? n = none
  /-- A code of both stands for the newer course. -/
  course : ∀ code, p.course? code = (b.course? code).or (a.course? code)
  /-- The new codes come behind the old ones. -/
  codes : p.coursesByCode.map Prod.fst = a.coursesByCode.map Prod.fst ++
    (b.coursesByCode.map Prod.fst).filter (· ∉ a.coursesByCode.map Prod.fst)

/-- The curriculum of a history that goes on with the blocks, numbers and courses of
another one. -/
theorem joined_ofHistory {lines : Nat} (h : History) {h' later : History}
    (hblocks : later.blocks = h'.blocks.map (Block.below lines))
    (hnumbers : h'.numbers = later.numbers) (hcourses : h'.courses = later.courses) :
    Joined lines (ofHistory h) (ofHistory h') (ofHistory (h ++ later)) where
  blocks := by
    rw [blocks_ofHistory, blocks_ofHistory, blocks_ofHistory, History.blocks_append, hblocks]
  semesterNumbers := by
    simp only [semesterNumbers, keys_semesters_ofHistory, History.numbers_append, ← hnumbers,
      eraseDups_append_eq_filter, List.mem_eraseDups]
  semester n := by
    rw [getD_semester?_ofHistory, getD_semester?_ofHistory, getD_semester?_ofHistory,
      History.courses_append, List.filter_append, hcourses]
  semester_eq_none n := by
    simp only [semester?_ofHistory_eq_none_iff, History.numbers_append, ← hnumbers,
      List.mem_append, not_or]
  course code := by
    rw [course?_ofHistory, course?_ofHistory, course?_ofHistory, History.courses_append,
      List.filter_append, List.getLast?_append, hcourses]
  codes := by
    have hcodes : h'.codes = later.codes := by
      rw [History.codes, History.codes, hcourses]
    simp only [map_fst_coursesByCode_ofHistory, History.codes_append, ← hcodes,
      eraseDups_append_eq_filter, List.mem_eraseDups]

/-- The last title counts, wherever it was given. -/
theorem title_ofHistory_append (h h' : History) :
    (ofHistory (h ++ h')).title =
      if h'.titles = [] then (ofHistory h).title else (ofHistory h').title := by
  rw [title_ofHistory, title_ofHistory, title_ofHistory, History.titles_append,
    List.getLast?_append]
  split
  · next hnone => simp [hnone]
  · next hsome =>
    obtain ⟨title, htitle⟩ := Option.ne_none_iff_exists'.1 (List.getLast?_eq_none_iff.not.2 hsome)
    simp [htitle]

/-- Titles are given by programs and by nothing else. -/
theorem titles_flatMap_steps_eq_nil_iff {es : List Entry} :
    History.titles (es.flatMap Entry.steps) = [] ↔ ∀ q, Entry.program q ∉ es := by
  have hsemester : ∀ s : Semester, s.steps.titles = [] := by
    intro s
    simp [Semester.steps, History.titles, Step.title?]
  have hentry : ∀ e : Entry, e.steps.titles = [] ↔ ∀ q, Entry.program q ≠ e := by
    rintro (q | s)
    · simp [Entry.steps, History.titles, Step.title?]
    · simp [Entry.steps, hsemester]
  induction es with
  | nil => simp [History.titles]
  | cons e es ih =>
    rw [List.flatMap_cons, History.titles_append, List.append_eq_nil_iff]
    refine (and_congr (hentry e) ih).trans ?_
    simp only [List.mem_cons, not_or, forall_and, ne_eq]

end Curriculum

/-! ## Reading two plans -/

/-- A program is among the entries of the source. -/
def HasProgram (source : String) : Prop :=
  ∃ es q, Derivation.EntriesOf (upToFinish (lex source).tokens) es [] ∧ Entry.program q ∈ es

/-- The mark of the end comes last in a source, and nowhere else. -/
theorem upToFinish_tokens_lex (source : String) :
    upToFinish (lex source).tokens = (lex source).tokens.dropLast := by
  obtain ⟨tokens, htokens, hfinish, -⟩ :=
    (Cut.explains_ofSegments source).tokens
  rw [htokens, List.dropLast_concat, upToFinish, List.takeWhile_append_of_pos]
  · simp [Token.finish, Token.startingAt, Token.isFinish]
  · intro t ht
    simp [hfinish t ht]

/-- Without the mark of the end, too, nested tokens are nested. -/
theorem Nested.of_append_finish {opened : List Delimiter} {ts : List Token} {t : Token}
    (ht : t.kind = .finish) (h : Nested opened (ts ++ [t])) : Nested opened ts := by
  induction ts generalizing opened with
  | nil =>
    cases h with
    | finish => exact .nil
    | plain hp => simp [ht, Kind.isPlain] at hp
    | opening _ hk | closing _ hk => simp [ht] at hk
  | cons u ts ih =>
    cases h with
    | finish hk h => exact .finish hk (ih h)
    | plain hp h => exact .plain hp (ih h)
    | opening ho hk h => exact .opening ho hk (ih h)
    | closing hp hk h => exact .closing hp hk (ih h)

theorem nested_dropLast_of_isClean {source : String} (h : (lex source).isClean = true) :
    Nested [] (lex source).tokens.dropLast := by
  obtain ⟨tokens, htokens, -⟩ := (Cut.explains_ofSegments source).tokens
  have hnested := nested_of_isClean h
  rw [htokens] at hnested ⊢
  rw [List.dropLast_concat]
  exact hnested.of_append_finish rfl

/-- A source is read when it has no faults and its tokens are entries. -/
theorem ofSource_eq_ok_iff {source : String} {c : Curriculum} :
    Curriculum.ofSource source = .ok c ↔ (lex source).isClean = true ∧
      (Curriculum.ofTokens (lex source).tokens).result = .ok c := by
  rw [Curriculum.ofSource]
  split
  · next hclean =>
    rcases (Curriculum.ofTokens (lex source).tokens).result with e | c'
    · simp [hclean]
    · simp [hclean]
  · next hclean => simp [hclean]

theorem entriesOf_upToFinish {ts rest : List Token} {es : List Entry}
    (h : (Parser.entries ts).result = .ok (es, rest)) :
    Derivation.EntriesOf (upToFinish ts) es [] := by
  have hblind := congrArg Logged.result (Parser.blind_entries ts)
  rw [Logged.result_map, h] at hblind
  exact (result_entries_upToFinish_eq_ok_iff.1 hblind).1

/-- In front of anything but a bracket, the entries of a clean source are what they are
alone. -/
theorem entriesOf_append {source : String} {es : List Entry}
    (hclean : (lex source).isClean = true)
    (h : Derivation.EntriesOf (upToFinish (lex source).tokens) es []) {later : List Token}
    (hlater : Derivation.Bare later) :
    Derivation.EntriesOf ((lex source).tokens.dropLast ++ later) es later := by
  have hwithin : Within [] (lex source).tokens.dropLast := ⟨[], nested_dropLast_of_isClean hclean⟩
  rw [upToFinish_tokens_lex] at h
  obtain ⟨window, hwindow, hentries⟩ := Derivation.windowed_entriesOf hwithin h
  rw [List.append_nil] at hwindow
  rw [hwindow]
  exact hentries later fun _ => hlater

/-- Tokens further down stand for the tokens. -/
theorem interchangeable_below (lines : Nat) :
    Interchangeable fun t t' => t' = t.below lines where
  kind := by
    rintro t _ rfl
    rfl
  text := by
    rintro t _ rfl -
    rfl
  word := by
    rintro t _ rfl
    exact sameWord_iff.2 rfl

/-- The entries of tokens further down. -/
theorem result_entries_below {ts rest : List Token} {es : List Entry} (lines : Nat)
    (h : (Parser.entries ts).result = .ok (es, rest)) :
    ∃ es' rest', (Parser.entries (ts.map (Token.below lines))).result = .ok (es', rest') ∧
      List.Forall₂ (Entry.Resembles fun t t' => t' = t.below lines) es es' := by
  have hts : List.Forall₂ (fun t t' => t' = t.below lines) ts (ts.map (Token.below lines)) :=
    List.forall₂_map_right_iff.2 (List.forall₂_same.2 fun _ _ => rfl)
  have hparallel := Parser.respects_entries (interchangeable_below lines) _ _ hts
  rw [h] at hparallel
  generalize hr : (Parser.entries (ts.map (Token.below lines))).result = r at hparallel ⊢
  cases hparallel with
  | read hes _ => exact ⟨_, _, rfl, hes⟩

theorem lineOf_below {lines : Nat} (line line' : Nat)
    (h : LineOf (fun t t' => t' = t.below lines) line line') : line' = line + lines := by
  obtain ⟨t, _, rfl, rfl, rfl⟩ := h
  rfl

theorem bare_map_below {ts : List Token} (h : Derivation.Bare ts) (lines : Nat) :
    Derivation.Bare (ts.map (Token.below lines)) := by
  rcases ts with _ | ⟨t, ts⟩
  · exact h
  · rintro _ ⟨⟩
    exact h t rfl

/-- **The entries of two sources, one below the other,** are those of the one and then
those of the other, further down. -/
theorem result_ofTokens_append_newline {upper lower : String} {es fs : List Entry}
    {rest rest' : List Token}
    (hupper : (lex upper).isClean = true) (hlower : Derivation.Bare (lex lower).tokens)
    (hes : (Parser.entries (lex upper).tokens).result = .ok (es, rest))
    (hfs : (Parser.entries (lex lower).tokens).result = .ok (fs, rest')) :
    ∃ fs', List.Forall₂ (Entry.Resembles fun t t' => t' = t.below (lineCount upper)) fs fs' ∧
      (Curriculum.ofTokens (lex (upper ++ "\n" ++ lower)).tokens).result =
        .ok (ofEntries (es ++ fs')) := by
  obtain ⟨fs', rest₁, hfs', hresemble⟩ := result_entries_below (lineCount upper) hfs
  have hrun := entriesOf_append hupper (entriesOf_upToFinish hes)
    (bare_map_below hlower (lineCount upper))
  refine ⟨fs', hresemble, result_ofTokens_eq_ok_iff.2 ⟨es ++ fs', rest₁, ?_, rfl⟩⟩
  rw [tokens_lex_append_newline (terminated_of_isClean hupper).1, Parser.entries,
    Parser.result_body_of_run Parser.fits_plan hrun]
  rw [Parser.entries] at hfs'
  rw [hfs']
  rfl

/-- Two clean sources, one below the other, are a clean source. -/
theorem isClean_append_newline {upper lower : String} (hupper : (lex upper).isClean = true)
    (hlower : (lex lower).isClean = true) : (lex (upper ++ "\n" ++ lower)).isClean = true := by
  obtain ⟨hterminated, hclosed⟩ := terminated_of_isClean hupper
  rw [Lexing.isClean, List.isEmpty_iff] at hupper hlower ⊢
  rw [faults_lex_append_newline hterminated hclosed, hupper, hlower]
  rfl

/-- **A plan below another plan is both plans in one.**  The second source has to be read
on its own, so it may not begin with the bracket of a program whose title ends the first
one. -/
theorem ofSource_append_newline {upper lower : String} {a b : Curriculum}
    (ha : Curriculum.ofSource upper = .ok a) (hb : Curriculum.ofSource lower = .ok b)
    (hfirst : ∀ t ∈ (lex lower).tokens.head?, t.kind ≠ .delimiter .openBracket) :
    ∃ p, Curriculum.ofSource (upper ++ "\n" ++ lower) = .ok p ∧
      (HasProgram lower → p.title = b.title) ∧ (¬ HasProgram lower → p.title = a.title) ∧
      Curriculum.Joined (lineCount upper) a b p := by
  obtain ⟨hupper, ha⟩ := ofSource_eq_ok_iff.1 ha
  obtain ⟨hlower, hb⟩ := ofSource_eq_ok_iff.1 hb
  obtain ⟨es, _, hes, rfl⟩ := result_ofTokens_eq_ok_iff.1 ha
  obtain ⟨fs, _, hfs, rfl⟩ := result_ofTokens_eq_ok_iff.1 hb
  obtain ⟨fs', hresemble, hresult⟩ := result_ofTokens_append_newline hupper hfirst hes hfs
  have hsteps := forall₂_flatMap hresemble fun _ _ h => h.steps
  -- a source has one list of entries, so the program is looked for in `fs`
  have hprogram : HasProgram lower ↔ ∃ q, Entry.program q ∈ fs := by
    have hderived := entriesOf_upToFinish hfs
    constructor
    · rintro ⟨es', q, hes', hq⟩
      rw [entriesOf_upToFinish_unique hderived hes']
      exact ⟨q, hq⟩
    · rintro ⟨q, hq⟩
      exact ⟨fs, q, hderived, hq⟩
  refine ⟨_, ofSource_eq_ok_iff.2 ⟨isClean_append_newline hupper hlower, hresult⟩, ?_⟩
  have htitles := titles_eq_of_resembles hsteps
  have htitle : (ofHistory (fs'.flatMap Entry.steps)).title =
      (ofHistory (fs.flatMap Entry.steps)).title := by
    rw [Curriculum.title_ofHistory, Curriculum.title_ofHistory, htitles]
  simp only [Curriculum.ofEntries_eq_ofHistory, List.flatMap_append,
    Curriculum.title_ofHistory_append, ← htitles, htitle]
  refine ⟨fun h => if_neg ?_, fun h => if_pos ?_, ?_⟩
  · obtain ⟨q, hq⟩ := hprogram.1 h
    exact fun hnone => Curriculum.titles_flatMap_steps_eq_nil_iff.1 hnone q hq
  · exact Curriculum.titles_flatMap_steps_eq_nil_iff.2 fun q hq => h (hprogram.2 ⟨q, hq⟩)
  · exact Curriculum.joined_ofHistory _ (blocks_eq_of_resembles hsteps lineOf_below)
      (numbers_eq_of_resembles hsteps) (courses_eq_of_resembles hsteps)

/-- A plan whose last line ends with a title. -/
def upperPlan : String :=
  "Semestre: 2 \x7bCurso: 7 \x7bNombre: 'old';\x7d\x7d\nCarrera: 'upper'"

/-- A plan that goes on with a semester of the upper one and takes up its code. -/
def lowerPlan : String :=
  "Semestre: 2 \x7bCurso: 7 \x7bNombre: 'new';\x7d\x7d\nSemestre: 1 \x7b\x7d"

theorem ofSource_append_newline_lowerPlan :
    ∃ a b p, Curriculum.ofSource upperPlan = .ok a ∧ Curriculum.ofSource lowerPlan = .ok b ∧
      (∀ t ∈ (lex lowerPlan).tokens.head?, t.kind ≠ .delimiter .openBracket) ∧
      Curriculum.ofSource (upperPlan ++ "\n" ++ lowerPlan) = .ok p ∧
      Curriculum.Joined (lineCount upperPlan) a b p := by
  have hupper : (Curriculum.ofSource upperPlan).isOk = true := by decide +kernel
  have hlower : (Curriculum.ofSource lowerPlan).isOk = true := by decide +kernel
  have hfirst : ∀ t ∈ (lex lowerPlan).tokens.head?, t.kind ≠ .delimiter .openBracket := by
    decide +kernel
  cases ha : Curriculum.ofSource upperPlan with
  | error f => simp [ha, Except.isOk, Except.toBool] at hupper
  | ok a =>
  cases hb : Curriculum.ofSource lowerPlan with
  | error f => simp [hb, Except.isOk, Except.toBool] at hlower
  | ok b =>
  obtain ⟨p, hp, -, -, hjoined⟩ := ofSource_append_newline ha hb hfirst
  exact ⟨a, b, p, rfl, rfl, hfirst, hp, hjoined⟩

end StudyPlan
