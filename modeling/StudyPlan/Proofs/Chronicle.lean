import StudyPlan.Proofs.Acceptance

/-!
# Derivations with their log

The log of a plan that is read is determined by the derivation of the plan: each construct
writes its events at fixed places, and each body writes one event for every token that it
passes over.  The relations below are those of the grammar with the events as one more
argument, so `CourseOf n ts w log rest` says that `ts` begins with a course of semester `n`,
that it is written as `w`, that reading it writes `log`, and that `rest` is left.

## What is written

A curriculum no longer knows which fields a course had: fields overrule each other, and one
that only repeats the code leaves no trace.  The warnings of the log are about just these
fields, so the values here keep them.  A `WrittenCourse` has all its fields in the order in
which they were written; the course that it describes is `WrittenCourse.course`.

## Reading

`Parser.Reads` says that a parser reads a value and writes a log on the way to it.  Most
parsers write nothing (`Parser.Silent`), and of these it is known already what they read.  So
what is shown here for each construct is only where its events go, and for all five bodies at
once that a body writes what its run does (`Parser.Fits.run`).
-/

namespace StudyPlan

/-! ## Plans as they are written -/

/-- A course with the fields of its body as they are written. -/
structure WrittenCourse where
  code : String
  semester : UInt32
  details : List Detail
  deriving DecidableEq, Repr

namespace WrittenCourse

/-- The course that is described. -/
def course (w : WrittenCourse) : Course :=
  .ofDetails w.code w.semester w.details

/-- The fields that repeat the code, each with the code that it gives and its line. -/
def codeFields (w : WrittenCourse) : List (String × Nat) :=
  w.details.filterMap fun
    | .code declared line => some (declared, line)
    | _ => none

/-- One warning for each field that gives another code than the one that heads the course. -/
def conflicts (w : WrittenCourse) : List Event :=
  (w.codeFields.filter fun field => field.1 ≠ w.code).map fun field =>
    .codeConflict field.1 w.code field.2

/-- These are the warnings that reading the course writes. -/
theorem filterMap_conflict? (w : WrittenCourse) :
    w.details.filterMap (Event.conflict? w.code) = w.conflicts := by
  unfold conflicts codeFields
  induction w.details with
  | nil => rfl
  | cons d details ih =>
    cases d with
    | code declared line =>
      by_cases h : declared = w.code
      · simpa [Event.conflict?, h] using ih
      · simpa [Event.conflict?, h] using ih
    | name | credits | description | mandatory | prerequisites | area => exact ih

end WrittenCourse

/-- A semester with its courses as they are written. -/
structure WrittenSemester where
  number : UInt32
  line : Nat
  courses : List WrittenCourse
  deriving DecidableEq, Repr

namespace WrittenSemester

/-- The semester that is described. -/
def semester (s : WrittenSemester) : Semester :=
  ⟨s.number, s.line, s.courses.map WrittenCourse.course⟩

/-- The block that is remembered of the semester. -/
def block (s : WrittenSemester) : Block :=
  ⟨s.number, s.line⟩

end WrittenSemester

/-- An entry of a plan with its courses as they are written. -/
inductive WrittenEntry where
  | program (title : String) (semesters : List WrittenSemester)
  | semester (s : WrittenSemester)
  deriving DecidableEq, Repr

namespace WrittenEntry

/-- The entry that is described. -/
def entry : WrittenEntry → Entry
  | program title semesters => .program ⟨title, semesters.map WrittenSemester.semester⟩
  | semester s => .semester s.semester

/-- The semesters of an entry. -/
def semesters : WrittenEntry → List WrittenSemester
  | program _ semesters => semesters
  | semester s => [s]

end WrittenEntry

@[simp] theorem Course.code_ofDetails (code : String) (n : UInt32) (details : List Detail) :
    (ofDetails code n details).code = code := by
  suffices h : ∀ c : Course, (details.foldl record c).code = c.code from h _
  induction details with
  | nil => exact fun _ => rfl
  | cons d details ih => exact fun c => (ih _).trans (record_code c d)

/-! ## The grammar with its events -/

namespace Chronicle

open StudyPlan.Derivation (Writes Heads ValueOf)

/-- A run inside the named construct: an event for each token that is passed over, and
between these the events of the parts. -/
inductive Run {α : Type} (construct : String)
    (Part : List Token → α → List Event → List Token → Prop) (Passed : Token → Prop) :
    List Token → List α → List Event → List Token → Prop
  | stop (ts : List Token) : Run construct Part Passed ts [] [] ts
  | pass {t : Token} {ts : List Token} {as : List α} {log : List Event} {rest : List Token} :
      t.isFinish = false → Passed t → Run construct Part Passed ts as log rest →
        Run construct Part Passed (t :: ts) as (.skipped construct t :: log) rest
  | part {ts mid : List Token} {a : α} {as : List α} {log log' : List Event}
      {rest : List Token} :
      Part ts a log mid → Run construct Part Passed mid as log' rest →
        Run construct Part Passed ts (a :: as) (log ++ log') rest

/-- A course code in a list of prerequisites. -/
inductive CodeOf : List Token → String → List Event → List Token → Prop
  | intro {t : Token} {rest : List Token} : t.kind = .number → CodeOf (t :: rest) t.text [] rest

/-- The codes of a list of prerequisites, up to the parenthesis that ends it. -/
abbrev CodesOf : List Token → List String → List Event → List Token → Prop :=
  Run "the prerequisites" CodeOf fun t => t.kind ≠ .number ∧ t.kind ≠ .delimiter .closeParen

/-- A field of a course. -/
inductive FieldOf : List Token → Detail → List Event → List Token → Prop
  | single {w colon v semicolon : Token} {f : Field} {d : Detail} {rest : List Token} :
      Heads w f → colon.kind = .delimiter .colon → ValueOf w.line f v d →
        semicolon.kind = .delimiter .semicolon →
        FieldOf (w :: colon :: v :: semicolon :: rest) d [] rest
  | prerequisites {w colon opening closing : Token} {ts : List Token} {codes : List String}
      {log : List Event} {rest : List Token} :
      Heads w .prerequisites → colon.kind = .delimiter .colon →
        opening.kind = .delimiter .openParen → CodesOf ts codes log (closing :: rest) →
        closing.kind = .delimiter .closeParen →
        FieldOf (w :: colon :: opening :: ts) (.prerequisites codes) log rest

/-- The fields of the course with this code. -/
abbrev FieldsOf (code : String) : List Token → List Detail → List Event → List Token → Prop :=
  Run s!"course {code}" FieldOf fun t => Table.course t = .skip

/-- A course of the semester `n`.  Its warnings stand behind all events of its body. -/
inductive CourseOf (n : UInt32) : List Token → WrittenCourse → List Event → List Token → Prop
  | intro {w colon code opening closing : Token} {ts : List Token} {written : WrittenCourse}
      {log : List Event} {rest : List Token} :
      w.kind = .keyword .curso → colon.kind = .delimiter .colon → code.kind = .number →
        opening.kind = .delimiter .openBrace → written.code = code.text →
        written.semester = n → FieldsOf code.text ts written.details log (closing :: rest) →
        closing.kind = .delimiter .closeBrace →
        CourseOf n (w :: colon :: code :: opening :: ts) written
          (.courseBegun written.code n :: (log ++ (written.conflicts ++
            [.courseDone written.code written.course.name]))) rest

/-- The courses of the semester `n`. -/
abbrev CoursesOf (n : UInt32) :
    List Token → List WrittenCourse → List Event → List Token → Prop :=
  Run s!"semester {n.toNat}" (CourseOf n)
    fun t => t.kind ≠ .keyword .curso ∧ t.kind ≠ .delimiter .closeBrace

/-- A semester. -/
inductive SemesterOf : List Token → WrittenSemester → List Event → List Token → Prop
  | intro {w colon number opening closing : Token} {n : UInt32} {ts : List Token}
      {courses : List WrittenCourse} {log : List Event} {rest : List Token} :
      w.kind = .keyword .semestre → colon.kind = .delimiter .colon → Writes number n →
        opening.kind = .delimiter .openBrace → CoursesOf n ts courses log (closing :: rest) →
        closing.kind = .delimiter .closeBrace →
        SemesterOf (w :: colon :: number :: opening :: ts) ⟨n, w.line, courses⟩
          (.semesterBegun n w.line :: (log ++ [.semesterDone n courses.length])) rest

/-- The semesters of a program. -/
abbrev SemestersOf : List Token → List WrittenSemester → List Event → List Token → Prop :=
  Run "the program" SemesterOf
    fun t => t.kind ≠ .keyword .semestre ∧ t.kind ≠ .delimiter .closeBracket

/-- An entry of the top level.  A program has the same three forms as in the grammar. -/
inductive EntryOf : List Token → WrittenEntry → List Event → List Token → Prop
  | bare {w colon title : Token} {rest : List Token} :
      w.kind = .keyword .carrera → colon.kind = .delimiter .colon → title.kind = .quoted →
        (∀ t ∈ rest.head?, t.kind ≠ .delimiter .openBracket) →
        EntryOf (w :: colon :: title :: rest) (.program title.text [])
          [.programBegun title.text] rest
  | closed {w colon title opening closing : Token} {ts : List Token}
      {semesters : List WrittenSemester} {log : List Event} {rest : List Token} :
      w.kind = .keyword .carrera → colon.kind = .delimiter .colon → title.kind = .quoted →
        opening.kind = .delimiter .openBracket →
        SemestersOf ts semesters log (closing :: rest) →
        closing.kind = .delimiter .closeBracket →
        EntryOf (w :: colon :: title :: opening :: ts) (.program title.text semesters)
          (.programBegun title.text :: log) rest
  | cut {w colon title opening : Token} {ts : List Token}
      {semesters : List WrittenSemester} {log : List Event} {rest : List Token} :
      w.kind = .keyword .carrera → colon.kind = .delimiter .colon → title.kind = .quoted →
        opening.kind = .delimiter .openBracket → SemestersOf ts semesters log rest →
        Parser.next? rest = none →
        EntryOf (w :: colon :: title :: opening :: ts) (.program title.text semesters)
          (.programBegun title.text :: log) rest
  | semester {ts rest : List Token} {s : WrittenSemester} {log : List Event} :
      SemesterOf ts s log rest → EntryOf ts (.semester s) log rest

/-- The entries of a plan. -/
abbrev EntriesOf : List Token → List WrittenEntry → List Event → List Token → Prop :=
  Run "the pensum" EntryOf fun t => t.kind ≠ .keyword .carrera ∧ t.kind ≠ .keyword .semestre

end Chronicle

/-! ## What parsers write -/

namespace Parser

open StudyPlan.Derivation (Heads isFinish_eq_false)

variable {α β σ ω : Type}

/-- The parser reads `a`, leaves `rest`, and writes `log`. -/
def Reads (p : Parser α) (ts : List Token) (a : α) (log : List Event) (rest : List Token) :
    Prop :=
  p ts = ⟨log, .ok (a, rest)⟩

theorem Reads.result {p : Parser α} {ts rest : List Token} {a : α} {log : List Event}
    (h : p.Reads ts a log rest) : (p ts).result = .ok (a, rest) := by
  rw [h]

/-- The parser writes nothing. -/
def Silent (p : Parser α) : Prop :=
  ∀ ts, (p ts).log = []

theorem Silent.bind {p : Parser α} {f : α → Parser β} (hp : Silent p)
    (hf : ∀ a, Silent (f a)) : Silent (p >>= f) := by
  intro ts
  have hlog := hp ts
  rw [bind_apply]
  rcases hr : p ts with ⟨log, e | ⟨a, rest⟩⟩
  · rwa [hr] at hlog
  · rw [hr] at hlog
    exact List.append_eq_nil_iff.2 ⟨hlog, hf a rest⟩

theorem silent_pure (a : α) : Silent (pure a : Parser α) := fun _ => rfl

theorem silent_fail (e : SyntaxError) : Silent (fail e : Parser α) := fun _ => rfl

theorem silent_lead : Silent lead := by
  rintro (_ | ⟨t, ts⟩) <;> rfl

theorem silent_token (kind : Kind) (wanted : Expectation) : Silent (token kind wanted) := by
  rintro (_ | ⟨t, ts⟩)
  · rfl
  · rw [token]
    split
    · rfl
    · split <;> rfl

theorem silent_delimiter (d : Delimiter) (wanted : Expectation) : Silent (delimiter d wanted) :=
  silent_token _ _

theorem silent_quoted (wanted : Expectation) : Silent (quoted wanted) :=
  (silent_token _ _).bind fun _ => silent_pure _

theorem silent_numeral (wanted : Expectation) : Silent (numeral wanted) :=
  (silent_token _ _).bind fun _ => silent_pure _

theorem silent_boolean (wanted : Expectation) : Silent (boolean wanted) :=
  (silent_token _ _).bind fun _ => silent_pure _

theorem silent_number (wanted : Expectation) : Silent (number wanted) := by
  refine (silent_token _ _).bind fun t => ?_
  split
  · exact silent_pure _
  · exact silent_fail _

/-- Only a list of prerequisites passes over tokens inside a field. -/
theorem silent_fieldValue {f : Field} (hf : f ≠ .prerequisites) (line : Nat) :
    Silent (fieldValue f line) := by
  have hend : ∀ (f : Field) (d : Detail), Silent (fieldEnd f >>= fun _ => pure d) :=
    fun f d => (silent_delimiter _ _).bind fun _ => silent_pure d
  cases f with
  | prerequisites => exact absurd rfl hf
  | name | code | description | area => exact (silent_quoted _).bind fun _ => hend _ _
  | credits => exact (silent_number _).bind fun _ => hend _ _
  | mandatory => exact (silent_boolean _).bind fun _ => hend _ _

/-! ### Sequences -/

section Sequences

variable {p : Parser α} {f : α → Parser β} {ts rest : List Token} {b : β} {log : List Event}

/-- The log of a sequence is the log of its first part and then that of the second. -/
theorem reads_bind_iff : (p >>= f).Reads ts b log rest ↔
    ∃ a mid before after, p.Reads ts a before mid ∧ (f a).Reads mid b after rest ∧
      log = before ++ after := by
  unfold Reads
  rw [bind_apply]
  constructor
  · intro h
    rcases hp : p ts with ⟨before, e | ⟨a, mid⟩⟩
    · simp [hp] at h
    · rcases hf : f a mid with ⟨after, result⟩
      simp only [hp, hf, Logged.after, Logged.mk.injEq] at h
      obtain ⟨rfl, rfl⟩ := h
      exact ⟨a, mid, before, after, rfl, hf, rfl⟩
  · rintro ⟨a, mid, before, after, hp, hf, rfl⟩
    simp only [hp, hf, Logged.after]

theorem Silent.reads_iff {a : α} (hp : Silent p) :
    p.Reads ts a log rest ↔ log = [] ∧ (p ts).result = .ok (a, rest) := by
  have hlog := hp ts
  unfold Reads
  rcases hr : p ts with ⟨log', result⟩
  obtain rfl : log' = [] := by rwa [hr] at hlog
  simp [eq_comm]

/-- Behind a part that writes nothing all is written by the other part. -/
theorem Silent.reads_bind_iff (hp : Silent p) : (p >>= f).Reads ts b log rest ↔
    ∃ a mid, (p ts).result = .ok (a, mid) ∧ (f a).Reads mid b log rest := by
  simp only [Parser.reads_bind_iff, hp.reads_iff]
  constructor
  · rintro ⟨a, mid, _, _, ⟨rfl, ha⟩, hf, rfl⟩
    exact ⟨a, mid, ha, hf⟩
  · rintro ⟨a, mid, ha, hf⟩
    exact ⟨a, mid, [], log, ⟨rfl, ha⟩, hf, rfl⟩

theorem reads_pure_iff {a b : α} :
    (pure a : Parser α).Reads ts b log rest ↔ log = [] ∧ a = b ∧ ts = rest := by
  rw [(silent_pure a).reads_iff, result_pure_eq_ok_iff]

theorem reads_map_iff {f : α → β} :
    (p.map f).Reads ts b log rest ↔ ∃ a, p.Reads ts a log rest ∧ f a = b := by
  unfold Reads Parser.map
  rcases p ts with ⟨before, e | ⟨a, mid⟩⟩
  · simp [Logged.map, Except.map]
  · simp only [Logged.map, Except.map, Logged.mk.injEq, Except.ok.injEq, Prod.mk.injEq]
    constructor
    · rintro ⟨rfl, rfl, rfl⟩
      exact ⟨a, ⟨rfl, rfl, rfl⟩, rfl⟩
    · rintro ⟨_, ⟨rfl, rfl, rfl⟩, rfl⟩
      exact ⟨rfl, rfl, rfl⟩

/-- Events that are written first stand first in the log. -/
theorem eq_of_after_eq {es : List Event} {b : β} {q : Parser β}
    (h : (q ts).after es = ⟨log, .ok (b, rest)⟩) :
    ∃ after, q.Reads ts b after rest ∧ log = es ++ after := by
  rcases hq : q ts with ⟨after, result⟩
  rw [hq] at h
  cases h
  exact ⟨after, hq, rfl⟩

theorem reads_emitAll_bind_iff {es : List Event} {f : Unit → Parser β} :
    (emitAll es >>= f).Reads ts b log rest ↔
      ∃ after, (f ()).Reads ts b after rest ∧ log = es ++ after := by
  rw [reads_bind_iff]
  constructor
  · rintro ⟨_, _, _, after, hes, hf, rfl⟩
    cases hes
    exact ⟨after, hf, rfl⟩
  · rintro ⟨after, hf, rfl⟩
    exact ⟨(), ts, es, after, rfl, hf, rfl⟩

theorem reads_emit_bind_iff {e : Event} {f : Unit → Parser β} :
    (emit e >>= f).Reads ts b log rest ↔
      ∃ after, (f ()).Reads ts b after rest ∧ log = e :: after :=
  reads_emitAll_bind_iff

end Sequences

/-! ### Bodies -/

/-- **A body writes what its run does.** -/
theorem Fits.run {name : String} {table : Token → Action σ} {ending : Ending}
    {enter : σ → Parser α} {Part : List Token → α → List Token → Prop} {Passed : Token → Prop}
    (hfit : Fits table enter Part Passed) (value : ω → α)
    {Told : List Token → ω → List Event → List Token → Prop}
    (hpart : ∀ {what t ts a log rest}, table t = .enter what →
      (enter what).Reads (t :: ts) a log rest → ∃ w, value w = a ∧ Told (t :: ts) w log rest)
    {ts rest : List Token} {as : List α} {log : List Event}
    (h : (body name table ending enter).Reads ts as log rest) :
    ∃ ws, ws.map value = as ∧
      Ends table ending (Chronicle.Run name Told Passed ts ws log) rest := by
  -- where the tokens end, the body has written nothing
  have hend : ∀ {ts rest : List Token} {as : List α} {log : List Event}, next? ts = none →
      (bodyEnd name ending).Reads ts as log rest → ∃ ws, ws.map value = as ∧
        Ends table ending (Chronicle.Run name Told Passed ts ws log) rest := by
    intro ts rest as log hn h
    obtain ⟨rfl, rfl, rfl⟩ := result_bodyEnd_eq_ok_iff.1 h.result
    cases h
    exact ⟨[], rfl, .inr ⟨rfl, hn, .stop _⟩⟩
  induction ts using body_rounds hfit generalizing as log rest with
  | nil =>
    rw [Reads, body_nil] at h
    exact hend rfl h
  | finish t ts hf =>
    rw [Reads, body_finish hf] at h
    exact hend (if_pos hf) h
  | close t ts hf hclose =>
    rw [Reads, body_close hf hclose] at h
    cases h
    exact ⟨[], rfl, .inl ⟨t, hf, hclose, .stop _⟩⟩
  | skip t ts hf hskip ih =>
    rw [Reads, body_skip hf hskip] at h
    obtain ⟨log, hbody, rfl⟩ := eq_of_after_eq h
    obtain ⟨ws, rfl, hends⟩ := ih hbody
    exact ⟨ws, rfl, hends.imp fun _ hrun => .pass hf ((hfit.pass_iff hf).2 hskip) hrun⟩
  | part t ts what hf hwhat ih =>
    rw [Reads, body_enter hfit hf hwhat] at h
    obtain ⟨a, mid, before, after, ha, hmap, rfl⟩ := reads_bind_iff.1 h
    obtain ⟨as, hbody, rfl⟩ := reads_map_iff.1 hmap
    obtain ⟨ws, rfl, hends⟩ := ih _ _ ha.result hbody
    obtain ⟨w, rfl, hw⟩ := hpart hwhat ha
    exact ⟨w :: ws, rfl, hends.imp fun _ hrun => .part hw hrun⟩

/-! ### Constructs -/

theorem codesOf_of_reads {ts rest : List Token} {codes : List String} {log : List Event}
    (h : prerequisites.Reads ts codes log rest) :
    ∃ opening ts' closing, ts = opening :: ts' ∧ opening.kind = .delimiter .openParen ∧
      Chronicle.CodesOf ts' codes log (closing :: rest) ∧
      closing.kind = .delimiter .closeParen := by
  obtain ⟨opening, ts', hopening, hbody⟩ := (silent_delimiter _ _).reads_bind_iff.1 h
  obtain ⟨rfl, ho⟩ := result_delimiter_eq_ok_iff.1 hopening
  have hpart : ∀ {wanted : Expectation} {t : Token} {ts : List Token} {code : String}
      {log : List Event} {rest : List Token}, (numeral wanted).Reads (t :: ts) code log rest →
        ∃ w, id w = code ∧ Chronicle.CodeOf (t :: ts) w log rest := by
    intro wanted t ts code log rest h
    obtain ⟨rfl, hcode⟩ := (silent_numeral _).reads_iff.1 h
    obtain ⟨_, heq, hk, rfl⟩ := result_numeral_eq_ok_iff.1 hcode
    obtain ⟨rfl, rfl⟩ := List.cons.inj heq
    exact ⟨_, rfl, .intro hk⟩
  obtain ⟨codes, rfl, hends⟩ := (fits_prerequisites _).run id (fun _ => hpart) hbody
  obtain ⟨closing, hc, hrun⟩ := (ends_closedBy_iff Table.prerequisites_eq_close_iff).1 hends
  exact ⟨opening, ts', closing, rfl, ho, by rwa [List.map_id], hc⟩

theorem fieldOf_of_reads {w : Token} {f : Field} (hw : Heads w f) {ts rest : List Token}
    {d : Detail} {log : List Event} (h : (field f).Reads (w :: ts) d log rest) :
    Chronicle.FieldOf (w :: ts) d log rest := by
  simp only [field, silent_lead.reads_bind_iff, (silent_delimiter _ _).reads_bind_iff,
    result_lead_eq_ok_iff, result_delimiter_eq_ok_iff] at h
  obtain ⟨_, _, heq, colon, _, ⟨rfl, hcolon⟩, hvalue⟩ := h
  obtain ⟨rfl, rfl⟩ := List.cons.inj heq
  by_cases hf : f = .prerequisites
  · subst hf
    obtain ⟨codes, _, _, _, hcodes, hpure, rfl⟩ := reads_bind_iff.1 hvalue
    obtain ⟨rfl, rfl, rfl⟩ := reads_pure_iff.1 hpure
    obtain ⟨_, _, _, rfl, ho, hrun, hc⟩ := codesOf_of_reads hcodes
    rw [List.append_nil]
    exact .prerequisites hw hcolon ho hrun hc
  · obtain ⟨rfl, hresult⟩ := (silent_fieldValue hf _).reads_iff.1 hvalue
    obtain ⟨_, _, rfl, hv, hs⟩ := (result_fieldValue_eq_ok_iff hf).1 hresult
    exact .single hw hcolon hv hs

theorem courseOf_of_reads {w : Token} (hw : w.kind = .keyword .curso) {n : UInt32}
    {ts rest : List Token} {c : Course} {log : List Event}
    (h : (course n).Reads (w :: ts) c log rest) :
    ∃ written, WrittenCourse.course written = c ∧
      Chronicle.CourseOf n (w :: ts) written log rest := by
  simp only [course, silent_lead.reads_bind_iff, (silent_delimiter _ _).reads_bind_iff,
    (silent_numeral _).reads_bind_iff, result_lead_eq_ok_iff, result_delimiter_eq_ok_iff,
    result_numeral_eq_ok_iff, reads_emit_bind_iff, reads_bind_iff (p := body _ _ _ _),
    reads_emitAll_bind_iff, reads_pure_iff] at h
  obtain ⟨_, _, heq, colon, _, ⟨rfl, hcolon⟩, _, _, ⟨code, rfl, hcode, rfl⟩, opening, _,
    ⟨rfl, ho⟩, _, ⟨details, _, before, _, hbody, ⟨_, ⟨_, ⟨rfl, rfl, rfl⟩, rfl⟩, rfl⟩, rfl⟩,
    rfl⟩ := h
  obtain ⟨rfl, rfl⟩ := List.cons.inj heq
  obtain ⟨details, rfl, hends⟩ := fits_course.run id
    (fun hf hd => ⟨_, rfl, fieldOf_of_reads (Table.course_eq_enter_iff.1 hf) hd⟩) hbody
  obtain ⟨closing, hc, hrun⟩ := (ends_closedBy_iff Table.course_eq_close_iff).1 hends
  refine ⟨⟨code.text, n, details⟩, by rw [List.map_id]; rfl, ?_⟩
  rw [List.map_id, Course.code_ofDetails,
    WrittenCourse.filterMap_conflict? ⟨code.text, n, details⟩]
  exact .intro hw hcolon hcode ho rfl rfl hrun hc

theorem semesterOf_of_reads {w : Token} (hw : w.kind = .keyword .semestre)
    {ts rest : List Token} {s : Semester} {log : List Event}
    (h : semester.Reads (w :: ts) s log rest) :
    ∃ written, WrittenSemester.semester written = s ∧
      Chronicle.SemesterOf (w :: ts) written log rest := by
  simp only [semester, silent_lead.reads_bind_iff, (silent_delimiter _ _).reads_bind_iff,
    (silent_number _).reads_bind_iff, result_lead_eq_ok_iff, result_delimiter_eq_ok_iff,
    result_number_eq_ok_iff, reads_emit_bind_iff, reads_bind_iff (p := body _ _ _ _),
    reads_pure_iff] at h
  obtain ⟨_, _, heq, colon, _, ⟨rfl, hcolon⟩, n, _, ⟨number, rfl, hn⟩, opening, _,
    ⟨rfl, ho⟩, _, ⟨courses, _, before, _, hbody, ⟨_, ⟨rfl, rfl, rfl⟩, rfl⟩, rfl⟩, rfl⟩ := h
  obtain ⟨rfl, rfl⟩ := List.cons.inj heq
  obtain ⟨courses, rfl, hends⟩ := (fits_semester n).run WrittenCourse.course
    (fun hk hcourse => courseOf_of_reads (Table.semester_eq_enter_iff.1 hk) hcourse) hbody
  obtain ⟨closing, hc, hrun⟩ := (ends_closedBy_iff Table.semester_eq_close_iff).1 hends
  refine ⟨⟨n, w.line, courses⟩, rfl, ?_⟩
  rw [List.length_map]
  exact .intro hw hcolon hn ho hrun hc

/-- Behind the title of a program nothing is read, or a bracket and semesters. -/
theorem semestersOf_of_reads {ts rest : List Token} {ss : List Semester} {log : List Event}
    (h : programBody.Reads ts ss log rest) :
    ((∀ t ∈ ts.head?, t.kind ≠ .delimiter .openBracket) ∧ ss = [] ∧ log = [] ∧ rest = ts) ∨
      ∃ opening ts', ts = opening :: ts' ∧ opening.kind = .delimiter .openBracket ∧
        ∃ semesters, semesters.map WrittenSemester.semester = ss ∧
          Ends Table.program .anywhere (Chronicle.SemestersOf ts' semesters log) rest := by
  rcases ts with _ | ⟨t, ts⟩
  · cases h
    exact .inl ⟨nofun, rfl, rfl, rfl⟩
  · rw [Reads, programBody, Token.isDelimiter] at h
    by_cases hk : t.kind = .delimiter .openBracket
    · rw [if_pos (decide_eq_true hk)] at h
      exact .inr ⟨t, ts, rfl, hk, fits_program.run WrittenSemester.semester
        (fun hs hsemester => semesterOf_of_reads (Table.program_eq_enter_iff.1 hs) hsemester) h⟩
    · rw [if_neg (Bool.eq_false_iff.1 (decide_eq_false hk))] at h
      cases h
      refine .inl ⟨?_, rfl, rfl, rfl⟩
      rintro _ ⟨⟩
      exact hk

theorem entryOf_of_reads_program {w : Token} (hw : w.kind = .keyword .carrera)
    {ts rest : List Token} {p : Program} {log : List Event}
    (h : program.Reads (w :: ts) p log rest) :
    ∃ title semesters, WrittenEntry.entry (.program title semesters) = .program p ∧
      Chronicle.EntryOf (w :: ts) (.program title semesters) log rest := by
  simp only [program, silent_lead.reads_bind_iff, (silent_delimiter _ _).reads_bind_iff,
    (silent_quoted _).reads_bind_iff, result_lead_eq_ok_iff, result_delimiter_eq_ok_iff,
    result_quoted_eq_ok_iff, reads_emit_bind_iff, reads_bind_iff (p := programBody),
    reads_pure_iff] at h
  obtain ⟨_, _, heq, colon, _, ⟨rfl, hcolon⟩, _, _, ⟨title, rfl, ht, rfl⟩, _,
    ⟨semesters, _, before, _, hbody, ⟨rfl, rfl, rfl⟩, rfl⟩, rfl⟩ := h
  obtain ⟨rfl, rfl⟩ := List.cons.inj heq
  rw [List.append_nil]
  rcases semestersOf_of_reads hbody with ⟨hbare, rfl, rfl, rfl⟩ | ⟨opening, _, rfl, ho,
    semesters, rfl, hends⟩
  · exact ⟨title.text, [], rfl, .bare hw hcolon ht hbare⟩
  · refine ⟨title.text, semesters, rfl, ?_⟩
    rcases hends with ⟨closing, -, hc, hrun⟩ | ⟨-, hn, hrun⟩
    · exact .closed hw hcolon ht ho hrun (Table.program_eq_close_iff.1 hc)
    · exact .cut hw hcolon ht ho hrun hn

theorem entryOf_of_reads {what : TopLevel} {t : Token} {ts rest : List Token} {e : Entry}
    {log : List Event} (hwhat : Table.plan t = .enter what)
    (h : (entry what).Reads (t :: ts) e log rest) :
    ∃ written, WrittenEntry.entry written = e ∧
      Chronicle.EntryOf (t :: ts) written log rest := by
  cases what with
  | program =>
    obtain ⟨p, _, _, _, hp, hpure, rfl⟩ := reads_bind_iff.1 h
    obtain ⟨rfl, rfl, rfl⟩ := reads_pure_iff.1 hpure
    rw [List.append_nil]
    obtain ⟨title, semesters, hentry, hwritten⟩ :=
      entryOf_of_reads_program (Table.plan_eq_enter_program_iff.1 hwhat) hp
    exact ⟨_, hentry, hwritten⟩
  | semester =>
    obtain ⟨s, _, _, _, hs, hpure, rfl⟩ := reads_bind_iff.1 h
    obtain ⟨rfl, rfl, rfl⟩ := reads_pure_iff.1 hpure
    rw [List.append_nil]
    obtain ⟨written, rfl, hwritten⟩ :=
      semesterOf_of_reads (Table.plan_eq_enter_semester_iff.1 hwhat) hs
    exact ⟨.semester written, rfl, .semester hwritten⟩

theorem entriesOf_of_reads {ts rest : List Token} {es : List Entry} {log : List Event}
    (h : entries.Reads ts es log rest) :
    ∃ written, written.map WrittenEntry.entry = es ∧ Chronicle.EntriesOf ts written log rest := by
  obtain ⟨written, hes, hends⟩ := fits_plan.run WrittenEntry.entry entryOf_of_reads h
  rcases hends with ⟨closing, -, hc, -⟩ | ⟨-, -, hrun⟩
  · exact absurd hc (Table.plan_ne_close closing)
  · exact ⟨written, hes, hrun⟩

end Parser

/-- **A plan that is read has a derivation with its log.**  The curriculum is the one that the
derived entries add up to. -/
theorem exists_chronicle {ts : List Token} {log : List Event} {c : Curriculum}
    (h : Curriculum.ofTokens ts = ⟨log, .ok c⟩) :
    ∃ plan told, Chronicle.EntriesOf (upToFinish ts) plan told [] ∧
      c = Curriculum.ofEntries (plan.map WrittenEntry.entry) ∧
      log = told ++ [.parsed c.semesterCount c.courseCount] := by
  rw [← ofTokens_upToFinish, Curriculum.ofTokens, Parser.curriculum, Parser.map] at h
  rcases hr : Parser.entries (upToFinish ts) with ⟨told, e | ⟨es, rest⟩⟩
  · simp [hr, Logged.map, Except.map] at h
  · obtain ⟨-, rfl⟩ := result_entries_upToFinish_eq_ok_iff.1 (congrArg Logged.result hr)
    obtain ⟨plan, rfl, hplan⟩ := Parser.entriesOf_of_reads hr
    simp only [hr, Logged.map, Except.map, Logged.mk.injEq, Except.ok.injEq] at h
    obtain ⟨rfl, rfl⟩ := h
    exact ⟨plan, told, hplan, rfl, rfl⟩

end StudyPlan
