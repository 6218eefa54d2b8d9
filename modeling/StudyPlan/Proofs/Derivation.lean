import StudyPlan.Grammar.Construct

/-!
# The grammar as derivations

What a study plan is, said without saying how one is read.  Each relation below
relates a token list to a value and to the tokens behind the construct, so
`CourseOf n ts c rest` says that `ts` begins with a course of semester `n`, that
this course is `c`, and that `rest` is what follows it.

## Runs

Every body of the language is a `Run`: parts and tokens to be passed over, in any
order.  What a part is and which tokens may be passed over differs from body to
body.  The tokens that begin or end something in a body may not be passed over in
it, and this is what leaves at most one way to derive a token list.

## The end of the tokens

The mark of the end of a source is no part of any construct, and no run passes it.
A token list that has none simply ends.  Two things may stand at the end of the
tokens without having been closed: a whole plan, which nothing closes and whose
entries (`EntriesOf`) leave nothing, and the semesters of a program
(`ProgramOf.cut`).
-/

namespace StudyPlan
namespace Derivation

/-- Parts and tokens to be passed over, in any order. -/
inductive Run {α : Type} (Part : List Token → α → List Token → Prop) (Passed : Token → Prop) :
    List Token → List α → List Token → Prop
  | stop (ts : List Token) : Run Part Passed ts [] ts
  | pass {t : Token} {ts : List Token} {as : List α} {rest : List Token} :
      t.isFinish = false → Passed t → Run Part Passed ts as rest →
        Run Part Passed (t :: ts) as rest
  | part {ts mid : List Token} {a : α} {as : List α} {rest : List Token} :
      Part ts a mid → Run Part Passed mid as rest → Run Part Passed ts (a :: as) rest

/-- The token writes the 32-bit number `n`. -/
def Writes (t : Token) (n : UInt32) : Prop :=
  t.kind = .number ∧ Numeral.isNumeral t.text = true ∧ Numeral.value t.text = n.toNat

/-- The word `w` heads the field. -/
def Heads (w : Token) : Field → Prop
  | .name => w.kind = .keyword .nombre
  | .code => w.kind = .keyword .codigo
  | .credits => w.kind = .keyword .creditos
  | .description => w.kind = .keyword .descripcion
  | .mandatory => w.kind = .keyword .obligatorio
  | .prerequisites => w.kind = .keyword .prerequisito ∨
      w.kind = .identifier ∧ ∃ s ∈ Table.prerequisiteSpellings, sameWord w.text s = true
  | .area => w.kind = .identifier ∧ sameWord w.text "area" = true

/-- The token `v` is the value of a field whose word stands on line `line`.  A list
of prerequisites is not a single token and has no place here. -/
inductive ValueOf (line : Nat) : Field → Token → Detail → Prop
  | name {v : Token} : v.kind = .quoted → ValueOf line .name v (.name v.text)
  | code {v : Token} : v.kind = .quoted → ValueOf line .code v (.code v.text line)
  | credits {v : Token} {n : UInt32} : Writes v n → ValueOf line .credits v (.credits n)
  | description {v : Token} :
      v.kind = .quoted → ValueOf line .description v (.description v.text)
  | mandatory {v : Token} :
      v.kind = .boolean → ValueOf line .mandatory v (.mandatory (sameWord v.text "true"))
  | area {v : Token} : v.kind = .quoted → ValueOf line .area v (.area v.text)

/-- A course code in a list of prerequisites. -/
inductive CodeOf : List Token → String → List Token → Prop
  | intro {t : Token} {rest : List Token} : t.kind = .number → CodeOf (t :: rest) t.text rest

/-- The codes of a list of prerequisites, up to the parenthesis that ends it. -/
abbrev CodesOf : List Token → List String → List Token → Prop :=
  Run CodeOf fun t => t.kind ≠ .number ∧ t.kind ≠ .delimiter .closeParen

/-- A field of a course. -/
inductive FieldOf : List Token → Detail → List Token → Prop
  | single {w colon v semicolon : Token} {f : Field} {d : Detail} {rest : List Token} :
      Heads w f → colon.kind = .delimiter .colon → ValueOf w.line f v d →
        semicolon.kind = .delimiter .semicolon →
        FieldOf (w :: colon :: v :: semicolon :: rest) d rest
  | prerequisites {w colon opening closing : Token} {ts : List Token} {codes : List String}
      {rest : List Token} :
      Heads w .prerequisites → colon.kind = .delimiter .colon →
        opening.kind = .delimiter .openParen → CodesOf ts codes (closing :: rest) →
        closing.kind = .delimiter .closeParen →
        FieldOf (w :: colon :: opening :: ts) (.prerequisites codes) rest

/-- The fields of a course.  What is passed over is what its table steps over. -/
abbrev FieldsOf : List Token → List Detail → List Token → Prop :=
  Run FieldOf fun t => Table.course t = .skip

/-- A course of the semester `n`. -/
inductive CourseOf (n : UInt32) : List Token → Course → List Token → Prop
  | intro {w colon code opening closing : Token} {ts : List Token} {details : List Detail}
      {rest : List Token} :
      w.kind = .keyword .curso → colon.kind = .delimiter .colon → code.kind = .number →
        opening.kind = .delimiter .openBrace → FieldsOf ts details (closing :: rest) →
        closing.kind = .delimiter .closeBrace →
        CourseOf n (w :: colon :: code :: opening :: ts)
          (Course.ofDetails code.text n details) rest

/-- The courses of the semester `n`. -/
abbrev CoursesOf (n : UInt32) : List Token → List Course → List Token → Prop :=
  Run (CourseOf n) fun t => t.kind ≠ .keyword .curso ∧ t.kind ≠ .delimiter .closeBrace

/-- A semester. -/
inductive SemesterOf : List Token → Semester → List Token → Prop
  | intro {w colon number opening closing : Token} {n : UInt32} {ts : List Token}
      {courses : List Course} {rest : List Token} :
      w.kind = .keyword .semestre → colon.kind = .delimiter .colon → Writes number n →
        opening.kind = .delimiter .openBrace → CoursesOf n ts courses (closing :: rest) →
        closing.kind = .delimiter .closeBrace →
        SemesterOf (w :: colon :: number :: opening :: ts) ⟨n, w.line, courses⟩ rest

/-- The semesters of a program. -/
abbrev SemestersOf : List Token → List Semester → List Token → Prop :=
  Run SemesterOf fun t => t.kind ≠ .keyword .semestre ∧ t.kind ≠ .delimiter .closeBracket

/-- A program: without a bracket behind its title, with semesters between brackets,
or with semesters up to the end of the tokens. -/
inductive ProgramOf : List Token → Program → List Token → Prop
  | bare {w colon title : Token} {rest : List Token} :
      w.kind = .keyword .carrera → colon.kind = .delimiter .colon → title.kind = .quoted →
        (∀ t ∈ rest.head?, t.kind ≠ .delimiter .openBracket) →
        ProgramOf (w :: colon :: title :: rest) ⟨title.text, []⟩ rest
  | closed {w colon title opening closing : Token} {ts : List Token}
      {semesters : List Semester} {rest : List Token} :
      w.kind = .keyword .carrera → colon.kind = .delimiter .colon → title.kind = .quoted →
        opening.kind = .delimiter .openBracket → SemestersOf ts semesters (closing :: rest) →
        closing.kind = .delimiter .closeBracket →
        ProgramOf (w :: colon :: title :: opening :: ts) ⟨title.text, semesters⟩ rest
  | cut {w colon title opening : Token} {ts : List Token} {semesters : List Semester}
      {rest : List Token} :
      w.kind = .keyword .carrera → colon.kind = .delimiter .colon → title.kind = .quoted →
        opening.kind = .delimiter .openBracket → SemestersOf ts semesters rest →
        Parser.next? rest = none →
        ProgramOf (w :: colon :: title :: opening :: ts) ⟨title.text, semesters⟩ rest

/-- An entry of the top level. -/
inductive EntryOf : List Token → Entry → List Token → Prop
  | program {ts rest : List Token} {p : Program} :
      ProgramOf ts p rest → EntryOf ts (.program p) rest
  | semester {ts rest : List Token} {s : Semester} :
      SemesterOf ts s rest → EntryOf ts (.semester s) rest

/-- The entries of a plan. -/
abbrev EntriesOf : List Token → List Entry → List Token → Prop :=
  Run EntryOf fun t => t.kind ≠ .keyword .carrera ∧ t.kind ≠ .keyword .semestre

/-! ## A derivation uses up a stretch of its tokens -/

/-- What such parts leave is found behind their first token, which is not the end. -/
def Headed {α : Type} (Part : List Token → α → List Token → Prop) : Prop :=
  ∀ ⦃ts a rest⦄, Part ts a rest → ∃ t ts', ts = t :: ts' ∧ t.isFinish = false ∧ rest <:+ ts'

theorem isFinish_eq_false {t : Token} {k : Kind} (h : t.kind = k) (hk : k ≠ .finish) :
    t.isFinish = false := by
  rw [Token.isFinish, h]
  exact decide_eq_false hk

/-- Two runs, one behind the other. -/
theorem Run.append {α : Type} {Part : List Token → α → List Token → Prop}
    {Passed : Token → Prop} {ts mid rest : List Token} {as bs : List α}
    (h : Run Part Passed ts as mid) (h' : Run Part Passed mid bs rest) :
    Run Part Passed ts (as ++ bs) rest := by
  induction h with
  | stop => exact h'
  | pass ht hp _ ih => exact .pass ht hp (ih h')
  | part ha _ ih => exact .part ha (ih h')

/-- What a run leaves is the end of what it was given. -/
theorem Run.suffix {α : Type} {Part : List Token → α → List Token → Prop}
    {Passed : Token → Prop} (hp : Headed Part) {ts rest : List Token} {as : List α}
    (h : Run Part Passed ts as rest) : rest <:+ ts := by
  induction h with
  | stop ts => exact List.suffix_rfl
  | pass _ _ _ ih => exact ih.trans (List.suffix_cons _ _)
  | part ha _ ih =>
    obtain ⟨t, ts', rfl, -, hs⟩ := hp ha
    exact (ih.trans hs).trans (List.suffix_cons _ _)

/-- What stands behind the closing token of a run is the end of what it was given. -/
theorem Run.suffix_of_closed {α : Type} {Part : List Token → α → List Token → Prop}
    {Passed : Token → Prop} (hp : Headed Part) {ts rest : List Token} {as : List α}
    {closing : Token} (h : Run Part Passed ts as (closing :: rest)) : rest <:+ ts :=
  (List.suffix_cons _ _).trans (h.suffix hp)

theorem isFinish_of_heads {w : Token} {f : Field} (h : Heads w f) : w.isFinish = false := by
  cases f with
  | name | code | credits | description | mandatory => exact isFinish_eq_false h nofun
  | prerequisites =>
    rcases h with h | ⟨h, -⟩
    · exact isFinish_eq_false h nofun
    · exact isFinish_eq_false h nofun
  | area => exact isFinish_eq_false h.1 nofun

/-- A field begins with a word that heads it. -/
theorem exists_heads {w : Token} {ts rest : List Token} {d : Detail}
    (h : FieldOf (w :: ts) d rest) : ∃ f, Heads w f := by
  cases h with
  | single hw _ _ _ => exact ⟨_, hw⟩
  | prerequisites hw _ _ _ _ => exact ⟨_, hw⟩

theorem headed_codeOf : Headed CodeOf := by
  rintro _ _ rest ⟨h⟩
  exact ⟨_, rest, rfl, isFinish_eq_false h nofun, List.suffix_rfl⟩

theorem headed_fieldOf : Headed FieldOf := by
  intro ts d rest h
  cases h with
  | single hw _ _ _ =>
    exact ⟨_, _, rfl, isFinish_of_heads hw, [_, _, _], rfl⟩
  | prerequisites hw _ _ hcodes _ =>
    refine ⟨_, _, rfl, isFinish_of_heads hw, ?_⟩
    exact (hcodes.suffix_of_closed headed_codeOf).trans ⟨[_, _], rfl⟩

theorem headed_courseOf (n : UInt32) : Headed (CourseOf n) := by
  intro ts c rest h
  obtain ⟨hw, _, _, _, hfields, _⟩ := h
  refine ⟨_, _, rfl, isFinish_eq_false hw nofun, ?_⟩
  exact (hfields.suffix_of_closed headed_fieldOf).trans ⟨[_, _, _], rfl⟩

theorem headed_semesterOf : Headed SemesterOf := by
  intro ts s rest h
  obtain ⟨hw, _, _, _, hcourses, _⟩ := h
  refine ⟨_, _, rfl, isFinish_eq_false hw nofun, ?_⟩
  exact (hcourses.suffix_of_closed (headed_courseOf _)).trans ⟨[_, _, _], rfl⟩

theorem headed_programOf : Headed ProgramOf := by
  intro ts p rest h
  cases h with
  | bare hw _ _ _ => exact ⟨_, _, rfl, isFinish_eq_false hw nofun, [_, _], rfl⟩
  | closed hw _ _ _ hs _ =>
    refine ⟨_, _, rfl, isFinish_eq_false hw nofun, ?_⟩
    exact (hs.suffix_of_closed headed_semesterOf).trans ⟨[_, _, _], rfl⟩
  | cut hw _ _ _ hs _ =>
    refine ⟨_, _, rfl, isFinish_eq_false hw nofun, ?_⟩
    exact (hs.suffix headed_semesterOf).trans ⟨[_, _, _], rfl⟩

theorem headed_entryOf : Headed EntryOf := by
  intro ts e rest h
  cases h with
  | program hp => exact headed_programOf hp
  | semester hs => exact headed_semesterOf hs

end Derivation
end StudyPlan
