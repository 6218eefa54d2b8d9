import Mathlib.Data.List.Induction
import StudyPlan.Proofs.Exactness

/-!
# What a course makes of the fields in its body

A course is built by a fold over its fields, one after the other.  The order of most of them is
of no consequence, and this module says which order is: `ofDetails_eq_lastWins` writes the course
down without a fold.  What a course says about itself is the last thing that its body says, its
prerequisites are all that the body lists, and its code and its semester are not up to the body.

## Stretches of a body

The tokens of a body are cut into stretches.  A stretch is a field, or a token that is stepped
over (`Stretch`).  In a list of prerequisites the stretch ends at the first parenthesis that
closes, and its codes are the numbers before it.  A body has a derivation (`FieldsOf`) just when
it is cut into stretches, so where the tokens between the fields are, and what they are, makes no
difference to the course (`last_field_wins`).
-/

namespace StudyPlan

open StudyPlan.Derivation

/-! ## The course of a list of fields -/

namespace Detail

/-- The field that this is a value of. -/
def field : Detail → Field
  | name _ => .name
  | code _ _ => .code
  | credits _ => .credits
  | description _ => .description
  | mandatory _ => .mandatory
  | prerequisites _ => .prerequisites
  | area _ => .area

def name? : Detail → Option String
  | name text => some text
  | _ => none

def credits? : Detail → Option UInt32
  | credits amount => some amount
  | _ => none

def description? : Detail → Option String
  | description text => some text
  | _ => none

def mandatory? : Detail → Option Bool
  | mandatory value => some value
  | _ => none

def area? : Detail → Option String
  | area text => some text
  | _ => none

/-- The codes that a field lists as prerequisites. -/
def codes : Detail → List String
  | prerequisites codes => codes
  | _ => []

/-- The last value of the field `f`. -/
def last? (f : Field) (details : List Detail) : Option Detail :=
  (details.filter fun d => d.field = f).getLast?

theorem last?_concat (f : Field) (details : List Detail) (d : Detail) :
    last? f (details ++ [d]) = if d.field = f then some d else last? f details := by
  rw [last?, last?, List.filter_append]
  by_cases h : d.field = f
  · simp [h]
  · simp [h]

/-- The codes of all lists of prerequisites, whatever stands between them. -/
theorem flatMap_codes_filter (details : List Detail) :
    (details.filter fun d => d.field = .prerequisites).flatMap codes = details.flatMap codes := by
  induction details with
  | nil => rfl
  | cons d details ih =>
    cases d <;> simpa [field, codes] using ih

/-- Two bodies have the same lists of prerequisites, one after the other, and the same last value
of every other field but the code.  So it is with bodies that hold the same fields in different
orders, if the lists of prerequisites stay in order and each last value stays the last. -/
structure SameLast (F F' : List Detail) : Prop where
  prerequisites : (F.filter fun d => d.field = .prerequisites) =
    F'.filter fun d => d.field = .prerequisites
  last : ∀ f, f ≠ .prerequisites → f ≠ .code → last? f F = last? f F'

end Detail

/-- The course of a code, a semester and a body of fields, without a fold. -/
def Course.lastWins (code : String) (n : UInt32) (F : List Detail) : Course where
  code := code
  semester := n
  name := ((Detail.last? .name F).bind Detail.name?).getD ""
  credits := ((Detail.last? .credits F).bind Detail.credits?).getD 0
  description := (Detail.last? .description F).bind Detail.description?
  area := (Detail.last? .area F).bind Detail.area?
  mandatory := (Detail.last? .mandatory F).bind Detail.mandatory?
  prerequisites := F.flatMap Detail.codes

/-- One more field. -/
theorem Course.lastWins_concat (code : String) (n : UInt32) (F : List Detail) (d : Detail) :
    Course.lastWins code n (F ++ [d]) = (Course.lastWins code n F).record d := by
  cases d <;>
    simp [Course.lastWins, Course.record, Detail.last?_concat, Detail.field, Detail.name?,
      Detail.credits?, Detail.description?, Detail.area?, Detail.mandatory?, Detail.codes]

theorem Course.ofDetails_eq_lastWins (code : String) (n : UInt32) (F : List Detail) :
    Course.ofDetails code n F = Course.lastWins code n F := by
  induction F using List.reverseRecOn with
  | nil => rfl
  | append_singleton F d ih =>
    rw [Course.lastWins_concat, ← ih, Course.ofDetails, List.foldl_append]
    rfl

theorem Detail.SameLast.lastWins_eq {F F' : List Detail} (h : Detail.SameLast F F')
    (code : String) (n : UInt32) : Course.lastWins code n F = Course.lastWins code n F' := by
  have hcodes : F.flatMap Detail.codes = F'.flatMap Detail.codes := by
    rw [← Detail.flatMap_codes_filter F, h.prerequisites, Detail.flatMap_codes_filter]
  simp only [Course.lastWins, hcodes, h.last .name nofun nofun, h.last .credits nofun nofun,
    h.last .description nofun nofun, h.last .area nofun nofun, h.last .mandatory nofun nofun]

/-! ## Stretches -/

/-- The texts of the numbers among the tokens. -/
def numbersOf (ts : List Token) : List String :=
  (ts.filter fun t => t.kind = .number).map Token.text

/-- A list of prerequisites is read up to the first parenthesis that closes, and its codes are the
numbers before that. -/
theorem codesOf_iff {ts rest : List Token} {codes : List String} :
    CodesOf ts codes rest ↔
      ∃ inner, ts = inner ++ rest ∧ codes = numbersOf inner ∧
        ∀ t ∈ inner, t.isFinish = false ∧ t.kind ≠ .delimiter .closeParen := by
  constructor
  · intro h
    induction h with
    | stop ts => exact ⟨[], rfl, rfl, List.forall_mem_nil _⟩
    | pass ht hp _ ih =>
      obtain ⟨inner, rfl, rfl, hinner⟩ := ih
      refine ⟨_ :: inner, rfl, ?_, List.forall_mem_cons.2 ⟨⟨ht, hp.2⟩, hinner⟩⟩
      rw [numbersOf, numbersOf, List.filter_cons_of_neg (by simpa using hp.1)]
    | part hcode _ ih =>
      obtain ⟨inner, rfl, rfl, hinner⟩ := ih
      obtain ⟨hk⟩ := hcode
      refine ⟨_ :: inner, rfl, ?_, List.forall_mem_cons.2
        ⟨⟨isFinish_eq_false hk nofun, by rw [hk]; nofun⟩, hinner⟩⟩
      rw [numbersOf, numbersOf, List.filter_cons_of_pos (by simpa using hk), List.map_cons]
  · rintro ⟨inner, rfl, rfl, hinner⟩
    induction inner with
    | nil => exact .stop _
    | cons t inner ih =>
      rw [List.forall_mem_cons] at hinner
      by_cases hk : t.kind = .number
      · rw [numbersOf, List.filter_cons_of_pos (by simpa using hk), List.map_cons]
        exact .part (.intro hk) (ih hinner.2)
      · rw [numbersOf, List.filter_cons_of_neg (by simpa using hk)]
        exact .pass hinner.1.1 ⟨hk, hinner.1.2⟩ (ih hinner.2)

/-- A piece of the body of a course: a token that is stepped over, a field with a value of one
token, or a field with a list of prerequisites. -/
inductive Stretch where
  | passed (t : Token)
  | single (word colon value semicolon : Token) (d : Detail)
  | list (word colon opening : Token) (inner : List Token) (closing : Token)

namespace Stretch

def tokens : Stretch → List Token
  | passed t => [t]
  | single word colon value semicolon _ => [word, colon, value, semicolon]
  | list word colon opening inner closing => word :: colon :: opening :: (inner ++ [closing])

/-- The field that is read off the stretch. -/
def detail? : Stretch → Option Detail
  | passed _ => none
  | single _ _ _ _ d => some d
  | list _ _ _ inner _ => some (.prerequisites (numbersOf inner))

/-- The stretch is what it says it is. -/
def Stands : Stretch → Prop
  | passed t => t.isFinish = false ∧ Table.course t = .skip
  | single word colon value semicolon d =>
    (∃ f, Heads word f ∧ ValueOf word.line f value d) ∧ colon.kind = .delimiter .colon ∧
      semicolon.kind = .delimiter .semicolon
  | list word colon opening inner closing =>
    Heads word .prerequisites ∧ colon.kind = .delimiter .colon ∧
      opening.kind = .delimiter .openParen ∧ closing.kind = .delimiter .closeParen ∧
        ∀ t ∈ inner, t.isFinish = false ∧ t.kind ≠ .delimiter .closeParen

/-- The fields that are read off the stretches of a body. -/
def details (body : List Stretch) : List Detail :=
  body.filterMap detail?

end Stretch

/-- A field is a stretch that is not stepped over. -/
theorem fieldOf_iff {ts rest : List Token} {d : Detail} :
    FieldOf ts d rest ↔
      ∃ s : Stretch, ts = s.tokens ++ rest ∧ s.Stands ∧ s.detail? = some d := by
  constructor
  · intro h
    cases h with
    | single hw hcolon hv hs =>
      exact ⟨.single _ _ _ _ d, rfl, ⟨⟨_, hw, hv⟩, hcolon, hs⟩, rfl⟩
    | prerequisites hw hcolon ho hcodes hc =>
      obtain ⟨inner, rfl, rfl, hinner⟩ := codesOf_iff.1 hcodes
      exact ⟨.list _ _ _ inner _, by simp [Stretch.tokens], ⟨hw, hcolon, ho, hc, hinner⟩, rfl⟩
  · rintro ⟨s, rfl, hstands, hd⟩
    cases s with
    | passed => cases hd
    | single =>
      obtain ⟨⟨f, hw, hv⟩, hcolon, hs⟩ := hstands
      obtain rfl := Option.some.inj hd
      exact .single hw hcolon hv hs
    | list word colon opening inner closing =>
      obtain ⟨hw, hcolon, ho, hc, hinner⟩ := hstands
      obtain rfl := Option.some.inj hd
      have hcodes : CodesOf (inner ++ [closing] ++ rest) (numbersOf inner) (closing :: rest) :=
        codesOf_iff.2 ⟨inner, List.append_assoc _ _ _, rfl, hinner⟩
      exact .prerequisites hw hcolon ho hcodes hc

/-- The fields of a body are those of its stretches. -/
theorem fieldsOf_iff {ts rest : List Token} {F : List Detail} :
    FieldsOf ts F rest ↔
      ∃ body : List Stretch, ts = body.flatMap Stretch.tokens ++ rest ∧
        (∀ s ∈ body, s.Stands) ∧ F = Stretch.details body := by
  constructor
  -- one stretch for each token that is passed and for each field
  · intro h
    induction h with
    | stop ts => exact ⟨[], rfl, List.forall_mem_nil _, rfl⟩
    | pass ht hp _ ih =>
      obtain ⟨body, rfl, hbody, rfl⟩ := ih
      exact ⟨.passed _ :: body, rfl, List.forall_mem_cons.2 ⟨⟨ht, hp⟩, hbody⟩, rfl⟩
    | part hfield _ ih =>
      obtain ⟨body, rfl, hbody, rfl⟩ := ih
      obtain ⟨s, rfl, hs, hd⟩ := fieldOf_iff.1 hfield
      refine ⟨s :: body, by simp, List.forall_mem_cons.2 ⟨hs, hbody⟩, ?_⟩
      exact (List.filterMap_cons_some hd).symm
  · rintro ⟨body, rfl, hbody, rfl⟩
    induction body with
    | nil => exact .stop _
    | cons s body ih =>
      rw [List.forall_mem_cons] at hbody
      rw [List.flatMap_cons, List.append_assoc]
      cases hd : s.detail? with
      | none =>
        rw [Stretch.details, List.filterMap_cons_none hd]
        cases s with
        | passed t => exact .pass hbody.1.1 hbody.1.2 (ih hbody.2)
        | single | list => cases hd
      | some d =>
        rw [Stretch.details, List.filterMap_cons_some hd]
        exact .part (fieldOf_iff.2 ⟨s, rfl, hbody.1, hd⟩) (ih hbody.2)

/-! ## A whole course -/

/-- The tokens begin with a course: a word, a code and a body between braces.  The word is not
looked at. -/
inductive CourseSpan : List Token → Token → List Stretch → List Token → Prop
  | intro {word colon code opening closing : Token} {body : List Stretch} {rest : List Token} :
      colon.kind = .delimiter .colon → code.kind = .number →
        opening.kind = .delimiter .openBrace → (∀ s ∈ body, s.Stands) →
        closing.kind = .delimiter .closeBrace →
        CourseSpan (word :: colon :: code :: opening ::
          (body.flatMap Stretch.tokens ++ closing :: rest)) code body rest

/-- Which word heads a course makes no difference to its parser. -/
theorem Parser.course_cons (n : UInt32) (w w' : Token) (ts : List Token) :
    Parser.course n (w :: ts) = Parser.course n (w' :: ts) := rfl

theorem Parser.result_course_eq_ok_iff_span {n : UInt32} {ts rest : List Token} {c : Course} :
    (Parser.course n ts).result = .ok (c, rest) ↔
      ∃ code body, CourseSpan ts code body rest ∧
        c = Course.lastWins code.text n (Stretch.details body) := by
  rcases ts with _ | ⟨w, ts⟩
  -- without a token there is no word to read
  · rw [Parser.course, Parser.result_bind_eq_ok_iff]
    simp only [Parser.result_lead_eq_ok_iff]
    constructor
    · rintro ⟨_, _, h, -⟩
      cases h
    · rintro ⟨_, _, h, -⟩
      cases h
  -- a derivation begins with the right word, so any other is exchanged for it
  · rw [Parser.course_cons n w { w with kind := .keyword .curso },
      Parser.result_course_eq_ok_iff rfl]
    constructor
    · rintro ⟨-, hcolon, hcode, ho, hfields, hc⟩
      obtain ⟨body, rfl, hbody, rfl⟩ := fieldsOf_iff.1 hfields
      exact ⟨_, body, .intro hcolon hcode ho hbody hc, Course.ofDetails_eq_lastWins _ _ _⟩
    · rintro ⟨_, body, ⟨hcolon, hcode, ho, hbody, hc⟩, rfl⟩
      rw [← Course.ofDetails_eq_lastWins]
      exact .intro rfl hcolon hcode ho (fieldsOf_iff.2 ⟨body, rfl, hbody, rfl⟩) hc

/-- The fields that the parser of a body reads are those of its stretches. -/
theorem Parser.result_body_of_stretches (name : String) {body : List Stretch}
    (hbody : ∀ s ∈ body, s.Stands) {closing : Token}
    (hc : closing.kind = .delimiter .closeBrace) (rest : List Token) :
    (Parser.body name Table.course (.closedBy .closeBrace) Parser.field
        (body.flatMap Stretch.tokens ++ closing :: rest)).result =
      .ok (Stretch.details body, rest) :=
  (Parser.result_body_eq_ok_iff Parser.fits_course).2
    ((Parser.ends_closedBy_iff Table.course_eq_close_iff).2
      ⟨closing, hc, fieldsOf_iff.2 ⟨body, rfl, hbody, rfl⟩⟩)

/-- Tokens begin with one course at most. -/
theorem CourseSpan.unique {ts rest rest' : List Token} {code code' : Token}
    {body body' : List Stretch} (h : CourseSpan ts code body rest)
    (h' : CourseSpan ts code' body' rest') :
    code = code' ∧ Stretch.details body = Stretch.details body' ∧ rest = rest' := by
  obtain ⟨-, -, -, hbody, hc⟩ := h
  generalize hts : _ :: _ :: code :: _ :: (body.flatMap Stretch.tokens ++ _ :: rest) = ts at h'
  obtain ⟨-, -, -, hbody', hc'⟩ := h'
  simp only [List.cons.injEq] at hts
  obtain ⟨-, -, hcode, -, htail⟩ := hts
  have hread := Parser.result_body_of_stretches "" hbody hc rest
  rw [htail, Parser.result_body_of_stretches "" hbody' hc' rest'] at hread
  simp only [Except.ok.injEq, Prod.mk.injEq] at hread
  exact ⟨hcode, hread.1.symm, hread.2.symm⟩

/-- **The last field of a kind wins, prerequisites add up, and the order of fields of different
kinds is of no consequence.**  The parser of a course succeeds just where one is spelled out; its
code and its fields are determined by the tokens, and it is the `Course.lastWins` of them.  So two
bodies with the same last fields and the same lists of prerequisites make the same course,
whatever is stepped over in them. -/
theorem last_field_wins (n : UInt32) :
    (∀ ts rest c, (Parser.course n ts).result = .ok (c, rest) ↔
        ∃ code body, CourseSpan ts code body rest ∧
          c = Course.lastWins code.text n (Stretch.details body)) ∧
      (∀ ts rest rest' code code' body body', CourseSpan ts code body rest →
        CourseSpan ts code' body' rest' →
          code = code' ∧ Stretch.details body = Stretch.details body' ∧ rest = rest') ∧
      ∀ ts ts' rest rest' code code' body body', CourseSpan ts code body rest →
        CourseSpan ts' code' body' rest' → code.text = code'.text →
        Detail.SameLast (Stretch.details body) (Stretch.details body') →
        ∃ c, (Parser.course n ts).result = .ok (c, rest) ∧
          (Parser.course n ts').result = .ok (c, rest') := by
  refine ⟨fun ts rest c => Parser.result_course_eq_ok_iff_span, ?_, ?_⟩
  · intro ts rest rest' code code' body body' h h'
    exact h.unique h'
  · intro ts ts' rest rest' code code' body body' hspan hspan' hcode hsame
    refine ⟨_, Parser.result_course_eq_ok_iff_span.2 ⟨code, body, hspan, rfl⟩, ?_⟩
    exact Parser.result_course_eq_ok_iff_span.2
      ⟨code', body', hspan', by rw [hcode, hsame.lastWins_eq]⟩

/-! Two bodies of one course: a name that is given twice, a list of prerequisites with a code that
is listed twice, and some credits. -/

namespace TwoBodies

def delimiter (d : Delimiter) : Token := ⟨.delimiter d, String.singleton d.symbol, 1, 1⟩

def number (text : String) : Token := ⟨.number, text, 1, 1⟩

def named (text : String) : Stretch :=
  .single ⟨.keyword .nombre, "Nombre", 1, 1⟩ (delimiter .colon) ⟨.quoted, text, 1, 1⟩
    (delimiter .semicolon) (.name text)

def credited : Stretch :=
  .single ⟨.keyword .creditos, "Creditos", 1, 1⟩ (delimiter .colon) (number "04")
    (delimiter .semicolon) (.credits 4)

def listed : Stretch :=
  .list ⟨.identifier, "Prerrequisitos", 1, 1⟩ (delimiter .colon) (delimiter .openParen)
    [number "1", delimiter .comma, number "1"] (delimiter .closeParen)

def early : List Stretch := [named "A", listed, credited, named "B"]

/-- The same fields in another order, behind a comma that is stepped over. -/
def late : List Stretch := [.passed (delimiter .comma), credited, named "A", named "B", listed]

/-- The tokens of a course with such a body. -/
def course (body : List Stretch) : List Token :=
  ⟨.keyword .curso, "Curso", 1, 1⟩ :: delimiter .colon :: number "7" :: delimiter .openBrace ::
    (body.flatMap Stretch.tokens ++ [delimiter .closeBrace])

theorem stands_named (text : String) : (named text).Stands :=
  ⟨⟨.name, rfl, .name rfl⟩, rfl, rfl⟩

theorem stands_credited : credited.Stands :=
  ⟨⟨.credits, rfl, .credits ⟨rfl, by decide, by decide⟩⟩, rfl, rfl⟩

theorem stands_listed : listed.Stands :=
  ⟨.inr ⟨rfl, "prerrequisitos", by decide, by decide⟩, rfl, rfl, rfl, by decide⟩

theorem span_course {body : List Stretch} (h : ∀ s ∈ body, s.Stands) :
    CourseSpan (course body) (number "7") body [] :=
  .intro rfl rfl rfl h rfl

theorem sameLast : Detail.SameLast (Stretch.details early) (Stretch.details late) :=
  ⟨rfl, fun f _ _ => by cases f <;> rfl⟩

theorem last_field_wins_early_late : ∃ c,
    (Parser.course 3 (course early)).result = .ok (c, []) ∧
      (Parser.course 3 (course late)).result = .ok (c, []) ∧
      c = ⟨"7", 3, "B", 4, none, none, none, ["1", "1"]⟩ := by
  have hearly : CourseSpan (course early) (number "7") early [] :=
    span_course (by simp [early, stands_named, stands_listed, stands_credited])
  have hlate : CourseSpan (course late) (number "7") late [] :=
    span_course (List.forall_mem_cons.2
      ⟨⟨rfl, rfl⟩, by simp [stands_named, stands_listed, stands_credited]⟩)
  obtain ⟨hread, -, hsame⟩ := last_field_wins 3
  obtain ⟨c, hc, hc'⟩ := hsame _ _ _ _ _ _ _ _ hearly hlate rfl sameLast
  obtain rfl : c = _ := congrArg Prod.fst (Except.ok.inj
    (hc.symm.trans ((hread _ _ _).2 ⟨_, _, hearly, rfl⟩)))
  exact ⟨_, hc, hc', rfl⟩

end TwoBodies
end StudyPlan
