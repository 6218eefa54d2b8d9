import StudyPlan.Curriculum.Basic
import StudyPlan.Proofs.Segmentation

/-!
# Writing a study plan

The way from entries back to a source:

    Carrera : "title" [
      Semestre : 1 {
        Curso : 101 {
          Nombre : "name" ;  Creditos : 4 ;  Descripcion : "…" ;  Area : "…" ;
          Obligatorio : true ;  Prerrequisitos : ( 99 , 100 )
        }
      }
    ]

Descriptions, areas and the obligation are written only when the course has them.
Since a quoted text ends at its mark and nothing in it can be escaped, a text with both
marks in it cannot be written at all (`Quotable`).

## The freedom of a layout

Two things are left open by the language and are settled by a `Layout`: the blanks
between lexemes, which may also be none, and the mark of each quoted text.  That no
blank is ever needed is a matter of what stands next to what.  Numbers and words go on
for as long as they can, but all of them are written in front of a delimiter.

## Neat segments

`Neat opened ss left` says all that the lexer will ask of what is written: each segment
is well formed, those that go on have a delimiter behind them, and the brackets in `ss`
turn the open brackets `opened` into `left`.
-/

namespace StudyPlan

/-! ## What can be written -/

/-- A text that does not contain both of the quotation marks. -/
def Quotable (s : String) : Prop :=
  '"' ∉ s.toList ∨ '\'' ∉ s.toList

/-- What a course code is written with: one or more digits. -/
def IsCode (s : String) : Prop :=
  s.toList ≠ [] ∧ ∀ c ∈ s.toList, c.isDigit = true

instance (s : String) : Decidable (Quotable s) :=
  inferInstanceAs (Decidable (_ ∨ _))

instance (s : String) : Decidable (IsCode s) :=
  decidable_of_iff ((!s.toList.isEmpty && s.toList.all Char.isDigit) = true) (by simp [IsCode])

/-- A course that can be written in the semester `n`. -/
structure Course.Writable (n : UInt32) (c : Course) : Prop where
  semester : c.semester = n
  code : IsCode c.code
  prerequisites : ∀ p ∈ c.prerequisites, IsCode p
  name : Quotable c.name
  description : ∀ d ∈ c.description, Quotable d
  area : ∀ a ∈ c.area, Quotable a

/-- A semester whose courses can be written in it. -/
def Semester.Writable (s : Semester) : Prop :=
  ∀ c ∈ s.courses, c.Writable s.number

/-- An entry that can be written. -/
def Entry.Writable : Entry → Prop
  | .program p => Quotable p.title ∧ ∀ s ∈ p.semesters, s.Writable
  | .semester s => s.Writable

/-- How a plan is laid out. -/
structure Layout where
  /-- The blanks in front of the lexeme with this number. -/
  gap : Nat → List Char
  /-- The mark around this text. -/
  mark : String → Char
  isBlank_gap : ∀ n, ∀ c ∈ gap n, Segment.isBlank c = true
  isQuote_mark : ∀ s, Literal.isQuote (mark s) = true
  mark_notMem : ∀ s, Quotable s → mark s ∉ s.toList

namespace Layout

/-- One space in front of everything, and double marks where they are possible. -/
def plain : Layout where
  gap _ := [' ']
  mark s := if '"' ∈ s.toList then '\'' else '"'
  isBlank_gap _ c hc := by
    rw [List.mem_singleton.1 hc]
    rfl
  isQuote_mark s := by split <;> rfl
  mark_notMem s hs := by
    split
    · next h => exact hs.resolve_left (not_not_intro h)
    · next h => exact h

/-! ## The lexemes of a plan -/

/-- The 32-bit number `n` in decimal. -/
def numeral (n : UInt32) : Segment :=
  .number (toString n.toNat).toList

/-- A truth value. -/
def truth (b : Bool) : Segment :=
  .word (if b then "true" else "false").toList

/-- A field with a single value. -/
def field (word : String) (value : Segment) : List Segment :=
  [.word word.toList, .delimiter .colon, value, .delimiter .semicolon]

/-- A field that need not be there. -/
def field? (word : String) : Option Segment → List Segment
  | none => []
  | some value => field word value

/-- Codes with commas between them. -/
def codes : List String → List Segment
  | [] => []
  | [p] => [.number p.toList]
  | p :: q :: ps => .number p.toList :: .delimiter .comma :: codes (q :: ps)

/-- A list of prerequisites. -/
def prerequisites (ps : List String) : List Segment :=
  .word "Prerrequisitos".toList :: .delimiter .colon :: .delimiter .openParen ::
    (codes ps ++ [.delimiter .closeParen])

variable (l : Layout)

/-- A text between its marks. -/
def quote (s : String) : Segment :=
  .quoted (l.mark s) s.toList

/-- The fields of a course. -/
def fields (c : Course) : List Segment :=
  field "Nombre" (l.quote c.name) ++
    (field "Creditos" (numeral c.credits) ++
      (field? "Descripcion" (c.description.map l.quote) ++
        (field? "Area" (c.area.map l.quote) ++
          (field? "Obligatorio" (c.mandatory.map truth) ++ prerequisites c.prerequisites))))

/-- A course. -/
def course (c : Course) : List Segment :=
  .word "Curso".toList :: .delimiter .colon :: .number c.code.toList :: .delimiter .openBrace ::
    (l.fields c ++ [.delimiter .closeBrace])

/-- A semester. -/
def semester (s : Semester) : List Segment :=
  .word "Semestre".toList :: .delimiter .colon :: numeral s.number :: .delimiter .openBrace ::
    (s.courses.flatMap l.course ++ [.delimiter .closeBrace])

/-- A program. -/
def program (p : Program) : List Segment :=
  .word "Carrera".toList :: .delimiter .colon :: l.quote p.title :: .delimiter .openBracket ::
    (p.semesters.flatMap l.semester ++ [.delimiter .closeBracket])

/-- An entry. -/
def entry : Entry → List Segment
  | .program p => l.program p
  | .semester s => l.semester s

/-- The lexemes of a plan. -/
def lexemes (es : List Entry) : List Segment :=
  es.flatMap l.entry

/-! ## The source of a plan -/

/-- The lexemes with the gaps between them, when `n` lexemes have been written. -/
def pad (n : Nat) : List Segment → List Segment
  | [] => (l.gap n).map .blank
  | s :: ss => (l.gap n).map .blank ++ s :: pad (n + 1) ss

/-- The segments of the source of a plan. -/
def segments (es : List Entry) : List Segment :=
  l.pad 0 (l.lexemes es)

/-- The source of a plan. -/
def write (es : List Entry) : String :=
  String.ofList ((l.segments es).flatMap Segment.text)

end Layout

/-! ## Neat segments -/

namespace Segment

open Literal

/-- Is this a word? -/
def isWord : List Char → Bool
  | [] => false
  | c :: cs => isLetter c && cs.all isWordPart

/-- Segments that may be written with any gaps between them.  Their brackets turn the
open ones from `opened` into `left`. -/
inductive Neat : List Delimiter → List Segment → List Delimiter → Prop
  | nil (opened : List Delimiter) : Neat opened [] opened
  | opening {o : Delimiter} {opened left : List Delimiter} {ss : List Segment} :
      o.isOpening = true → Neat (o :: opened) ss left → Neat opened (.delimiter o :: ss) left
  | closing {o c : Delimiter} {opened left : List Delimiter} {ss : List Segment} :
      o.partner? = some c → Neat opened ss left → Neat (o :: opened) (.delimiter c :: ss) left
  | separator {d : Delimiter} {opened left : List Delimiter} {ss : List Segment} :
      d.isOpening = false → d.isClosing = false → Neat opened ss left →
        Neat opened (.delimiter d :: ss) left
  | quoted {mark : Char} {body : List Char} {opened left : List Delimiter}
      {ss : List Segment} :
      isQuote mark = true → mark ∉ body → Neat opened ss left →
        Neat opened (.quoted mark body :: ss) left
  | number {digits : List Char} {d : Delimiter} {opened left : List Delimiter}
      {ss : List Segment} :
      digits ≠ [] → (∀ c ∈ digits, c.isDigit = true) → Neat opened (.delimiter d :: ss) left →
        Neat opened (.number digits :: .delimiter d :: ss) left
  | word {letters : List Char} {d : Delimiter} {opened left : List Delimiter}
      {ss : List Segment} :
      isWord letters = true → Neat opened (.delimiter d :: ss) left →
        Neat opened (.word letters :: .delimiter d :: ss) left

theorem Neat.append {opened between left : List Delimiter} {ss ss' : List Segment}
    (h : Neat opened ss between) (h' : Neat between ss' left) : Neat opened (ss ++ ss') left := by
  induction h with
  | nil => exact h'
  | opening ho _ ih => exact .opening ho (ih h')
  | closing hp _ ih => exact .closing hp (ih h')
  | separator ho hc _ ih => exact .separator ho hc (ih h')
  | quoted hq hbody _ ih => exact .quoted hq hbody (ih h')
  | number hne hdigits _ ih => exact .number hne hdigits (ih h')
  | word hw _ ih => exact .word hw (ih h')

theorem neat_flatMap {α : Type} {opened : List Delimiter} {write : α → List Segment}
    {xs : List α} (h : ∀ x ∈ xs, Neat opened (write x) opened) :
    Neat opened (xs.flatMap write) opened := by
  induction xs with
  | nil => exact .nil opened
  | cons x xs ih =>
    rw [List.forall_mem_cons] at h
    exact h.1.append (ih h.2)

end Segment

/-! ## What is written is neat -/

namespace Layout

open Segment

variable {l : Layout} {opened left : List Delimiter} {ss : List Segment}

theorem isCode_toString (n : Nat) : IsCode (toString n) := by
  rw [IsCode, Nat.toString_eq_repr, Nat.toList_repr]
  exact ⟨Nat.toDigits_ne_nil, fun _ hc => Nat.isDigit_of_mem_toDigits (by decide) (by decide) hc⟩

/-- A quoted text may be written in front of anything. -/
theorem neat_quote {s : String} (h : Quotable s) (hss : Neat opened ss left) :
    Neat opened (l.quote s :: ss) left :=
  .quoted (l.isQuote_mark s) (l.mark_notMem s h) hss

theorem neat_code {s : String} (h : IsCode s) {d : Delimiter}
    (hss : Neat opened (.delimiter d :: ss) left) :
    Neat opened (.number s.toList :: .delimiter d :: ss) left :=
  .number h.1 h.2 hss

theorem neat_semicolon (opened : List Delimiter) :
    Neat opened [.delimiter .semicolon] opened :=
  .separator rfl rfl (.nil opened)

theorem neat_truth (b : Bool) (opened : List Delimiter) :
    Neat opened [truth b, .delimiter .semicolon] opened := by
  refine .word ?_ (neat_semicolon opened)
  cases b <;> decide

theorem neat_field {word : String} (hw : isWord word.toList = true) {value : Segment}
    (hv : Neat opened [value, .delimiter .semicolon] opened) :
    Neat opened (field word value) opened :=
  .word hw (.separator rfl rfl hv)

theorem neat_field? {α : Type} {word : String} (hw : isWord word.toList = true)
    {f : α → Segment} {value : Option α}
    (hv : ∀ a ∈ value, Neat opened [f a, .delimiter .semicolon] opened) :
    Neat opened (field? word (value.map f)) opened := by
  cases value with
  | none => exact .nil opened
  | some a => exact neat_field hw (hv a rfl)

theorem neat_codes {ps : List String} (h : ∀ p ∈ ps, IsCode p) {d : Delimiter}
    (hss : Neat opened (.delimiter d :: ss) left) :
    Neat opened (codes ps ++ .delimiter d :: ss) left := by
  fun_induction codes ps with
  | case1 => exact hss
  | case2 p => exact neat_code (h p (List.mem_singleton_self p)) hss
  | case3 p q ps ih =>
    rw [List.forall_mem_cons] at h
    exact neat_code h.1 (.separator rfl rfl (ih h.2))

theorem neat_prerequisites {ps : List String} (h : ∀ p ∈ ps, IsCode p) :
    Neat opened (prerequisites ps) opened := by
  have hclosing : Neat (.openParen :: opened) [.delimiter .closeParen] opened :=
    .closing rfl (.nil opened)
  exact .word (by decide) (.separator rfl rfl (.opening rfl (neat_codes h hclosing)))

/-- A body between its brackets is neat. -/
theorem neat_enclosed {o c : Delimiter} (ho : o.isOpening = true) (hp : o.partner? = some c)
    (h : Neat (o :: opened) ss (o :: opened)) :
    Neat opened (.delimiter o :: (ss ++ [.delimiter c])) opened := by
  have hclosing : Neat (o :: opened) [.delimiter c] opened := .closing hp (.nil opened)
  exact .opening ho (h.append hclosing)

theorem neat_fields {n : UInt32} {c : Course} (h : c.Writable n) :
    Neat opened (l.fields c) opened := by
  have hname : Neat opened (field "Nombre" (l.quote c.name)) opened :=
    neat_field (by decide) (neat_quote h.name (neat_semicolon opened))
  have hcredits : Neat opened (field "Creditos" (numeral c.credits)) opened :=
    neat_field (by decide) (neat_code (isCode_toString _) (neat_semicolon opened))
  have hdescription : Neat opened (field? "Descripcion" (c.description.map l.quote)) opened :=
    neat_field? (by decide) fun d hd => neat_quote (h.description d hd) (neat_semicolon opened)
  have harea : Neat opened (field? "Area" (c.area.map l.quote)) opened :=
    neat_field? (by decide) fun a ha => neat_quote (h.area a ha) (neat_semicolon opened)
  have hmandatory : Neat opened (field? "Obligatorio" (c.mandatory.map truth)) opened :=
    neat_field? (by decide) fun b _ => neat_truth b opened
  exact hname.append (hcredits.append (hdescription.append (harea.append
    (hmandatory.append (neat_prerequisites h.prerequisites)))))

theorem neat_course {n : UInt32} {c : Course} (h : c.Writable n) :
    Neat opened (l.course c) opened := by
  have hbody : Neat opened (.delimiter .openBrace :: (l.fields c ++ [.delimiter .closeBrace]))
      opened := neat_enclosed rfl rfl (neat_fields h)
  exact .word (by decide) (.separator rfl rfl (neat_code h.code hbody))

theorem neat_semester {s : Semester} (h : s.Writable) :
    Neat opened (l.semester s) opened := by
  have hbody : Neat opened (.delimiter .openBrace ::
      (s.courses.flatMap l.course ++ [.delimiter .closeBrace])) opened :=
    neat_enclosed rfl rfl (neat_flatMap fun c hc => neat_course (h c hc))
  exact .word (by decide) (.separator rfl rfl (neat_code (isCode_toString _) hbody))

theorem neat_entry {e : Entry} (h : e.Writable) : Neat opened (l.entry e) opened := by
  cases e with
  | semester s => exact neat_semester h
  | program p =>
    have hbody : Neat opened (.delimiter .openBracket ::
        (p.semesters.flatMap l.semester ++ [.delimiter .closeBracket])) opened :=
      neat_enclosed rfl rfl (neat_flatMap fun s hs => neat_semester (h.2 s hs))
    exact .word (by decide) (.separator rfl rfl (neat_quote h.1 hbody))

/-- **The lexemes of a plan are neat and leave no bracket open.** -/
theorem neat_lexemes {es : List Entry} (h : ∀ e ∈ es, e.Writable) : Neat [] (l.lexemes es) [] :=
  neat_flatMap fun e he => neat_entry (h e he)

end Layout
end StudyPlan
