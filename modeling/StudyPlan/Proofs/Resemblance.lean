import Mathlib.Data.List.Forall2
import StudyPlan.Proofs.Exactness
import StudyPlan.Proofs.Lossless

/-!
# What the grammar does not see

The grammar looks at the kinds of tokens, at the texts of numbers and of quoted texts,
and at words up to the case of their letters.  It copies lines from one place to another
but never compares two of them, and it ignores columns altogether.  So it cannot tell two
token lists apart whose tokens agree, one by one, in what it looks at.

## The relation

Which tokens stand for each other is left open: `R` is any relation on tokens that is
`Interchangeable`.  Two token lists resemble each other when `R` holds at every place, and
then the two runs of a parser go side by side (`Respects`).  Either both read a value, or
both give up, and whatever the values or the errors have copied from the tokens is copied
from tokens that stand for each other.

What this says of lines is `LineOf`: the line in the one value and the line in the other
are those of two tokens that stand for each other.
-/

namespace StudyPlan

/-- What tokens that stand for each other have in common. -/
structure Interchangeable (R : Token → Token → Prop) : Prop where
  kind : ∀ {t t'}, R t t' → t.kind = t'.kind
  /-- What is not a word is written in the same way. -/
  text : ∀ {t t'}, R t t' → t.kind.isWord = false → t.text = t'.text
  word : ∀ {t t'}, R t t' → sameWord t.text t'.text = true

/-- The lines are those of two tokens that stand for each other. -/
def LineOf (R : Token → Token → Prop) (line line' : Nat) : Prop :=
  ∃ t t', R t t' ∧ t.line = line ∧ t'.line = line'

/-- Two errors that differ in the tokens that they name. -/
inductive SyntaxError.Resembles (R : Token → Token → Prop) : SyntaxError → SyntaxError → Prop
  | unexpected (wanted : Expectation) {found found' : Token} :
      R found found' → Resembles R (.unexpected wanted found) (.unexpected wanted found')
  | endOfTokens (wanted : Expectation) : Resembles R (.endOfTokens wanted) (.endOfTokens wanted)
  | outOfRange {t t' : Token} :
      R t t' → t.kind = .number →
        Resembles R (.outOfRange t.text t.line) (.outOfRange t'.text t'.line)

/-- Two semesters that differ in the lines where they begin. -/
structure Semester.Resembles (R : Token → Token → Prop) (s s' : Semester) : Prop where
  number : s.number = s'.number
  line : LineOf R s.line s'.line
  courses : s.courses = s'.courses

/-- Two programs that differ in the lines of their semesters. -/
structure Program.Resembles (R : Token → Token → Prop) (p p' : Program) : Prop where
  title : p.title = p'.title
  semesters : List.Forall₂ (Semester.Resembles R) p.semesters p'.semesters

/-- Two entries that differ in the lines of their semesters. -/
inductive Entry.Resembles (R : Token → Token → Prop) : Entry → Entry → Prop
  | program {p p' : Program} : p.Resembles R p' → Resembles R (.program p) (.program p')
  | semester {s s' : Semester} : s.Resembles R s' → Resembles R (.semester s) (.semester s')

/-- Two fields that make the same of every course.  The line of a code is in neither. -/
def Detail.SameRecord (d d' : Detail) : Prop :=
  ∀ c : Course, c.record d = c.record d'

theorem Course.ofDetails_eq {details details' : List Detail}
    (h : List.Forall₂ Detail.SameRecord details details') (code : String) (n : UInt32) :
    Course.ofDetails code n details = Course.ofDetails code n details' := by
  rw [Course.ofDetails, Course.ofDetails]
  generalize (⟨code, n, "", 0, none, none, none, []⟩ : Course) = c
  induction h generalizing c with
  | nil => rfl
  | cons hd _ ih => rw [List.foldl_cons, List.foldl_cons, hd c, ih]

theorem forall₂_flatMap {α β : Type} {P : α → α → Prop} {Q : β → β → Prop} {f : α → List β}
    {as as' : List α} (h : List.Forall₂ P as as')
    (hf : ∀ a a', P a a' → List.Forall₂ Q (f a) (f a')) :
    List.Forall₂ Q (as.flatMap f) (as'.flatMap f) := by
  induction h with
  | nil => exact .nil
  | cons ha _ ih => exact List.rel_append (hf _ _ ha) ih

/-! ## Where lines agree -/

section

variable {R : Token → Token → Prop} (hline : ∀ line line', LineOf R line line' → line = line')

include hline

theorem Semester.Resembles.eq {s s' : Semester} (h : s.Resembles R s') : s = s' := by
  obtain ⟨number, line, courses⟩ := s
  obtain ⟨number', line', courses'⟩ := s'
  obtain ⟨rfl, hl, rfl⟩ := h
  obtain rfl : line = line' := hline _ _ hl
  rfl

theorem Entry.Resembles.eq {e e' : Entry} (h : e.Resembles R e') : e = e' := by
  cases h with
  | semester hs => rw [hs.eq hline]
  | @program p p' hp =>
    obtain ⟨title, semesters⟩ := p
    obtain ⟨title', semesters'⟩ := p'
    obtain ⟨rfl, hs⟩ := hp
    have hsemesters : semesters = semesters' := by
      rw [← List.forall₂_eq_eq_eq]
      exact hs.imp fun _ _ h => h.eq hline
    rw [hsemesters]

theorem eq_of_forall₂_resembles {es es' : List Entry}
    (h : List.Forall₂ (Entry.Resembles R) es es') : es = es' := by
  rw [← List.forall₂_eq_eq_eq]
  exact h.imp fun _ _ h => h.eq hline

end

/-! ## Tables -/

theorem sameWord_iff {a b : String} :
    sameWord a b = true ↔ a.toList.map Char.toLower = b.toList.map Char.toLower :=
  beq_iff_eq

/-- A word is spelled like another one exactly when every recasing of it is. -/
theorem sameWord_congr {a a' : String} (h : sameWord a a' = true) (b : String) :
    sameWord a b = sameWord a' b := by
  rw [sameWord, sameWord, sameWord_iff.1 h]

namespace Table

theorem fieldOfIdentifier?_congr {word word' : String} (h : sameWord word word' = true) :
    fieldOfIdentifier? word = fieldOfIdentifier? word' := by
  have hword : sameWord word = sameWord word' := funext (sameWord_congr h)
  rw [fieldOfIdentifier?, fieldOfIdentifier?, hword]

variable {R : Token → Token → Prop} (hR : Interchangeable R) {t t' : Token} (h : R t t')

include hR h

theorem plan_congr : plan t = plan t' := by
  rw [plan, plan, hR.kind h]

theorem program_congr : program t = program t' := by
  rw [program, program, hR.kind h]

theorem semester_congr : semester t = semester t' := by
  rw [semester, semester, hR.kind h]

theorem course_congr : course t = course t' := by
  rw [course, course, hR.kind h, fieldOfIdentifier?_congr (hR.word h)]

theorem prerequisites_congr : prerequisites t = prerequisites t' := by
  rw [prerequisites, prerequisites, hR.kind h]

end Table

namespace Parser

open StudyPlan.Derivation

variable {R : Token → Token → Prop} {α β γ δ σ : Type}

/-- The outcomes of two runs that go side by side. -/
inductive Parallel (R : Token → Token → Prop) (V : α → β → Prop) :
    Except SyntaxError (α × List Token) → Except SyntaxError (β × List Token) → Prop
  | read {a : α} {b : β} {rest rest' : List Token} :
      V a b → List.Forall₂ R rest rest' → Parallel R V (.ok (a, rest)) (.ok (b, rest'))
  | fail {e e' : SyntaxError} : e.Resembles R e' → Parallel R V (.error e) (.error e')

/-- Wherever two token lists resemble each other, the two parsers go side by side, and the
values that they read are related by `V`. -/
def Respects (R : Token → Token → Prop) (V : α → β → Prop) (p : Parser α) (q : Parser β) :
    Prop :=
  ∀ ts ts', List.Forall₂ R ts ts' → Parallel R V (p ts).result (q ts').result

/-! ## Sequences and single tokens -/

theorem respects_pure {V : α → β → Prop} {a : α} {b : β} (h : V a b) :
    Respects R V (pure a) (pure b) :=
  fun _ _ hts => .read h hts

theorem respects_emit (e e' : Event) : Respects R (· = ·) (emit e) (emit e') :=
  fun _ _ hts => .read rfl hts

theorem respects_emitAll (es es' : List Event) :
    Respects R (· = ·) (emitAll es) (emitAll es') :=
  fun _ _ hts => .read rfl hts

/-- Two sequences go side by side when their first parts do, and their second parts do
wherever the first ones have left them. -/
theorem Parallel.bind {V : α → β → Prop} {W : γ → δ → Prop} {p : Parser α} {q : Parser β}
    {f : α → Parser γ} {g : β → Parser δ} {ts ts' : List Token}
    (h : Parallel R V (p ts).result (q ts').result)
    (hf : ∀ a b rest rest', (p ts).result = .ok (a, rest) → V a b → List.Forall₂ R rest rest' →
      Parallel R W (f a rest).result (g b rest').result) :
    Parallel R W ((p >>= f) ts).result ((q >>= g) ts').result := by
  generalize hr : (p ts).result = r at h
  generalize hr' : (q ts').result = r' at h
  cases h with
  | read hv hrest =>
    rw [result_bind_of_ok hr, result_bind_of_ok hr']
    exact hf _ _ _ _ hr hv hrest
  | fail he =>
    rw [result_bind_of_error hr, result_bind_of_error hr']
    exact .fail he

theorem Respects.bind {V : α → β → Prop} {W : γ → δ → Prop} {p : Parser α} {q : Parser β}
    {f : α → Parser γ} {g : β → Parser δ} (hp : Respects R V p q)
    (hf : ∀ a b, V a b → Respects R W (f a) (g b)) : Respects R W (p >>= f) (q >>= g) :=
  fun ts ts' hts => (hp ts ts' hts).bind fun a b _ _ _ hv hrest => hf a b hv _ _ hrest

theorem respects_lead : Respects R R lead lead := by
  intro ts ts' hts
  cases hts with
  | nil => exact .fail (.endOfTokens _)
  | cons ht hts => exact .read ht hts

section

variable (hR : Interchangeable R)

include hR

theorem isFinish_congr {t t' : Token} (h : R t t') : t.isFinish = t'.isFinish := by
  rw [Token.isFinish, Token.isFinish, hR.kind h]

/-- The tokens that are read stand for each other, and they are of the kind wanted. -/
theorem respects_token (kind : Kind) (wanted : Expectation) :
    Respects R (fun t t' => R t t' ∧ t.kind = kind) (token kind wanted) (token kind wanted) := by
  intro ts ts' hts
  cases hts with
  | nil => exact .fail (.endOfTokens _)
  | @cons t t' ts ts' ht hts =>
    rw [token, token, ← isFinish_congr hR ht, ← hR.kind ht]
    split
    · exact .fail (.endOfTokens _)
    · split
      · next hk => exact .read ⟨ht, hk⟩ hts
      · exact .fail (.unexpected _ ht)

theorem respects_delimiter (d : Delimiter) (wanted : Expectation) :
    Respects R (fun t t' => R t t' ∧ t.kind = .delimiter d) (delimiter d wanted)
      (delimiter d wanted) :=
  respects_token hR _ wanted

theorem respects_quoted (wanted : Expectation) :
    Respects R (· = ·) (quoted wanted) (quoted wanted) :=
  (respects_token hR _ wanted).bind fun _ _ h =>
    respects_pure (hR.text h.1 (by rw [h.2]; rfl))

theorem respects_numeral (wanted : Expectation) :
    Respects R (· = ·) (numeral wanted) (numeral wanted) :=
  (respects_token hR _ wanted).bind fun _ _ h =>
    respects_pure (hR.text h.1 (by rw [h.2]; rfl))

theorem respects_boolean (wanted : Expectation) :
    Respects R (· = ·) (boolean wanted) (boolean wanted) :=
  (respects_token hR _ wanted).bind fun _ _ h => respects_pure (sameWord_congr (hR.word h.1) _)

theorem respects_number (wanted : Expectation) :
    Respects R (· = ·) (number wanted) (number wanted) := by
  refine (respects_token hR _ wanted).bind fun t t' ⟨ht, hk⟩ => ?_
  have htext : t.text = t'.text := hR.text ht (by rw [hk]; rfl)
  rw [← htext]
  split
  · exact respects_pure rfl
  · intro ts ts' _
    rw [fail_apply, fail_apply, htext]
    exact .fail (htext ▸ .outOfRange ht hk)

/-! ## Bodies -/

variable {name : String} {table : Token → Action σ} {ending : Ending} {enter : σ → Parser α}
  {Part : List Token → α → List Token → Prop} {Passed : Token → Prop} {V : α → α → Prop}

omit hR in
theorem parallel_bodyEnd {ts ts' : List Token} (h : List.Forall₂ R ts ts') :
    Parallel R (List.Forall₂ V) (bodyEnd name ending ts : Logged _ (List α × _)).result
      (bodyEnd name ending ts' : Logged _ (List α × _)).result := by
  cases ending with
  | anywhere => exact .read .nil h
  | closedBy d => exact .fail (.endOfTokens _)

omit hR in
theorem Parallel.map_cons {r r' : Except SyntaxError (List α × List Token)} {a b : α}
    (hab : V a b) (h : Parallel R (List.Forall₂ V) r r') :
    Parallel R (List.Forall₂ V) (r.map fun (as, rest) => (a :: as, rest))
      (r'.map fun (bs, rest) => (b :: bs, rest)) := by
  cases h with
  | read hv hrest => exact .read (.cons hab hv) hrest
  | fail he => exact .fail he

/-- Two bodies go side by side when their parts do. -/
theorem respects_body (hfit : Fits table enter Part Passed)
    (htable : ∀ {t t'}, R t t' → table t = table t')
    (henter : ∀ what, Respects R V (enter what) (enter what)) :
    Respects R (List.Forall₂ V) (body name table ending enter)
      (body name table ending enter) := by
  intro ts
  induction ts using body_rounds hfit with
  | nil =>
    rintro _ ⟨⟩
    rw [body_nil]
    exact parallel_bodyEnd .nil
  | finish t ts ht =>
    rintro _ (_ | ⟨htt', hts⟩)
    rw [body_finish ht, body_finish (isFinish_congr hR htt' ▸ ht)]
    exact parallel_bodyEnd (.cons htt' hts)
  | close t ts ht hclose =>
    rintro _ (_ | ⟨htt', hts⟩)
    rw [body_close ht hclose, body_close (isFinish_congr hR htt' ▸ ht) (htable htt' ▸ hclose)]
    exact .read .nil hts
  | skip t ts ht hskip ih =>
    rintro _ (_ | ⟨htt', hts⟩)
    rw [body_skip ht hskip, body_skip (isFinish_congr hR htt' ▸ ht) (htable htt' ▸ hskip)]
    exact ih _ hts
  | part t ts what ht hwhat ih =>
    rintro _ (_ | ⟨htt', hts⟩)
    rw [body_enter hfit ht hwhat,
      body_enter hfit (isFinish_congr hR htt' ▸ ht) (htable htt' ▸ hwhat)]
    refine (henter what _ _ (.cons htt' hts)).bind fun a b rest rest' hread hab hrest => ?_
    exact Parallel.map_cons hab (ih a rest hread rest' hrest)

/-! ## Constructs -/

theorem respects_prerequisites : Respects R (List.Forall₂ (· = ·)) prerequisites prerequisites :=
  (respects_delimiter hR _ _).bind fun _ _ _ =>
    respects_body hR (fits_prerequisites _) (Table.prerequisites_congr hR) fun _ =>
      respects_numeral hR _

theorem respects_fieldEnd (f : Field) :
    Respects R (fun t t' => R t t' ∧ t.kind = .delimiter .semicolon) (fieldEnd f) (fieldEnd f) :=
  respects_delimiter hR _ _

/-- The line of a field is of no consequence for its course. -/
theorem respects_fieldValue (f : Field) (line line' : Nat) :
    Respects R Detail.SameRecord (fieldValue f line) (fieldValue f line') := by
  cases f with
  | name | code | description | area =>
    refine (respects_quoted hR _).bind fun text _ htext => ?_
    subst htext
    exact (respects_fieldEnd hR _).bind fun _ _ _ => respects_pure fun _ => rfl
  | credits =>
    refine (respects_number hR _).bind fun amount _ hamount => ?_
    subst hamount
    exact (respects_fieldEnd hR _).bind fun _ _ _ => respects_pure fun _ => rfl
  | mandatory =>
    refine (respects_boolean hR _).bind fun value _ hvalue => ?_
    subst hvalue
    exact (respects_fieldEnd hR _).bind fun _ _ _ => respects_pure fun _ => rfl
  | prerequisites =>
    refine (respects_prerequisites hR).bind fun codes _ hcodes => ?_
    rw [List.forall₂_eq_eq_eq] at hcodes
    subst hcodes
    exact respects_pure fun _ => rfl

theorem respects_field (f : Field) : Respects R Detail.SameRecord (field f) (field f) :=
  respects_lead.bind fun w w' _ => (respects_delimiter hR _ _).bind fun _ _ _ =>
    respects_fieldValue hR f w.line w'.line

theorem respects_course (n : UInt32) : Respects R (· = ·) (course n) (course n) := by
  refine respects_lead.bind fun _ _ _ => (respects_delimiter hR _ _).bind fun _ _ _ => ?_
  refine (respects_numeral hR _).bind fun code _ hcode => ?_
  subst hcode
  refine (respects_delimiter hR _ _).bind fun _ _ _ => (respects_emit _ _).bind fun _ _ _ => ?_
  refine (respects_body hR fits_course (Table.course_congr hR) (respects_field hR)).bind ?_
  intro details details' hdetails
  refine (respects_emitAll _ _).bind fun _ _ _ => (respects_emit _ _).bind fun _ _ _ => ?_
  exact respects_pure (Course.ofDetails_eq hdetails code n)

theorem respects_semester : Respects R (Semester.Resembles R) semester semester := by
  refine respects_lead.bind fun w w' hw => (respects_delimiter hR _ _).bind fun _ _ _ => ?_
  refine (respects_number hR _).bind fun n _ hn => ?_
  subst hn
  refine (respects_delimiter hR _ _).bind fun _ _ _ => (respects_emit _ _).bind fun _ _ _ => ?_
  refine (respects_body hR (fits_semester n) (Table.semester_congr hR) fun _ =>
    respects_course hR n).bind fun courses courses' hcourses => ?_
  rw [List.forall₂_eq_eq_eq] at hcourses
  exact (respects_emit _ _).bind fun _ _ _ => respects_pure ⟨rfl, ⟨w, w', hw, rfl, rfl⟩, hcourses⟩

theorem respects_programBody :
    Respects R (List.Forall₂ (Semester.Resembles R)) programBody programBody := by
  intro ts ts' hts
  cases hts with
  | nil => exact .read .nil .nil
  | @cons t t' ts ts' ht hts =>
    have hbracket : t.isDelimiter .openBracket = t'.isDelimiter .openBracket := by
      rw [Token.isDelimiter, Token.isDelimiter, hR.kind ht]
    rw [programBody, programBody, ← hbracket]
    split
    · exact respects_body hR fits_program (Table.program_congr hR)
        (fun _ => respects_semester hR) _ _ hts
    · exact .read .nil (.cons ht hts)

theorem respects_program : Respects R (Program.Resembles R) program program := by
  refine respects_lead.bind fun _ _ _ => (respects_delimiter hR _ _).bind fun _ _ _ => ?_
  refine (respects_quoted hR _).bind fun title _ htitle => (respects_emit _ _).bind fun _ _ _ => ?_
  refine (respects_programBody hR).bind fun semesters semesters' hsemesters => ?_
  exact respects_pure ⟨htitle, hsemesters⟩

theorem respects_entry (what : TopLevel) :
    Respects R (Entry.Resembles R) (entry what) (entry what) := by
  cases what with
  | program => exact (respects_program hR).bind fun _ _ h => respects_pure (.program h)
  | semester => exact (respects_semester hR).bind fun _ _ h => respects_pure (.semester h)

/-- **Two plans whose tokens stand for each other are read side by side.** -/
theorem respects_entries : Respects R (List.Forall₂ (Entry.Resembles R)) entries entries :=
  respects_body hR fits_plan (Table.plan_congr hR) (respects_entry hR)

end

end Parser
end StudyPlan
