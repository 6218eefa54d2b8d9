import StudyPlan.Failure
import StudyPlan.Proofs.Acceptance
import StudyPlan.Proofs.History
import StudyPlan.Proofs.Relexing

/-!
# A written plan is read back

Writing entries and reading the source again gives the curriculum that the entries add
up to.  Only the lines of semesters are new, for entries come from anywhere and the
source has lines of its own.

## Up to lines

A semester remembers the line on which it begins, and nothing else of its place.  So
two entries that differ in lines at most are the same without them (`Entry.unplaced`).
`ReadAs` puts both halves into one statement about a part of the language: tokens that
say the segments `ss` are read as `x` up to lines, and the lines are those of the
tokens.  It is proved for one construct after the other, from the fields outwards; each
step says what the tokens of the construct itself are and leaves its body to the step
before.

Since parts are read the same whatever follows them, what is written is a run of parts
in each body, and the only tokens passed over are the commas between course codes.
-/

namespace StudyPlan

open StudyPlan.Derivation Segment

/-! ## Plans without lines -/

/-- A semester without its line. -/
def Semester.unplaced (s : Semester) : Semester :=
  { s with line := 0 }

/-- An entry without lines. -/
def Entry.unplaced : Entry → Entry
  | .program p => .program { p with semesters := p.semesters.map Semester.unplaced }
  | .semester s => .semester s.unplaced

/-- The lines of the semesters of an entry. -/
def Entry.lines : Entry → List Nat
  | .program p => p.semesters.map Semester.line
  | .semester s => [s.line]

namespace Curriculum

/-- A curriculum without the lines of its blocks. -/
def unplaced (c : Curriculum) : Curriculum :=
  { c with blocks := c.blocks.map fun b => ⟨b.number, 0⟩ }

theorem unplaced_addSemester (c : Curriculum) (s : Semester) :
    (c.addSemester s).unplaced = c.unplaced.addSemester s.unplaced := by
  have hopen : (c.openBlock ⟨s.number, s.line⟩).unplaced = c.unplaced.openBlock ⟨s.number, 0⟩ := by
    rw [openBlock, openBlock, unplaced, unplaced, List.map_append]
    rfl
  rw [addSemester, addSemester, Semester.unplaced, ← hopen]
  exact (List.foldl_hom unplaced fun _ _ => rfl).symm

theorem unplaced_addEntry (c : Curriculum) (e : Entry) :
    (c.addEntry e).unplaced = c.unplaced.addEntry e.unplaced := by
  cases e with
  | semester s => exact unplaced_addSemester c s
  | program p =>
    rw [addEntry, Entry.unplaced, addEntry, List.foldl_map]
    exact (List.foldl_hom unplaced fun _ _ => (unplaced_addSemester _ _).symm).symm

/-- Entries that differ in lines at most add up to curricula that differ in the lines of
their blocks at most. -/
theorem unplaced_ofEntries (es : List Entry) :
    (ofEntries es).unplaced = ofEntries (es.map Entry.unplaced) := by
  rw [ofEntries, ofEntries, List.foldl_map]
  exact (List.foldl_hom unplaced fun _ _ => (unplaced_addEntry _ _).symm).symm

/-- The lines of the blocks are those of the semesters, in the same order. -/
theorem lines_ofEntries (es : List Entry) :
    (ofEntries es).blocks.map Block.line = es.flatMap Entry.lines := by
  rw [blocks_ofEntries, List.map_map, List.map_flatMap]
  refine List.flatMap_congr fun e _ => ?_
  cases e <;> rfl

end Curriculum

/-! ## Reading up to lines -/

/-- Tokens of any other kind have no say in the lines of semesters. -/
theorem semestreLines_cons_of_ne {t : Token} (h : t.kind ≠ .keyword .semestre)
    (ts : List Token) : semestreLines (t :: ts) = semestreLines ts := by
  simp [semestreLines, h]

theorem semestreLines_cons_of_kind {t : Token} {k : Kind} (h : t.kind = k)
    (hk : k ≠ .keyword .semestre) (ts : List Token) :
    semestreLines (t :: ts) = semestreLines ts :=
  semestreLines_cons_of_ne (h ▸ hk) ts

theorem semestreLines_cons {t : Token} (h : t.kind = .keyword .semestre) (ts : List Token) :
    semestreLines (t :: ts) = t.line :: semestreLines ts := by
  simp [semestreLines, h]

section ReadAs

variable {α : Type} {Part : List Token → α → List Token → Prop} {Passed : Token → Prop}
  {strip : α → α} {lines : α → List Nat}

/-- Tokens that say the segments `ss` are read as `x`, whatever follows them, except that
the lines are those of the tokens. -/
def ReadAs (Part : List Token → α → List Token → Prop) (strip : α → α) (lines : α → List Nat)
    (ss : List Segment) (x : α) : Prop :=
  ∀ ts, List.Forall₂ Says ts ss → ∃ y, strip y = strip x ∧ lines y = semestreLines ts ∧
    ∀ rest, Part (ts ++ rest) y rest

/-- The same of a part that has no lines. -/
abbrev ReadBare (Part : List Token → α → List Token → Prop) (ss : List Segment) (x : α) :
    Prop :=
  ReadAs Part id (fun _ => []) ss x

/-- The same of a run of parts that have no lines. -/
abbrev ReadAllBare (Parts : List Token → List α → List Token → Prop) (ss : List Segment)
    (xs : List α) : Prop :=
  ReadAs Parts (List.map id) (List.flatMap fun _ => []) ss xs

theorem exists_append_of_says_append {ts : List Token} {ss ss' : List Segment}
    (h : List.Forall₂ Says ts (ss ++ ss')) :
    ∃ us us', ts = us ++ us' ∧ List.Forall₂ Says us ss ∧ List.Forall₂ Says us' ss' :=
  ⟨_, _, (List.take_append_drop ss.length ts).symm, List.forall₂_take_append _ _ _ h,
    List.forall₂_drop_append _ _ _ h⟩

/-- Nothing is read as no parts. -/
theorem readAs_nil : ReadAs (Run Part Passed) (List.map strip) (List.flatMap lines) [] [] := by
  rintro _ ⟨⟩
  exact ⟨[], rfl, rfl, fun rest => .stop rest⟩

/-- What is read as a part is read as a run of this part alone. -/
theorem ReadAs.run {ss : List Segment} {x : α} (h : ReadAs Part strip lines ss x) :
    ReadAs (Run Part Passed) (List.map strip) (List.flatMap lines) ss [x] := by
  intro ts hts
  obtain ⟨y, hy, hlines, hpart⟩ := h ts hts
  refine ⟨[y], congrArg (fun a => [a]) hy, ?_, fun rest => .part (hpart rest) (.stop rest)⟩
  rw [List.flatMap_singleton, hlines]

theorem ReadAs.append {ss ss' : List Segment} {xs xs' : List α}
    (h : ReadAs (Run Part Passed) (List.map strip) (List.flatMap lines) ss xs)
    (h' : ReadAs (Run Part Passed) (List.map strip) (List.flatMap lines) ss' xs') :
    ReadAs (Run Part Passed) (List.map strip) (List.flatMap lines) (ss ++ ss') (xs ++ xs') := by
  intro ts hts
  obtain ⟨us, us', rfl, hus, hus'⟩ := exists_append_of_says_append hts
  obtain ⟨ys, hys, hlines, hrun⟩ := h us hus
  obtain ⟨ys', hys', hlines', hrun'⟩ := h' us' hus'
  refine ⟨ys ++ ys', ?_, ?_, fun rest => ?_⟩
  · rw [List.map_append, List.map_append, hys, hys']
  · rw [List.flatMap_append, semestreLines_append, hlines, hlines']
  · rw [List.append_assoc]
    exact (hrun _).append (hrun' rest)

/-- Parts written one behind the other are read as a run of these parts. -/
theorem readAs_flatMap {write : α → List Segment} {xs : List α}
    (h : ∀ x ∈ xs, ReadAs Part strip lines (write x) x) :
    ReadAs (Run Part Passed) (List.map strip) (List.flatMap lines) (xs.flatMap write) xs := by
  induction xs with
  | nil => exact readAs_nil
  | cons x xs ih =>
    rw [List.forall_mem_cons] at h
    exact h.1.run.append (ih h.2)

/-- A run of parts and the bracket that closes it. -/
theorem ReadAs.closed {ss : List Segment} {xs : List α}
    (h : ReadAs (Run Part Passed) (List.map strip) (List.flatMap lines) ss xs) {d : Delimiter}
    {ts : List Token} (hts : List.Forall₂ Says ts (ss ++ [.delimiter d])) :
    ∃ ys closing, ys.map strip = xs.map strip ∧ ys.flatMap lines = semestreLines ts ∧
      closing.kind = .delimiter d ∧ ∀ rest, Run Part Passed (ts ++ rest) ys (closing :: rest) := by
  obtain ⟨us, us', rfl, hus, hus'⟩ := exists_append_of_says_append hts
  obtain _ | ⟨hclosing, ⟨⟩⟩ := hus'
  obtain ⟨ys, hys, hlines, hrun⟩ := h us hus
  have hk := hclosing.delimiter
  refine ⟨ys, _, hys, ?_, hk, fun rest => ?_⟩
  · rw [hlines, semestreLines_append, semestreLines_cons_of_kind hk nofun]
    exact (List.append_nil _).symm
  · rw [List.append_assoc]
    exact hrun _

/-- The same of parts without lines, which are read as they are. -/
theorem ReadAllBare.closed {ss : List Segment} {xs : List α}
    (h : ReadAllBare (Run Part Passed) ss xs) {d : Delimiter}
    {ts : List Token} (hts : List.Forall₂ Says ts (ss ++ [.delimiter d])) :
    semestreLines ts = [] ∧ ∃ closing : Token, closing.kind = .delimiter d ∧
      ∀ rest, Run Part Passed (ts ++ rest) xs (closing :: rest) := by
  obtain ⟨ys, closing, hys, hlines, hk, hrun⟩ := ReadAs.closed h hts
  obtain rfl : ys = xs := by simpa using hys
  exact ⟨by rw [← hlines, List.flatMap_eq_nil_iff.2 fun _ _ => rfl], closing, hk, hrun⟩

end ReadAs

/-! ## Words and numbers -/

theorem ne_semestre_of_heads {w : Token} {f : Field} (h : Heads w f) :
    w.kind ≠ .keyword .semestre := by
  intro hk
  cases f with
  | name | code | credits | description | mandatory => cases hk.symm.trans h
  | prerequisites => rcases h with h | ⟨h, -⟩ <;> cases hk.symm.trans h
  | area => cases hk.symm.trans h.1

theorem ne_semestre_of_valueOf {line : Nat} {f : Field} {v : Token} {d : Detail}
    (h : ValueOf line f v d) : v.kind ≠ .keyword .semestre := by
  intro hk
  cases h with
  | credits hv => cases hk.symm.trans hv.1
  | name hv | code hv | description hv | mandatory hv | area hv => cases hk.symm.trans hv


theorem Numeral.digits_of_isCode {s : String} (h : IsCode s) : digits s = s.toList := by
  unfold digits
  split
  · next rest hs =>
    have hplus := h.2 '+' (by rw [hs]; exact List.mem_cons_self ..)
    exact absurd hplus (by decide)
  · rfl

/-- A number that was written is the number that is read. -/
theorem Says.writes {t : Token} {n : UInt32} (h : Says t (Layout.numeral n)) : Writes t n := by
  obtain ⟨hk, ht⟩ := h.number
  have hcode := Layout.isCode_toString n.toNat
  refine ⟨hk, ?_, ?_⟩
  · rw [ht, Numeral.isNumeral, Numeral.digits_of_isCode hcode, Bool.and_eq_true,
      List.all_eq_true, Bool.not_eq_true', List.isEmpty_eq_false_iff]
    exact hcode
  · rw [ht, Numeral.value, Numeral.digits_of_isCode hcode, Nat.toString_eq_repr,
      Nat.toList_repr, Nat.ofDigitChars_ten_toDigits]

/-! ## Courses -/

namespace Course

/-- The fields that a written course has. -/
def details (c : Course) : List Detail :=
  [.name c.name] ++ ([.credits c.credits] ++ ((c.description.map Detail.description).toList ++
    ((c.area.map Detail.area).toList ++ ((c.mandatory.map Detail.mandatory).toList ++
      [.prerequisites c.prerequisites]))))

/-- These fields make the course. -/
theorem ofDetails_details (c : Course) : ofDetails c.code c.semester c.details = c := by
  obtain ⟨code, semester, name, credits, description, area, mandatory, prerequisites⟩ := c
  cases description <;> cases area <;> cases mandatory <;> rfl

end Course

namespace Layout

variable {l : Layout}

/-- A field is read if its word heads it and its value is one for it. -/
theorem readBare_field {word : String} {value : Segment} {f : Field} {d : Detail}
    (hheads : ∀ w : Token, w.kind = .ofWord word → w.text = word → Heads w f)
    (hvalue : ∀ v, Says v value → ∀ line, ValueOf line f v d) :
    ReadBare FieldOf (field word value) d := by
  rintro _ (_ | ⟨hw, _ | ⟨hcolon, _ | ⟨hv, _ | ⟨hsemicolon, ⟨⟩⟩⟩⟩⟩)
  have hhead := hheads _ hw.word.1 hw.word.2
  have hof := hvalue _ hv
  refine ⟨d, rfl, ?_, fun rest => .single hhead hcolon.delimiter (hof _) hsemicolon.delimiter⟩
  rw [semestreLines_cons_of_ne (ne_semestre_of_heads hhead),
    semestreLines_cons_of_kind hcolon.delimiter nofun,
    semestreLines_cons_of_ne (ne_semestre_of_valueOf (hof 0)),
    semestreLines_cons_of_kind hsemicolon.delimiter nofun]
  rfl

theorem readAllBare_field? {β : Type} {word : String} {write : β → Segment} {value : Option β}
    {detail : β → Detail} (h : ∀ b, ReadBare FieldOf (field word (write b)) (detail b)) :
    ReadAllBare FieldsOf (field? word (value.map write)) (value.map detail).toList := by
  cases value with
  | none => exact readAs_nil
  | some b => exact (h b).run

/-- Where any quoted text is a value, what was quoted is the value. -/
theorem valueOf_quote {v : Token} {s : String} {f : Field} {detail : String → Detail} {line : Nat}
    (hof : v.kind = .quoted → ValueOf line f v (detail v.text)) (h : Says v (l.quote s)) :
    ValueOf line f v (detail s) := by
  obtain ⟨hk, rfl⟩ := h.quoted
  exact hof hk

theorem valueOf_truth {v : Token} {b : Bool} {line : Nat} (h : Says v (truth b)) :
    ValueOf line .mandatory v (.mandatory b) := by
  obtain ⟨hk, ht⟩ := h.word
  have hboolean : v.kind = .boolean := by
    rw [hk]
    cases b <;> decide
  have hvalue : sameWord v.text "true" = b := by
    rw [ht]
    cases b <;> decide
  have hof : ValueOf line .mandatory v _ := .mandatory hboolean
  rwa [hvalue] at hof

/-- Codes with commas between them are read as the codes. -/
theorem readAllBare_codes (ps : List String) : ReadAllBare CodesOf (codes ps) ps := by
  have hcode : ∀ p : String, ReadBare CodeOf [.number p.toList] p := by
    rintro p _ (_ | ⟨ht, ⟨⟩⟩)
    obtain ⟨hk, rfl⟩ := ht.number
    refine ⟨_, rfl, ?_, fun rest => .intro hk⟩
    rw [semestreLines_cons_of_kind hk nofun]
    rfl
  have hcomma : ReadAllBare CodesOf [.delimiter .comma] [] := by
    rintro _ (_ | ⟨ht, ⟨⟩⟩)
    have hk := ht.delimiter
    refine ⟨[], rfl, ?_, fun rest => ?_⟩
    · rw [semestreLines_cons_of_kind hk nofun]
      rfl
    · exact .pass (isFinish_eq_false hk nofun) (by rw [hk]; exact ⟨nofun, nofun⟩) (.stop _)
  fun_induction codes ps with
  | case1 => exact readAs_nil
  | case2 p => exact (hcode p).run
  | case3 p q ps ih => exact (hcode p).run.append (hcomma.append ih)

theorem readBare_prerequisites (ps : List String) :
    ReadBare FieldOf (prerequisites ps) (.prerequisites ps) := by
  rintro _ (_ | ⟨hw, _ | ⟨hcolon, _ | ⟨hopening, hts⟩⟩⟩)
  obtain ⟨hlines, closing, hclosing, hrun⟩ := (readAllBare_codes ps).closed hts
  obtain ⟨hkind, htext⟩ := hw.word
  have hidentifier : Kind.ofWord "Prerrequisitos" = .identifier := by decide
  rw [hidentifier] at hkind
  have hhead : sameWord "Prerrequisitos" "prerrequisitos" = true := by decide
  refine ⟨_, rfl, ?_, fun rest => .prerequisites
    (.inr ⟨hkind, "prerrequisitos", by decide, htext ▸ hhead⟩) hcolon.delimiter
    hopening.delimiter (hrun rest) hclosing⟩
  rw [semestreLines_cons_of_kind hkind nofun,
    semestreLines_cons_of_kind hcolon.delimiter nofun,
    semestreLines_cons_of_kind hopening.delimiter nofun, hlines]

/-- The fields of a course are read as what makes the course. -/
theorem readAllBare_fields (c : Course) : ReadAllBare FieldsOf (l.fields c) c.details := by
  have hname : ReadBare FieldOf (field "Nombre" (l.quote c.name)) (.name c.name) :=
    readBare_field (f := .name) (fun w hk _ => hk.trans (by decide))
      fun v hv _ => valueOf_quote .name hv
  have hcredits : ReadBare FieldOf (field "Creditos" (numeral c.credits)) (.credits c.credits) :=
    readBare_field (f := .credits) (fun w hk _ => hk.trans (by decide))
      fun v hv _ => .credits hv.writes
  have hdescription : ∀ s, ReadBare FieldOf (field "Descripcion" (l.quote s)) (.description s) :=
    fun s => readBare_field (f := .description) (fun w hk _ => hk.trans (by decide))
      fun v hv _ => valueOf_quote .description hv
  have harea : ∀ s, ReadBare FieldOf (field "Area" (l.quote s)) (.area s) := fun s =>
    readBare_field (f := .area) (fun w hk ht => ⟨hk.trans (by decide), by rw [ht]; decide⟩)
      fun v hv _ => valueOf_quote .area hv
  have hmandatory : ∀ b, ReadBare FieldOf (field "Obligatorio" (truth b)) (.mandatory b) :=
    fun b => readBare_field (f := .mandatory) (fun w hk _ => hk.trans (by decide))
      fun v hv _ => valueOf_truth hv
  exact hname.run.append (hcredits.run.append ((readAllBare_field? hdescription).append
    ((readAllBare_field? harea).append ((readAllBare_field? hmandatory).append
      (readBare_prerequisites c.prerequisites).run))))

/-- A course is read as it is. -/
theorem readBare_course (c : Course) : ReadBare (CourseOf c.semester) (l.course c) c := by
  rintro _ (_ | ⟨hw, _ | ⟨hcolon, _ | ⟨hcode, _ | ⟨hopening, hts⟩⟩⟩⟩)
  obtain ⟨hlines, closing, hclosing, hrun⟩ := (readAllBare_fields c).closed hts
  have hcurso : Kind.ofWord "Curso" = .keyword .curso := by decide
  have hkind := hw.word.1.trans hcurso
  obtain ⟨hnumber, htext⟩ := hcode.number
  refine ⟨c, rfl, ?_, fun rest => ?_⟩
  · rw [semestreLines_cons_of_kind hkind nofun,
      semestreLines_cons_of_kind hcolon.delimiter nofun,
      semestreLines_cons_of_kind hnumber nofun,
      semestreLines_cons_of_kind hopening.delimiter nofun, hlines]
  · have hcourse := CourseOf.intro (n := c.semester) hkind hcolon.delimiter hnumber
      hopening.delimiter (hrun rest) hclosing
    rw [htext, Course.ofDetails_details] at hcourse
    exact hcourse

/-! ## Semesters, programs and whole plans -/

/-- A semester is read as it is, except that it begins where its word stands. -/
theorem readAs_semester {s : Semester} (h : s.Writable) :
    ReadAs SemesterOf Semester.unplaced (fun s => [s.line]) (l.semester s) s := by
  rintro _ (_ | ⟨hw, _ | ⟨hcolon, _ | ⟨hnumber, _ | ⟨hopening, hts⟩⟩⟩⟩)
  have hcourse : ∀ c ∈ s.courses, ReadBare (CourseOf s.number) (l.course c) c :=
    fun c hc => (h c hc).semester ▸ readBare_course c
  have hcourses : ReadAllBare (CoursesOf s.number) (s.courses.flatMap l.course) s.courses :=
    readAs_flatMap hcourse
  obtain ⟨hlines, closing, hclosing, hrun⟩ := hcourses.closed hts
  have hsemestre : Kind.ofWord "Semestre" = .keyword .semestre := by decide
  have hkind := hw.word.1.trans hsemestre
  refine ⟨⟨s.number, Token.line _, s.courses⟩, rfl, ?_, fun rest => .intro hkind hcolon.delimiter
    hnumber.writes hopening.delimiter (hrun rest) hclosing⟩
  rw [semestreLines_cons hkind, semestreLines_cons_of_kind hcolon.delimiter nofun,
    semestreLines_cons_of_kind hnumber.writes.1 nofun,
    semestreLines_cons_of_kind hopening.delimiter nofun, hlines]

/-- An entry is read as it is, except for the lines of its semesters. -/
theorem readAs_entry {e : Entry} (h : e.Writable) :
    ReadAs EntryOf Entry.unplaced Entry.lines (l.entry e) e := by
  cases e with
  | semester s =>
    intro ts hts
    obtain ⟨s', hs', hlines, hof⟩ := readAs_semester h ts hts
    exact ⟨.semester s', congrArg Entry.semester hs', hlines, fun rest => .semester (hof rest)⟩
  | program p =>
    rintro _ (_ | ⟨hw, _ | ⟨hcolon, _ | ⟨htitle, _ | ⟨hopening, hts⟩⟩⟩⟩)
    have hsemesters : ReadAs SemestersOf (List.map Semester.unplaced)
        (List.flatMap fun s => [s.line]) (p.semesters.flatMap l.semester) p.semesters :=
      readAs_flatMap fun s hs => readAs_semester (h.2 s hs)
    obtain ⟨ss, closing, hss, hlines, hclosing, hrun⟩ := hsemesters.closed hts
    have hcarrera : Kind.ofWord "Carrera" = .keyword .carrera := by decide
    have hkind := hw.word.1.trans hcarrera
    obtain ⟨hquoted, htext⟩ := htitle.quoted
    refine ⟨_, ?_, ?_, fun rest => .program (.closed hkind hcolon.delimiter hquoted
      hopening.delimiter (hrun rest) hclosing)⟩
    · rw [Entry.unplaced, Entry.unplaced, hss, htext]
    · rw [Entry.lines, semestreLines_cons_of_kind hkind nofun,
        semestreLines_cons_of_kind hcolon.delimiter nofun,
        semestreLines_cons_of_kind hquoted nofun,
        semestreLines_cons_of_kind hopening.delimiter nofun, ← hlines,
        List.map_eq_flatMap]

/-- The lines on which the semesters of a written plan begin: one more than the newlines
before each word that heads a semester. -/
def semesterLines (l : Layout) (es : List Entry) : List Nat :=
  linesFrom [] (l.segments es)

end Layout

/-- **A written plan is read back.**  Its source gives the curriculum that its entries
add up to, except that the semesters have the lines on which their words stand in the
source. -/
theorem ofSource_write (l : Layout) (es : List Entry) (h : ∀ e ∈ es, e.Writable) :
    ∃ c, Curriculum.ofSource (l.write es) = .ok c ∧
      c.unplaced = (Curriculum.ofEntries es).unplaced ∧
      c.blocks.map Block.line = l.semesterLines es := by
  have hneat := Layout.neat_lexemes (l := l) h
  have hsplit : split (l.write es).toList = l.segments es := by
    rw [Layout.write, String.toList_ofList, Layout.segments]
    exact split_flatMap_text (l.allStand_pad hneat 0)
  have hclean : (lex (l.write es)).isClean = true := by
    rw [Lexing.isClean, lex, Lexing.ofChars, hsplit]
    exact List.isEmpty_iff.2 (l.faultsFrom_pad hneat rfl rfl 0 .start)
  have htokens : ∃ p, (lex (l.write es)).tokens =
      tokensOf (place .start (l.segments es)) ++ [.finish p] := by
    rw [lex, Lexing.ofChars, hsplit]
    exact ⟨_, rfl⟩
  obtain ⟨p, htokens⟩ := htokens
  have hread : ReadAs EntriesOf (List.map Entry.unplaced) (List.flatMap Entry.lines)
      (l.lexemes es) es := readAs_flatMap fun e he => Layout.readAs_entry (h e he)
  obtain ⟨es', hes', hlines, hrun⟩ := hread _ (l.forall₂_says hneat 0 .start)
  have hresult : (Curriculum.ofTokens (lex (l.write es)).tokens).result =
      .ok (Curriculum.ofEntries es') := by
    rw [htokens]
    exact result_ofTokens_eq_ok_iff.2
      ⟨es', _, Parser.result_entries_eq_ok_iff.2 ⟨hrun [.finish p], rfl⟩, rfl⟩
  refine ⟨Curriculum.ofEntries es', ?_, ?_, ?_⟩
  · rw [Curriculum.ofSource, if_pos hclean, hresult]
  · rw [Curriculum.unplaced_ofEntries, Curriculum.unplaced_ofEntries, hes']
  · rw [Curriculum.lines_ofEntries, hlines]
    exact semestreLines_tokensOf [] _

/-- A course whose name would break off a text and open a body. -/
def noisyCourse : Course where
  code := "007"
  semester := 1
  name := "L'Hôpital \x7b"
  credits := 4294967295
  area := some ""
  mandatory := some false
  prerequisites := ["1", "02"]

/-- A plan whose title would close its own brackets. -/
def noisyPlan : List Entry :=
  [.program ⟨"Plan ] ;\n\"Curso\"", [⟨1, 0, [noisyCourse]⟩]⟩, .semester ⟨1, 5, []⟩]

/-- The newline in the title puts both semesters on the second line. -/
theorem ofSource_write_noisyPlan : (∀ e ∈ noisyPlan, e.Writable) ∧
    ∃ c, Curriculum.ofSource (Layout.plain.write noisyPlan) = .ok c ∧
      c.unplaced = (Curriculum.ofEntries noisyPlan).unplaced ∧
      c.blocks.map Block.line = [2, 2] := by
  have hcourse : noisyCourse.Writable 1 :=
    { semester := rfl
      code := by decide +kernel
      prerequisites := by decide +kernel
      name := by decide +kernel
      description := nofun
      area := by decide +kernel }
  have hwritable : ∀ e ∈ noisyPlan, e.Writable := by
    simp only [noisyPlan, List.forall_mem_cons, List.not_mem_nil, false_implies, implies_true,
      Entry.Writable, Semester.Writable, and_true]
    exact ⟨by decide +kernel, hcourse⟩
  have hlines : Layout.plain.semesterLines noisyPlan = [2, 2] := by decide +kernel
  exact ⟨hwritable, hlines ▸ ofSource_write Layout.plain noisyPlan hwritable⟩

end StudyPlan
