import StudyPlan.Proofs.Enclosure

/-!
# Constructs read only their own window

A construct uses up a window of the tokens, and it is the same construct wherever the same
window stands.  It does not depend on the tokens before it, since it never sees them; what
is shown here is that it does not depend on the tokens behind its window either.

## Two exceptions

Both are programs.  A program without semesters has looked at the token behind its title
to see that it is no bracket, so no bracket may come to stand there (`Bare`).  And the
semesters of a program may end because the tokens do, in which case anything that is
added behind them would be read as a part of them.  The tokens of a clean source rule the
second exception out.

So `Windowed` has two parameters.  `I` holds of the tokens ahead, window and all, and `Ok`
is what may be asked of the tokens behind the window, provided that it was true of those
that were there.

## Any head will do

All this is about derivations, and a derivation begins with a proper head.  The parser of a
construct does not look at its head.  Behind any token it does what it would do behind a
proper one (`ReadsBehindHead`), so it has the windows of its derivations wherever it is run.
-/

namespace StudyPlan
namespace Derivation

variable {α : Type}

/-- Where `I` holds, a part uses up a window of its tokens, and it stands wherever the
window stands, if no less is true of the tokens behind it. -/
def Windowed (I Ok : List Token → Prop) (Part : List Token → α → List Token → Prop) : Prop :=
  ∀ ⦃ts a rest⦄, I ts → Part ts a rest →
    ∃ window, ts = window ++ rest ∧ ∀ rest', (Ok rest → Ok rest') → Part (window ++ rest') a rest'

/-- A part uses up a window of its tokens, and it stands wherever the window stands. -/
abbrev OwnWindow (Part : List Token → α → List Token → Prop) : Prop :=
  Windowed (fun _ => True) (fun _ => True) Part

/-- No bracket comes next. -/
def Bare (ts : List Token) : Prop :=
  ∀ t ∈ ts.head?, t.kind ≠ .delimiter .openBracket

theorem Bare.append {window rest rest' : List Token} (h : Bare rest → Bare rest')
    (hw : Bare (window ++ rest)) : Bare (window ++ rest') := by
  rcases window with _ | ⟨t, window⟩
  · exact h hw
  · exact hw

/-- A run of parts that have windows has one. -/
theorem Run.windowed {I Ok : List Token → Prop} {Part : List Token → α → List Token → Prop}
    {Passed : Token → Prop} (hI : ∀ before ts, I (before ++ ts) → I ts)
    (hOk : ∀ window rest rest', (Ok rest → Ok rest') → Ok (window ++ rest) → Ok (window ++ rest'))
    (hp : Windowed I Ok Part) : Windowed I Ok (Run Part Passed) := by
  intro ts as rest hts h
  induction h with
  | stop ts => exact ⟨[], rfl, fun rest' _ => .stop rest'⟩
  | @pass t ts as rest ht hpassed _ ih =>
    obtain ⟨window, rfl, hwindow⟩ := ih (hI [t] _ hts)
    exact ⟨t :: window, rfl, fun rest' h => .pass ht hpassed (hwindow rest' h)⟩
  | @part ts mid a as rest ha _ ih =>
    obtain ⟨first, rfl, hfirst⟩ := hp hts ha
    obtain ⟨others, rfl, hothers⟩ := ih (hI first _ hts)
    refine ⟨first ++ others, (List.append_assoc _ _ _).symm, fun rest' h => ?_⟩
    rw [List.append_assoc]
    exact .part (hfirst _ (hOk others rest rest' h)) (hothers rest' h)

/-- The window of a run that has to be closed takes in the closing token. -/
theorem Run.exists_closed_window {Part : List Token → α → List Token → Prop}
    {Passed : Token → Prop} (hp : OwnWindow Part) {ts rest : List Token} {as : List α}
    {closing : Token} (h : Run Part Passed ts as (closing :: rest)) :
    ∃ window, ts = window ++ closing :: rest ∧
      ∀ rest', Run Part Passed (window ++ closing :: rest') as (closing :: rest') := by
  obtain ⟨window, hts, hwindow⟩ :=
    Run.windowed (fun _ _ _ => trivial) (fun _ _ _ _ _ => trivial) hp trivial h
  exact ⟨window, hts, fun rest' => hwindow (closing :: rest') fun _ => trivial⟩

/-! ## Constructs -/

theorem ownWindow_codeOf : OwnWindow CodeOf := by
  rintro _ _ rest - ⟨hk⟩
  exact ⟨[_], rfl, fun rest' _ => .intro hk⟩

theorem ownWindow_fieldOf : OwnWindow FieldOf := by
  intro ts d rest _ h
  cases h with
  | single hw hcolon hv hs =>
    exact ⟨[_, _, _, _], rfl, fun rest' _ => .single hw hcolon hv hs⟩
  | @prerequisites w colon opening closing _ codes _ hw hcolon ho hrun hc =>
    obtain ⟨window, rfl, hwindow⟩ := hrun.exists_closed_window ownWindow_codeOf
    refine ⟨w :: colon :: opening :: (window ++ [closing]), by simp, fun rest' _ => ?_⟩
    have hrun' := FieldOf.prerequisites hw hcolon ho (hwindow rest') hc
    simpa using hrun'

theorem ownWindow_courseOf (n : UInt32) : OwnWindow (CourseOf n) := by
  intro ts c rest _ h
  obtain @⟨w, colon, code, opening, closing, _, details, _, hw, hcolon, hcode, ho, hrun, hc⟩ := h
  obtain ⟨window, rfl, hwindow⟩ := hrun.exists_closed_window ownWindow_fieldOf
  refine ⟨w :: colon :: code :: opening :: (window ++ [closing]), by simp, fun rest' _ => ?_⟩
  have hcourse : CourseOf n _ _ rest' := .intro hw hcolon hcode ho (hwindow rest') hc
  simpa using hcourse

theorem ownWindow_semesterOf : OwnWindow SemesterOf := by
  intro ts s rest _ h
  obtain @⟨w, colon, number, opening, closing, n, _, courses, _, hw, hcolon, hn, ho, hrun, hc⟩ := h
  obtain ⟨window, rfl, hwindow⟩ := hrun.exists_closed_window (ownWindow_courseOf n)
  refine ⟨w :: colon :: number :: opening :: (window ++ [closing]), by simp, fun rest' _ => ?_⟩
  have hsemester := SemesterOf.intro hw hcolon hn ho (hwindow rest') hc
  simpa using hsemester

/-! ## Entries of a clean source -/

theorem Within.of_suffix (before ts : List Token) (h : Within [] (before ++ ts)) :
    Within [] ts := by
  obtain ⟨inner, h⟩ := h
  exact h.within_of_append

/-- A program whose semesters are closed stands wherever its window stands. -/
theorem ProgramOf.exists_closed_window {w colon title opening closing : Token} {ts : List Token}
    {ss : List Semester} {rest : List Token} (hw : w.kind = .keyword .carrera)
    (hcolon : colon.kind = .delimiter .colon) (ht : title.kind = .quoted)
    (ho : opening.kind = .delimiter .openBracket) (hrun : SemestersOf ts ss (closing :: rest))
    (hc : closing.kind = .delimiter .closeBracket) :
    ∃ inner, ts = inner ++ rest ∧
      ∀ rest', ProgramOf (w :: colon :: title :: opening :: (inner ++ rest'))
        ⟨title.text, ss⟩ rest' := by
  obtain ⟨window, rfl, hwindow⟩ := hrun.exists_closed_window ownWindow_semesterOf
  refine ⟨window ++ [closing], by simp, fun rest' => ?_⟩
  have hprogram := ProgramOf.closed hw hcolon ht ho (hwindow rest') hc
  simpa using hprogram

/-- A program of a clean source is not cut off by the end of the tokens. -/
theorem windowed_programOf : Windowed (Within []) Bare ProgramOf := by
  intro ts p rest hts h
  cases h with
  | @bare w colon title _ hw hcolon ht hbare =>
    exact ⟨[w, colon, title], rfl, fun rest' h => .bare hw hcolon ht (h hbare)⟩
  | @closed w colon title opening closing _ semesters _ hw hcolon ht ho hrun hc =>
    obtain ⟨inner, rfl, hinner⟩ := ProgramOf.exists_closed_window hw hcolon ht ho hrun hc
    exact ⟨w :: colon :: title :: opening :: inner, rfl, fun rest' _ => hinner rest'⟩
  | @cut w colon title opening ts semesters _ _ _ _ ho hrun hn =>
    -- in a clean source the bracket is closed, and the semesters stop there
    have hopening : Within [] (opening :: ts) := Within.of_suffix [w, colon, title] _ hts
    exact absurd hn (Parser.next?_ne_none_of_semestersOf (hopening.of_opening rfl ho) hrun)

theorem windowed_entryOf : Windowed (Within []) Bare EntryOf := by
  intro ts e rest hts h
  cases h with
  | program hp =>
    obtain ⟨window, hw, hwindow⟩ := windowed_programOf hts hp
    exact ⟨window, hw, fun rest' h => .program (hwindow rest' h)⟩
  | semester hs =>
    obtain ⟨window, hw, hwindow⟩ := ownWindow_semesterOf trivial hs
    exact ⟨window, hw, fun rest' _ => .semester (hwindow rest' fun _ => trivial)⟩

/-- The entries of a clean source are entries in front of other tokens, too. -/
theorem windowed_entriesOf : Windowed (Within []) Bare EntriesOf :=
  Run.windowed Within.of_suffix (fun _ _ _ h hw => Bare.append h hw) windowed_entryOf

/-! ## Ends of programs -/

/-- A run that is not empty ends with a token that was passed over or with the last one of a
part. -/
theorem Run.exists_last {Part : List Token → α → List Token → Prop} {Passed Last : Token → Prop}
    (hp : ∀ {ts a rest}, Part ts a rest → ∃ front last, ts = front ++ last :: rest ∧ Last last)
    (hpassed : ∀ {t}, Passed t → Last t) {ts rest : List Token} {as : List α}
    (h : Run Part Passed ts as rest) :
    ts = rest ∨ ∃ front last, ts = front ++ last :: rest ∧ Last last := by
  induction h with
  | stop ts => exact .inl rfl
  | @pass t ts _ rest _ ht _ ih =>
    rcases ih with rfl | ⟨front, last, rfl, hlast⟩
    · exact .inr ⟨[], t, rfl, hpassed ht⟩
    · exact .inr ⟨t :: front, last, rfl, hlast⟩
  | part ha _ ih =>
    obtain ⟨front, last, rfl, hlast⟩ := hp ha
    rcases ih with rfl | ⟨front', last', rfl, hlast'⟩
    · exact .inr ⟨front, last, rfl, hlast⟩
    · exact .inr ⟨front ++ last :: front', last', by simp, hlast'⟩

/-- A semester ends with its brace. -/
theorem SemesterOf.exists_last {ts rest : List Token} {s : Semester} (h : SemesterOf ts s rest) :
    ∃ front last, ts = front ++ last :: rest ∧ last.kind = .delimiter .closeBrace := by
  obtain @⟨w, colon, number, opening, closing, _, _, _, _, _, _, _, _, hrun, hc⟩ := h
  obtain ⟨front, rfl⟩ := hrun.suffix (headed_courseOf _)
  exact ⟨w :: colon :: number :: opening :: front, closing, rfl, hc⟩

/-- Semesters do not end with the bracket that would close them. -/
theorem kind_of_mem_getLast?_semestersOf {window rest : List Token} {ss : List Semester}
    (h : SemestersOf (window ++ rest) ss rest) :
    ∀ t ∈ window.getLast?, t.kind ≠ .delimiter .closeBracket := by
  have hpart : ∀ {ts s rest}, SemesterOf ts s rest →
      ∃ front last, ts = front ++ last :: rest ∧ last.kind ≠ .delimiter .closeBracket := by
    intro ts s rest hs
    obtain ⟨front, last, heq, hk⟩ := hs.exists_last
    exact ⟨front, last, heq, by simp [hk]⟩
  rcases h.exists_last hpart fun hp => hp.2 with heq | ⟨front, last, heq, hk⟩
  · rw [List.append_left_eq_self.1 heq]
    nofun
  · rw [List.append_cons] at heq
    rw [List.append_cancel_right heq, List.getLast?_concat]
    rintro _ ⟨⟩
    exact hk

/-- A program stands wherever its window stands, if the window is followed and ended as it
should be: where no bracket opens behind the title, none may come next, and where one does, the
window has to end with the bracket that closes it. -/
theorem ProgramOf.exists_window {w : Token} {ts rest : List Token} {p : Program}
    (h : ProgramOf (w :: ts) p rest) :
    ∃ inner, ts = inner ++ rest ∧ ∀ rest', (Bare (ts.drop 2) → Bare rest') →
      (¬ Bare (ts.drop 2) → ∃ v, ∃ t ∈ (v :: inner).getLast?,
        t.kind = .delimiter .closeBracket) →
      ProgramOf (w :: (inner ++ rest')) p rest' := by
  cases h with
  | @bare _ colon title _ hw hcolon ht hbare =>
    exact ⟨[colon, title], rfl, fun rest' h _ => .bare hw hcolon ht (h hbare)⟩
  | @closed _ colon title opening closing _ _ _ hw hcolon ht ho hrun hc =>
    obtain ⟨inner, rfl, hinner⟩ := ProgramOf.exists_closed_window hw hcolon ht ho hrun hc
    exact ⟨colon :: title :: opening :: inner, rfl, fun rest' _ _ => hinner rest'⟩
  | @cut _ colon title opening _ _ _ _ _ _ ho hrun _ =>
    obtain ⟨window, rfl⟩ := hrun.suffix headed_semesterOf
    refine ⟨colon :: title :: opening :: window, rfl, fun rest' _ hclosed => ?_⟩
    -- the last token is the opening bracket or one of the body, and neither closes the body
    obtain ⟨v, t, ht, hk⟩ := hclosed fun hbare => hbare opening rfl ho
    exfalso
    rcases List.eq_nil_or_concat window with rfl | ⟨front, last, rfl⟩
    · obtain rfl : opening = t := Option.some.inj ht
      rw [ho] at hk
      cases hk
    · refine kind_of_mem_getLast?_semestersOf hrun t ?_ hk
      simpa [List.getLast?_cons] using ht

end Derivation

/-! ## Heads that are not looked at -/

namespace Parser

open StudyPlan.Derivation

variable {α : Type}

/-- Whichever token comes first, the parser does what it would do behind a proper head, and
there it reads `Part`. -/
structure ReadsBehindHead (p : Parser α) (Part : List Token → α → List Token → Prop) : Prop where
  nil : ∀ {a rest}, (p []).result ≠ .ok (a, rest)
  cons : ∀ w, ∃ head, ∀ ts, p (w :: ts) = p (head :: ts) ∧
    ∀ a rest, (p (head :: ts)).result = .ok (a, rest) ↔ Part (head :: ts) a rest

theorem readsBehindHead_field (f : Field) : ReadsBehindHead (field f) FieldOf where
  nil := nofun
  cons w := by
    have hhead : ∃ k text, Heads { w with kind := k, text := text } f := by
      cases f with
      | name | code | credits | description | mandatory => exact ⟨_, "", rfl⟩
      | prerequisites => exact ⟨_, "", .inl rfl⟩
      | area => exact ⟨_, "area", rfl, (by decide : sameWord "area" "area" = true)⟩
    obtain ⟨k, text, hw⟩ := hhead
    exact ⟨{ w with kind := k, text := text }, fun ts =>
      ⟨rfl, fun a rest => result_field_eq_ok_iff hw⟩⟩

theorem readsBehindHead_course (n : UInt32) : ReadsBehindHead (course n) (CourseOf n) where
  nil := nofun
  cons w := ⟨{ w with kind := .keyword .curso }, fun _ =>
    ⟨rfl, fun _ _ => result_course_eq_ok_iff rfl⟩⟩

theorem readsBehindHead_semester : ReadsBehindHead semester SemesterOf where
  nil := nofun
  cons w := ⟨{ w with kind := .keyword .semestre }, fun _ =>
    ⟨rfl, fun _ _ => result_semester_eq_ok_iff rfl⟩⟩

theorem readsBehindHead_program : ReadsBehindHead program ProgramOf where
  nil := nofun
  cons w := ⟨{ w with kind := .keyword .carrera }, fun _ =>
    ⟨rfl, fun _ _ => result_program_eq_ok_iff rfl⟩⟩

/-! ## Windows by position -/

theorem result_runAt_eq_ok_iff {p : Parser α} {tokens : List Token} {pos pos' : Nat} {a : α} :
    (p.runAt tokens pos).result = .ok (a, pos') ↔
      ∃ rest, (p (tokens.drop pos)).result = .ok (a, rest) ∧
        pos' = pos + ((tokens.drop pos).length - rest.length) := by
  rw [runAt]
  rcases hr : (p (tokens.drop pos)).result with e | ⟨b, rest⟩
  · simp [hr, Except.map]
  · simp only [Logged.result_map, hr, Except.map, Except.ok.injEq, Prod.mk.injEq]
    constructor
    · rintro ⟨rfl, rfl⟩
      exact ⟨rest, ⟨rfl, rfl⟩, rfl⟩
    · rintro ⟨_, ⟨rfl, rfl⟩, rfl⟩
      exact ⟨rfl, rfl⟩

/-- What a parser that reads a head unseen has read from a position: the head, a stretch of
tokens behind it, and the value that these would have behind a proper head. -/
theorem ReadsBehindHead.exists_of_runAt {p : Parser α} {Part : List Token → α → List Token → Prop}
    (hp : ReadsBehindHead p Part) (hheaded : Headed Part) {tokens : List Token} {pos pos' : Nat}
    {a : α} (h : (p.runAt tokens pos).result = .ok (a, pos')) :
    ∃ w head inner rest, tokens.drop pos = w :: inner ++ rest ∧
      pos' = pos + (w :: inner).length ∧ Part (head :: inner ++ rest) a rest ∧
      ∀ tokens' d rest', tokens'.drop d = w :: inner ++ rest' →
        Part (head :: inner ++ rest') a rest' →
        (p.runAt tokens' d).result = .ok (a, d + (w :: inner).length) := by
  obtain ⟨rest, hread, rfl⟩ := result_runAt_eq_ok_iff.1 h
  rcases hdrop : tokens.drop pos with _ | ⟨w, ts⟩
  · rw [hdrop] at hread
    exact absurd hread hp.nil
  · obtain ⟨head, hhead⟩ := hp.cons w
    rw [hdrop, (hhead ts).1, (hhead ts).2] at hread
    obtain ⟨_, _, heq, -, hs⟩ := hheaded hread
    obtain ⟨rfl, rfl⟩ := List.cons.inj heq
    obtain ⟨inner, rfl⟩ := hs
    refine ⟨w, head, inner, rest, rfl, ?_, hread, fun tokens' d rest' hdrop' hpart => ?_⟩
    · simp only [List.length_cons, List.length_append]
      omega
    · refine result_runAt_eq_ok_iff.2 ⟨rest', ?_, ?_⟩
      · rw [hdrop', List.cons_append, (hhead _).1, (hhead _).2]
        exact hpart
      · rw [hdrop']
        simp only [List.length_cons, List.length_append]
        omega

/-- Where the same tokens stand in another list, the window stands there as well. -/
theorem drop_eq_append_of_getElem? {tokens tokens' window rest : List Token} {pos d : Nat}
    (hdrop : tokens.drop pos = window ++ rest)
    (hsame : ∀ i < window.length, tokens'[d + i]? = tokens[pos + i]?) :
    tokens'.drop d = window ++ tokens'.drop (d + window.length) := by
  refine List.ext_getElem? fun i => ?_
  rw [List.getElem?_drop]
  rcases Nat.lt_or_ge i window.length with hi | hi
  · rw [hsame i hi, ← List.getElem?_drop, hdrop, List.getElem?_append_left hi,
      List.getElem?_append_left hi]
  · rw [List.getElem?_append_right hi, List.getElem?_drop]
    congr 1
    omega

/-- Where the parser succeeds, it succeeds with the same value wherever the tokens stand that it
has used up. -/
def ReadsOwnWindow (p : Parser α) : Prop :=
  ∀ tokens pos a pos', (p.runAt tokens pos).result = .ok (a, pos') →
    ∀ tokens' d, (∀ i < pos' - pos, tokens'[d + i]? = tokens[pos + i]?) →
      (p.runAt tokens' d).result = .ok (a, d + (pos' - pos))

theorem ReadsBehindHead.readsOwnWindow {p : Parser α} {Part : List Token → α → List Token → Prop}
    (hp : ReadsBehindHead p Part) (hheaded : Headed Part) (hPart : OwnWindow Part) :
    ReadsOwnWindow p := by
  intro tokens pos a pos' h tokens' d hsame
  obtain ⟨w, head, inner, rest, hdrop, rfl, hread, hrun⟩ := hp.exists_of_runAt hheaded h
  rw [Nat.add_sub_cancel_left] at hsame ⊢
  obtain ⟨window, heq, hwindow⟩ := hPart trivial hread
  obtain rfl : head :: inner = window := List.append_cancel_right heq
  exact hrun tokens' d _ (drop_eq_append_of_getElem? hdrop hsame)
    (hwindow _ fun _ => trivial)

/-- **Constructs read only their own window.**  A field, a course or a semester that is read from
a position is read wherever the same tokens stand, whatever stands before them and behind them.
So is a program, if no bracket comes behind it where none opened its list of semesters, and if its
list was closed where one did. -/
theorem constructs_read_their_own_window :
    (∀ f, ReadsOwnWindow (field f)) ∧ (∀ n, ReadsOwnWindow (course n)) ∧
      ReadsOwnWindow semester ∧
      ∀ tokens pos p pos', (program.runAt tokens pos).result = .ok (p, pos') →
        ∀ tokens' d, (∀ i < pos' - pos, tokens'[d + i]? = tokens[pos + i]?) →
          (Bare (tokens.drop (pos + 3)) → Bare (tokens'.drop (d + (pos' - pos)))) →
          (¬ Bare (tokens.drop (pos + 3)) →
            ∃ t, tokens[pos' - 1]? = some t ∧ t.kind = .delimiter .closeBracket) →
          (program.runAt tokens' d).result = .ok (p, d + (pos' - pos)) := by
  refine ⟨fun f => (readsBehindHead_field f).readsOwnWindow headed_fieldOf ownWindow_fieldOf,
    fun n => (readsBehindHead_course n).readsOwnWindow (headed_courseOf n) (ownWindow_courseOf n),
    readsBehindHead_semester.readsOwnWindow headed_semesterOf ownWindow_semesterOf, ?_⟩
  intro tokens pos p pos' h tokens' d hsame hbare hclosed
  obtain ⟨w, head, inner, rest, hdrop, rfl, hread, hrun⟩ :=
    readsBehindHead_program.exists_of_runAt headed_programOf h
  rw [Nat.add_sub_cancel_left] at hsame hbare ⊢
  obtain ⟨inner', heq, hwindow⟩ := hread.exists_window
  obtain rfl : inner = inner' := List.append_cancel_right heq
  have hbehind : tokens.drop (pos + 3) = (inner ++ rest).drop 2 := by
    rw [← List.drop_drop, hdrop]
    rfl
  rw [hbehind] at hbare hclosed
  refine hrun tokens' d _ (drop_eq_append_of_getElem? hdrop hsame) ?_
  refine hwindow _ hbare fun hopen => ?_
  obtain ⟨t, ht, hk⟩ := hclosed hopen
  refine ⟨w, t, ?_, hk⟩
  have hlast : tokens[pos + inner.length]? = (w :: inner)[inner.length]? := by
    rw [← List.getElem?_drop, hdrop, List.getElem?_append_left (Nat.lt_succ_self _)]
  rw [List.getLast?_eq_getElem?]
  exact hlast.symm.trans ht

/-- A program with a list of semesters. -/
def listedProgram : List Token :=
  (lex "Carrera: 'X' [Semestre: 1 \x7bCurso: 7 \x7bNombre: 'A';\x7d\x7d]").tokens

/-- The program up to its bracket, behind other tokens and with another bracket behind it. -/
def movedProgram : List Token :=
  (lex "] 5").tokens ++ listedProgram.take 19 ++ (lex "[ ;").tokens

theorem constructs_read_their_own_window_moved :
    ((field .name).runAt movedProgram 15).result = .ok (.name "A", 19) ∧
      (program.runAt movedProgram 3).result = .ok (⟨"X", [⟨1, 1,
        [{ code := "7", semester := 1, name := "A" }]⟩]⟩, 22) := by
  obtain ⟨hfield, -, -, hprogram⟩ := constructs_read_their_own_window
  have hname : ((field .name).runAt listedProgram 12).result = .ok (.name "A", 16) := by
    decide +kernel
  have hlisted : (program.runAt listedProgram 0).result = .ok (⟨"X", [⟨1, 1,
      [{ code := "7", semester := 1, name := "A" }]⟩]⟩, 19) := by
    decide +kernel
  have hopen : listedProgram[3]? = some ⟨.delimiter .openBracket, "[", 1, 14⟩ := by
    decide +kernel
  have hclosed : listedProgram[18]? = some ⟨.delimiter .closeBracket, "]", 1, 52⟩ := by
    decide +kernel
  refine ⟨hfield .name _ _ _ _ hname movedProgram 15 (by decide +kernel),
    hprogram _ _ _ _ hlisted movedProgram 3 (by decide +kernel) ?_ fun _ => ⟨_, hclosed, rfl⟩⟩
  intro hbare
  exact absurd rfl (hbare _ (List.head?_drop.trans hopen))

end Parser
end StudyPlan
