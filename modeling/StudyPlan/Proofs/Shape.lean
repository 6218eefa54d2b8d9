import Mathlib.Algebra.GroupWithZero.Nat
import StudyPlan.Proofs.Consistency
import StudyPlan.Proofs.CourseBody
import StudyPlan.Proofs.PlaceOrder
import StudyPlan.Proofs.Placement
import StudyPlan.Proofs.Respelling

/-!
# The shape of a plan that was read

Anything can be put into a curriculum: a course of another semester than its block, or a line
that no source has.  A curriculum that was read from tokens has a better shape, and this is the
work of the grammar, which files each course in the semester that it stands in.

## 1.  One list per number

The courses of a plan are met in the order of its tokens (`EntriesOf.courses`), and each of them
names the semester in which it is met (`semester_of_mem_courses`).  So no number is touched that
no block has, the lists of the semesters share out all courses among themselves
(`sum_length_filter`), and each list keeps the order of the tokens.

## 2.  What only a source has

The codes of courses and those of their prerequisites are texts of numbers among the tokens.
Where the tokens were read from a source, such a text has digits and nothing else, and the lines
of the blocks are lines of the source, in order.
-/

namespace StudyPlan

open StudyPlan.Derivation
open Curriculum (History ofHistory)

/-! ## Courses of a plan -/

namespace Derivation

variable {ts rest : List Token}

/-- Courses, and any tokens that are in no course. -/
abbrev AmongCourses : List Token → List Course → List Token → Prop :=
  Run (fun ts c rest => CourseOf c.semester ts c rest) fun _ => True

theorem headed_courseOf_semester :
    Headed fun ts (c : Course) rest => CourseOf c.semester ts c rest :=
  fun _ _ _ h => headed_courseOf _ h

/-- A course is one of the semester that it is read for. -/
theorem CourseOf.semester {n : UInt32} {c : Course} (h : CourseOf n ts c rest) :
    c.semester = n := by
  obtain ⟨⟩ := h
  rw [Course.ofDetails_eq_lastWins]
  rfl

theorem CoursesOf.among {n : UInt32} {courses : List Course} (h : CoursesOf n ts courses rest) :
    AmongCourses ts courses rest ∧ ∀ c ∈ courses, c.semester = n := by
  induction h with
  | stop => exact ⟨.stop _, List.forall_mem_nil _⟩
  | pass ht _ _ ih => exact ⟨.pass ht trivial ih.1, ih.2⟩
  | part hc _ ih =>
    refine ⟨.part ?_ ih.1, List.forall_mem_cons.2 ⟨hc.semester, ih.2⟩⟩
    rwa [hc.semester]

theorem SemesterOf.courses {s : Semester} (h : SemesterOf ts s rest) :
    AmongCourses ts s.courses rest := by
  obtain ⟨hw, hcolon, hnumber, ho, hcourses, hc⟩ := h
  have hinner := hcourses.among.1.skip_closing hc nofun
  exact .skip hw nofun (.skip hcolon nofun (.skip hnumber.1 nofun (.skip ho nofun hinner)))

/-- The courses of a semester name its number. -/
theorem SemesterOf.semester_of_mem_courses {s : Semester} (h : SemesterOf ts s rest) :
    ∀ c ∈ s.courses, c.semester = s.number := by
  obtain ⟨-, -, -, -, hcourses, -⟩ := h
  exact hcourses.among.2

theorem AmongSemesters.courses {ss : List Semester} (h : AmongSemesters ts ss rest) :
    AmongCourses ts (ss.flatMap Semester.courses) rest := by
  induction h with
  | stop => exact Run.stop _
  | pass ht _ _ ih => exact Run.pass ht trivial ih
  | part hs _ ih =>
    rw [List.flatMap_cons]
    exact hs.courses.append ih

/-- Each semester of a plan has courses that name its number. -/
theorem AmongSemesters.semester_of_mem_courses {ss : List Semester}
    (h : AmongSemesters ts ss rest) : ∀ s ∈ ss, ∀ c ∈ s.courses, c.semester = s.number := by
  intro s hs
  obtain ⟨us, mid, -, hsemester⟩ := h.exists_part headed_semesterOf s hs
  exact hsemester.semester_of_mem_courses

end Derivation

theorem mem_numbersOf_iff {ts : List Token} {text : String} :
    text ∈ numbersOf ts ↔ ∃ t ∈ ts, t.kind = .number ∧ t.text = text := by
  simp [numbersOf, and_assoc]

theorem numbersOf_subset {ts us : List Token} (h : us ⊆ ts) : numbersOf us ⊆ numbersOf ts := by
  intro text htext
  obtain ⟨t, ht, hnumber⟩ := mem_numbersOf_iff.1 htext
  exact mem_numbersOf_iff.2 ⟨t, h ht, hnumber⟩

/-- The codes of a field are texts of numbers in its stretch. -/
theorem Stretch.codes_subset {s : Stretch} (hs : s.Stands) {d : Detail} (hd : s.detail? = some d) :
    d.codes ⊆ numbersOf s.tokens := by
  cases s with
  | passed => cases hd
  | single =>
    obtain ⟨⟨f, -, hv⟩, -, -⟩ := hs
    obtain rfl := Option.some.inj hd
    cases hv <;> exact List.nil_subset _
  | list word colon opening inner closing =>
    obtain rfl := Option.some.inj hd
    refine numbersOf_subset fun t ht => ?_
    simp [Stretch.tokens, ht]

/-- The code of a course and those of its prerequisites are texts of numbers in its tokens. -/
theorem Derivation.CourseOf.codes_subset {ts rest : List Token} {n : UInt32} {c : Course}
    (h : CourseOf n ts c rest) : c.code :: c.prerequisites ⊆ numbersOf ts := by
  obtain ⟨-, -, hcode, -, hfields, -⟩ := h
  obtain ⟨body, rfl, hbody, rfl⟩ := fieldsOf_iff.1 hfields
  rw [Course.ofDetails_eq_lastWins]
  refine List.cons_subset.2 ⟨mem_numbersOf_iff.2 ⟨_, by simp, hcode, rfl⟩, ?_⟩
  intro p hp
  obtain ⟨d, hd, hp⟩ := List.mem_flatMap.1 hp
  obtain ⟨s, hs, hd⟩ := List.mem_filterMap.1 hd
  refine numbersOf_subset (fun t ht => ?_) (s.codes_subset (hbody s hs) hd hp)
  have hmem : t ∈ body.flatMap Stretch.tokens := List.mem_flatMap.2 ⟨s, hs, ht⟩
  simp [hmem]

theorem Derivation.AmongCourses.codes_subset {ts rest : List Token} {courses : List Course}
    (h : AmongCourses ts courses rest) :
    ∀ c ∈ courses, c.code :: c.prerequisites ⊆ numbersOf ts := by
  intro c hc
  obtain ⟨us, mid, hus, hcourse⟩ := h.exists_part headed_courseOf_semester c hc
  exact List.Subset.trans hcourse.codes_subset (numbersOf_subset hus.subset)

/-! ## 1.  One list per number -/

/-- A curriculum has a list of courses for each number of a block, and the lists share out these
courses. -/
structure Curriculum.Shaped (c : Curriculum) (courses : List Course) : Prop where
  /-- The numbers of the semesters are those of the blocks, in order of first appearance. -/
  numbers : c.semesterNumbers = (c.blocks.map Block.number).eraseDups
  /-- A course stands in the list of the semester that it names. -/
  filed : ∀ e ∈ c.coursesBySemester, ∀ x ∈ e.2, x.semester = e.1
  /-- A list keeps the order of the courses and leaves out none of its semester. -/
  ordered : ∀ e ∈ c.coursesBySemester, e.2 = courses.filter (·.semester = e.1)
  /-- The lists hold as many courses as there are. -/
  counted : (c.coursesBySemester.map fun e => e.2.length).sum = courses.length
  /-- What a code stands for has this code, and it stands in the list of its semester. -/
  coded : ∀ e ∈ c.coursesByCode, e.2.code = e.1 ∧
    ∃ xs, (e.2.semester, xs) ∈ c.coursesBySemester ∧ e.2 ∈ xs

/-- What is shared out by keys is still there. -/
theorem sum_length_filter {α κ : Type} [DecidableEq κ] {f : α → κ} {keys : List κ}
    (hkeys : keys.Nodup) {xs : List α} (h : ∀ x ∈ xs, f x ∈ keys) :
    (keys.map fun k => (xs.filter fun x => f x = k).length).sum = xs.length := by
  induction keys generalizing xs with
  | nil =>
    rcases xs with _ | ⟨x, xs⟩
    · rfl
    · cases h x List.mem_cons_self
  | cons k keys ih =>
    obtain ⟨hk, hkeys⟩ := List.nodup_cons.1 hkeys
    -- what does not go to the first key is shared out by the others
    have hothers : ∀ x ∈ xs.filter (fun x => !decide (f x = k)), f x ∈ keys := by
      intro x hx
      obtain ⟨hx, hne⟩ := List.mem_filter.1 hx
      exact (List.mem_cons.1 (h x hx)).resolve_left (by simpa using hne)
    have hsame : ∀ k' ∈ keys, ((xs.filter fun x => f x = k').length) =
        ((xs.filter fun x => !decide (f x = k)).filter fun x => f x = k').length := by
      intro k' hk'
      rw [List.filter_filter]
      refine congrArg List.length (List.filter_congr fun x _ => ?_)
      by_cases hx : f x = k'
      · have hne : k' ≠ k := fun heq => hk (heq ▸ hk')
        simp [hx, hne]
      · simp [hx]
    rw [List.map_cons, List.sum_cons, List.map_congr_left hsame, ih hkeys hothers,
      ← List.length_eq_length_filter_add]

/-- The numbers that are touched are, in order of first appearance, those of the blocks, when
every course names its semester. -/
theorem eraseDups_numbers {ss : List Semester}
    (h : ∀ s ∈ ss, ∀ c ∈ s.courses, c.semester = s.number) :
    (ss.flatMap fun s => s.number :: s.courses.map Course.semester).eraseDups =
      (ss.map Semester.number).eraseDups := by
  induction ss with
  | nil => rfl
  | cons s ss ih =>
    obtain ⟨hs, hss⟩ := List.forall_mem_cons.1 h
    have hown : ∀ n ∈ s.courses.map Course.semester, n = s.number := List.forall_mem_map.2 hs
    have hone : (s.number :: s.courses.map Course.semester).eraseDups = [s.number] := by
      rw [List.eraseDups_cons, List.filter_eq_nil_iff.2 fun n hn => by simp [hown n hn]]
      rfl
    have hmem : ∀ n, n ∉ s.number :: s.courses.map Course.semester ↔ n ∉ [s.number] := by
      intro n
      rw [List.mem_cons, List.mem_singleton]
      exact not_congr (or_iff_left_of_imp (hown n))
    rw [List.flatMap_cons, eraseDups_append_eq_filter, hone, ih hss]
    simp only [hmem]
    exact (eraseDups_append_eq_filter [s.number] (ss.map Semester.number)).symm

section

variable (es : List Entry)

theorem courses_steps_entries :
    History.courses (es.flatMap Entry.steps) =
      (es.flatMap Entry.semesters).flatMap Semester.courses := by
  rw [← Curriculum.toList_store_ofHistory, ← Curriculum.ofEntries_eq_ofHistory,
    Curriculum.toList_store_ofEntries]

theorem numbers_steps_entries :
    History.numbers (es.flatMap Entry.steps) =
      (es.flatMap Entry.semesters).flatMap fun s =>
        s.number :: s.courses.map Course.semester := by
  rw [History.numbers, Curriculum.filterMap_steps_entries fun _ => rfl]
  refine List.flatMap_congr fun s _ => ?_
  rw [Semester.steps, List.filterMap_cons, List.filterMap_map]
  have hmap : (s.courses.filterMap fun c => some c.semester) = s.courses.map Course.semester :=
    congrFun List.filterMap_eq_map' s.courses
  exact congrArg (s.number :: ·) hmap

theorem coursesBySemester_ofEntries :
    (Curriculum.ofEntries es).coursesBySemester =
      (Curriculum.ofEntries es).semesterNumbers.map fun n =>
        (n, ((es.flatMap Entry.semesters).flatMap Semester.courses).filter (·.semester = n)) := by
  rw [Curriculum.ofEntries_eq_ofHistory, Curriculum.coursesBySemester_ofHistory]
  simp only [Curriculum.getD_semester?_ofHistory, courses_steps_entries]

/-- What a code stands for is one of the courses, and it has that code. -/
theorem mem_courses_of_mem_coursesByCode {e : String × Course}
    (he : e ∈ (Curriculum.ofEntries es).coursesByCode) :
    e.2.code = e.1 ∧ e.2 ∈ (es.flatMap Entry.semesters).flatMap Semester.courses := by
  rw [Curriculum.ofEntries_eq_ofHistory] at he
  obtain ⟨⟨code, id⟩, hid, he⟩ := List.mem_filterMap.1 he
  obtain ⟨course, hget, hcode⟩ := Curriculum.exists_get?_of_mem_codes _ hid
  simp only [hget, Option.map_some, Option.some.injEq] at he
  subst he
  rw [Curriculum.get?_ofHistory, courses_steps_entries] at hget
  exact ⟨hcode, List.mem_of_getElem? hget⟩

end

/-- Where every course names the semester that it stands in, the curriculum has its shape. -/
theorem Curriculum.shaped_ofEntries {es : List Entry}
    (h : ∀ s ∈ es.flatMap Entry.semesters, ∀ c ∈ s.courses, c.semester = s.number) :
    (Curriculum.ofEntries es).Shaped ((es.flatMap Entry.semesters).flatMap Semester.courses) := by
  have hkeys : (Curriculum.ofEntries es).semesterNumbers =
      ((es.flatMap Entry.semesters).map Semester.number).eraseDups := by
    rw [Curriculum.ofEntries_eq_ofHistory, Curriculum.semesterNumbers,
      Curriculum.keys_semesters_ofHistory, numbers_steps_entries, eraseDups_numbers h]
  have hlists := coursesBySemester_ofEntries es
  have hnumber : ∀ c ∈ (es.flatMap Entry.semesters).flatMap Semester.courses,
      c.semester ∈ (Curriculum.ofEntries es).semesterNumbers := by
    intro c hc
    obtain ⟨s, hs, hc⟩ := List.mem_flatMap.1 hc
    rw [hkeys, List.mem_eraseDups, h s hs c hc]
    exact List.mem_map_of_mem hs
  constructor
  case numbers =>
    rw [hkeys, Curriculum.blocks_ofEntries, List.map_map]
    rfl
  case filed =>
    rw [hlists, List.forall_mem_map]
    intro n _ c hc
    exact of_decide_eq_true (List.mem_filter.1 hc).2
  case ordered =>
    rw [hlists, List.forall_mem_map]
    exact fun n _ => rfl
  case counted =>
    rw [hlists, List.map_map]
    exact sum_length_filter (hkeys ▸ nodup_eraseDups _) hnumber
  case coded =>
    intro e he
    obtain ⟨hcode, hcourse⟩ := mem_courses_of_mem_coursesByCode es he
    rw [hlists]
    exact ⟨hcode, _, List.mem_map.2 ⟨_, hnumber _ hcourse, rfl⟩,
      List.mem_filter.2 ⟨hcourse, decide_eq_true rfl⟩⟩

/-! ## 2.  What only a source has -/

/-- How many lines a source has.  A newline at its end does not begin another one. -/
def writtenLines (source : String) : Nat :=
  source.toList.dropLast.count '\n' + 1

/-- A curriculum with codes and lines as a source has them. -/
structure Curriculum.WrittenIn (c : Curriculum) (source : String) : Prop where
  /-- The codes of courses and of prerequisites are written with digits. -/
  codes : ∀ e ∈ c.coursesBySemester, ∀ x ∈ e.2, ∀ code ∈ x.code :: x.prerequisites, IsCode code
  /-- So are those that stand for courses. -/
  coded : ∀ e ∈ c.coursesByCode, IsCode e.1 ∧ ∀ code ∈ e.2.code :: e.2.prerequisites, IsCode code
  /-- The blocks are in the order of their lines. -/
  sorted : (c.blocks.map Block.line).Pairwise (· ≤ ·)
  /-- Each block begins on a line of the source. -/
  within : ∀ b ∈ c.blocks, 1 ≤ b.line ∧ b.line ≤ writtenLines source

theorem isCode_of_mem_numbersOf {source text : String}
    (h : text ∈ numbersOf (lex source).tokens) : IsCode text := by
  obtain ⟨t, ht, hk, rfl⟩ := mem_numbersOf_iff.1 h
  obtain ⟨lexeme, hspells⟩ := exists_spells_of_mem_lex ht (isFinish_eq_false hk nofun)
  rw [hk] at hspells
  rw [IsCode]
  generalize t.text.toList = text at hspells ⊢
  generalize hkind : Kind.number = k at hspells
  cases hspells with
  | number hne hdigits => exact ⟨hne, hdigits⟩
  | word => exact absurd hkind.symm (Kind.ofWord_ne rfl _)
  | delimiter | quoted => cases hkind

open Segment in
/-- A token starts on one of the lines that its segments take up, and if the last of these is
empty, on one of the others. -/
theorem line_of_mem_tokensOf {p : Position} {ss : List Segment} (hss : AllStand ss) {t : Token}
    (ht : t ∈ tokensOf (place p ss)) :
    p.line ≤ t.line ∧ t.line ≤ p.line + (ss.flatMap text).dropLast.count '\n' := by
  induction ss generalizing p with
  | nil => cases ht
  | cons s ss ih =>
    obtain ⟨⟨q, s'⟩, hq, ht'⟩ := List.mem_filterMap.1 ht
    rcases List.mem_cons.1 hq with heq | hq
    · obtain ⟨rfl, -⟩ := Prod.mk.inj heq.symm
      have hline : t.line = p.line := congrArg (fun x => (ofLex x).1) (lineColumn_of_mem_token? ht')
      omega
    · have hne : ss.flatMap text ≠ [] := by
        intro hnil
        obtain rfl := Cut.eq_nil_of_flatMap_text hss.2 hnil
        cases hq
      obtain ⟨hlow, hhigh⟩ := ih hss.2 (List.mem_filterMap.2 ⟨_, hq, ht'⟩)
      rw [Position.line_advance] at hlow hhigh
      rw [List.flatMap_cons, List.dropLast_append_of_ne_nil hne, List.count_append]
      omega

theorem line_of_mem_lex {source : String} {t : Token} (ht : t ∈ (lex source).tokens)
    (hfinish : t.isFinish = false) : 1 ≤ t.line ∧ t.line ≤ writtenLines source := by
  rcases List.mem_append.1 ht with ht | ht
  · have hline := line_of_mem_tokensOf (Segment.allStand_split source.toList) ht
    rw [Segment.flatMap_text_split, Nat.add_comm] at hline
    exact hline
  · obtain rfl := List.mem_singleton.1 ht
    cases hfinish

theorem pairwise_line_lex (source : String) :
    ((lex source).tokens.map Token.line).Pairwise (· ≤ ·) := by
  refine List.pairwise_map.2 ((pairwise_lineColumn_lex source).imp fun {t u} hlt => ?_)
  rcases Prod.Lex.toLex_lt_toLex.1 hlt with hlt | ⟨heq, -⟩
  · exact Nat.le_of_lt hlt
  · exact Nat.le_of_eq heq

/-- What is read from the tokens of a source has codes and lines as the source has them. -/
theorem Curriculum.writtenIn_ofEntries {source : String} {es : List Entry} {rest : List Token}
    (h : AmongSemesters (lex source).tokens (es.flatMap Entry.semesters) rest)
    (hshape : (Curriculum.ofEntries es).Shaped
      ((es.flatMap Entry.semesters).flatMap Semester.courses)) :
    (Curriculum.ofEntries es).WrittenIn source := by
  have hcodes : ∀ c ∈ (es.flatMap Entry.semesters).flatMap Semester.courses,
      ∀ code ∈ c.code :: c.prerequisites, IsCode code := fun c hc code hcode =>
    isCode_of_mem_numbersOf (h.courses.codes_subset c hc hcode)
  constructor
  case codes =>
    intro e he c hc
    rw [hshape.ordered e he] at hc
    exact hcodes c (List.mem_of_mem_filter hc)
  case coded =>
    intro e he
    obtain ⟨hcode, hcourse⟩ := mem_courses_of_mem_coursesByCode es he
    have hown := hcodes _ hcourse
    exact ⟨hcode ▸ hown _ List.mem_cons_self, hown⟩
  case sorted =>
    have hlines : (Curriculum.ofEntries es).blocks.map Block.line =
        (es.flatMap Entry.semesters).map Semester.line := by
      rw [Curriculum.blocks_ofEntries, List.map_map]
      rfl
    rw [hlines]
    exact (pairwise_line_lex source).sublist h.lines_sublist
  case within =>
    rw [Curriculum.blocks_ofEntries, List.forall_mem_map]
    intro s hs
    obtain ⟨us, mid, hus, hsemester⟩ := h.exists_part headed_semesterOf s hs
    obtain ⟨w, colon, number, inner, rfl, -, hk, hline, -⟩ := hsemester.exists_head
    have hw := line_of_mem_lex (hus.subset List.mem_cons_self) (isFinish_eq_false hk nofun)
    rwa [hline] at hw

/-- **The shape of a plan that was read.**  The courses that are read stand in the tokens one
after another, and the lists of the semesters share them out: a list for each number of a block,
in order of first appearance, with the courses of this semester in the order of the tokens.  Each
code stands for a course that has it and that stands in the list of its semester.  If the tokens
are those of a source, then codes are written with digits, and blocks begin on lines of the
source, in order. -/
theorem plan_has_shape {ts : List Token} {c : Curriculum}
    (h : (Curriculum.ofTokens ts).result = .ok c) :
    (∃ es rest, (Parser.entries ts).result = .ok (es, rest) ∧
        AmongCourses ts ((es.flatMap Entry.semesters).flatMap Semester.courses) rest ∧
        c.Shaped ((es.flatMap Entry.semesters).flatMap Semester.courses)) ∧
      ∀ source, ts = (lex source).tokens → c.WrittenIn source := by
  obtain ⟨es, rest, hread, rfl⟩ := result_ofTokens_eq_ok_iff.1 h
  have hamong := (Parser.result_entries_eq_ok_iff.1 hread).1.semesters
  have hshape := Curriculum.shaped_ofEntries hamong.semester_of_mem_courses
  refine ⟨⟨es, rest, hread, hamong.courses, hshape⟩, ?_⟩
  rintro source rfl
  exact Curriculum.writtenIn_ofEntries hamong hshape

/-- Three blocks, two of which have the same number, and a code that is used twice. -/
def woven : String :=
  "Semestre: 2 \x7bCurso: 1 \x7b\x7d\x7d\n" ++
    "Semestre: 1 \x7bCurso: 1 \x7bPrerequisito: (3)\x7d\x7d\n" ++
    "Semestre: 2 \x7bCurso: 3 \x7b\x7d\x7d\n"

theorem plan_has_shape_woven :
    ∃ c, (Curriculum.ofTokens (lex woven).tokens).result = .ok c ∧ c.semesterNumbers = [2, 1] ∧
      c.blocks.map Block.number = [2, 1, 2] ∧
      c.coursesBySemester.map (fun e => e.2.map Course.code) = [["1", "3"], ["1"]] ∧
      writtenLines woven = 3 ∧ (∃ courses, c.Shaped courses ∧ courses.length = 3) ∧
      c.WrittenIn woven := by
  have hread : (Curriculum.ofTokens (lex woven).tokens).result = .ok (.ofEntries
      [.semester ⟨2, 1, [.ofDetails "1" 2 []]⟩,
        .semester ⟨1, 2, [.ofDetails "1" 1 [.prerequisites ["3"]]]⟩,
        .semester ⟨2, 3, [.ofDetails "3" 2 []]⟩]) := by
    decide +kernel
  obtain ⟨⟨es, rest, -, -, hshape⟩, hwritten⟩ := plan_has_shape hread
  have hcount := hshape.counted
  refine ⟨_, hread, by decide +kernel, by decide +kernel, by decide +kernel, by decide +kernel,
    ⟨_, hshape, hcount.symm.trans (by decide +kernel)⟩, hwritten _ rfl⟩

end StudyPlan
