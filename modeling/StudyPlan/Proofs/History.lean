import Mathlib.Data.List.Induction
import Mathlib.Data.List.Nodup
import StudyPlan.Curriculum.Basic

/-!
# The history of a curriculum

A curriculum comes about in single steps: it is given a title, a block is opened in it,
a course is added to it.  Adding a semester or an entry is several such steps.  The two
indices are kept up while this goes on, each step changing at most one list of one and
one key of the other, and the question is what they hold in the end.

## What the steps say

The answer does not mention the indices.  A list of steps tells the titles that were
given, the blocks that were opened, the courses that were added and the semester
numbers that were touched, and every part of the curriculum is a plain function of
these four lists (`title_ofHistory` to `find?_codes_ofHistory`):

* the semesters are the numbers touched, in order of first appearance, each with the
  ids of its own courses (`idsWhere`);
* the codes are those of the courses, in order of first appearance, each with the last
  of the ids of its courses.

Each of these is one induction over the steps from their end, since a step adds to the
end of the store.

## Ids

The id of a course is its place among all courses ever added.  So the ids of a semester
rise, the newest course of a code is the last one, and an id that was handed out keeps
its course for good.
-/

namespace StudyPlan

/-! ## First appearances -/

section FirstAppearances

variable {κ : Type} [DecidableEq κ]

/-- A key that appears once more does not appear for the first time. -/
theorem eraseDups_concat (ks : List κ) (k : κ) :
    (ks ++ [k]).eraseDups = if k ∈ ks then ks.eraseDups else ks.eraseDups ++ [k] := by
  rw [List.eraseDups_append]
  by_cases h : k ∈ ks
  · simp [List.removeAll, h]
  · simp [List.removeAll, h, List.eraseDups_cons]

theorem nodup_eraseDups (ks : List κ) : ks.eraseDups.Nodup := by
  induction ks using List.reverseRecOn with
  | nil => simp
  | append_singleton ks k ih =>
    rw [eraseDups_concat]
    split
    · exact ih
    · next hk =>
      refine List.nodup_append'.2 ⟨ih, List.nodup_singleton k, ?_⟩
      rwa [List.disjoint_singleton, List.mem_eraseDups]

/-- The first appearances in two lists, one behind the other. -/
theorem eraseDups_append_eq_filter (ks ks' : List κ) :
    (ks ++ ks').eraseDups = ks.eraseDups ++ ks'.eraseDups.filter (· ∉ ks) := by
  induction ks' using List.reverseRecOn with
  | nil => simp
  | append_singleton ks' k ih =>
    rw [← List.append_assoc, eraseDups_concat, eraseDups_concat, ih]
    by_cases hk : k ∈ ks
    · by_cases hk' : k ∈ ks' <;> simp [hk, hk']
    · by_cases hk' : k ∈ ks' <;> simp [hk, hk']

end FirstAppearances

/-! ## The ids of some of the courses -/

/-- The ids of those courses of which `p` holds, when the courses are stored in this
order. -/
def idsWhere (p : Course → Bool) (courses : List Course) : List CourseId :=
  (courses.zipIdx.filter fun e => p e.1).map fun e => ⟨e.2⟩

section IdsWhere

variable {p : Course → Bool} {courses : List Course}

@[simp] theorem idsWhere_nil : idsWhere p [] = [] := rfl

theorem idsWhere_concat (course : Course) :
    idsWhere p (courses ++ [course]) =
      idsWhere p courses ++ if p course then [⟨courses.length⟩] else [] := by
  rw [idsWhere, List.zipIdx_append, List.filter_append, List.map_append, idsWhere]
  split <;> simp [*]

/-- An id is among them exactly when a course is stored under it of which `p` holds. -/
theorem mem_idsWhere_iff {id : CourseId} :
    id ∈ idsWhere p courses ↔ ∃ course, courses[id.index]? = some course ∧ p course = true := by
  obtain ⟨i⟩ := id
  simp [idsWhere, List.mem_zipIdx_iff_getElem?]

/-- The ids rise. -/
theorem pairwise_idsWhere : (idsWhere p courses).Pairwise (·.index < ·.index) := by
  have hrange : courses.zipIdx.Pairwise fun e e' => e.2 < e'.2 := by
    rw [← List.pairwise_map, List.zipIdx_map_snd]
    exact List.pairwise_lt_range'
  rw [idsWhere, List.pairwise_map]
  exact hrange.filter _

theorem nodup_idsWhere : (idsWhere p courses).Nodup :=
  pairwise_idsWhere.imp fun h heq => absurd (congrArg CourseId.index heq) (Nat.ne_of_lt h)

/-- The courses behind the ids are those of which `p` holds, also when more courses were
stored since. -/
theorem filterMap_idsWhere (later : List Course) :
    (idsWhere p courses).filterMap (fun id => (courses ++ later)[id.index]?) =
      courses.filter p := by
  induction courses using List.reverseRecOn generalizing later with
  | nil => rfl
  | append_singleton courses course ih =>
    rw [idsWhere_concat, List.filterMap_append, List.filter_append, List.append_assoc, ih]
    cases hp : p course <;> simp [hp]

/-- The course behind the last of the ids is the last course of which `p` holds. -/
theorem getLast?_idsWhere_bind :
    (idsWhere p courses).getLast?.bind (fun id => courses[id.index]?) =
      (courses.filter p).getLast? := by
  have hcourses := @filterMap_idsWhere p courses []
  rw [List.append_nil] at hcourses
  rw [← hcourses]
  -- every id has its course, so none is dropped on the way
  have hall : ∀ id ∈ idsWhere p courses, ∃ course, courses[id.index]? = some course :=
    fun id hid => (mem_idsWhere_iff.1 hid).imp fun _ h => h.1
  generalize idsWhere p courses = ids at hall ⊢
  rcases List.eq_nil_or_concat ids with rfl | ⟨ids, id, rfl⟩
  · rfl
  · obtain ⟨course, hcourse⟩ := hall id (by simp)
    simp [hcourse]

end IdsWhere

/-! ## Steps -/

namespace Curriculum

/-- One thing that is done to a curriculum. -/
inductive Step where
  | withTitle (title : String)
  | openBlock (b : Block)
  | addCourse (course : Course)
  deriving DecidableEq, Repr

namespace Step

/-- What the step makes of a curriculum. -/
def apply (c : Curriculum) : Step → Curriculum
  | withTitle title => c.withTitle title
  | openBlock b => c.openBlock b
  | addCourse course => c.addCourse course

/-- The title that the step gives. -/
def title? : Step → Option String
  | withTitle title => some title
  | _ => none

/-- The block that the step opens. -/
def block? : Step → Option Block
  | openBlock b => some b
  | _ => none

/-- The course that the step adds. -/
def course? : Step → Option Course
  | addCourse course => some course
  | _ => none

/-- The semester number that the step touches: it opens a block or files a course under
it. -/
def number? : Step → Option UInt32
  | withTitle _ => none
  | openBlock b => some b.number
  | addCourse course => some course.semester

end Step

/-- What was done to a curriculum, from its beginning. -/
abbrev History := List Step

namespace History

/-- The titles that were given. -/
def titles (h : History) : List String := h.filterMap Step.title?

/-- The blocks that were opened. -/
def blocks (h : History) : List Block := h.filterMap Step.block?

/-- The courses that were added. -/
def courses (h : History) : List Course := h.filterMap Step.course?

/-- The semester numbers that were touched. -/
def numbers (h : History) : List UInt32 := h.filterMap Step.number?

/-- The codes of the courses that were added. -/
def codes (h : History) : List String := h.courses.map Course.code

variable (h h' : History)

theorem titles_append : titles (h ++ h') = h.titles ++ h'.titles := List.filterMap_append

theorem blocks_append : blocks (h ++ h') = h.blocks ++ h'.blocks := List.filterMap_append

theorem courses_append : courses (h ++ h') = h.courses ++ h'.courses := List.filterMap_append

theorem numbers_append : numbers (h ++ h') = h.numbers ++ h'.numbers := List.filterMap_append

theorem codes_append : codes (h ++ h') = h.codes ++ h'.codes := by
  rw [codes, courses_append, List.map_append, codes, codes]

/-- A semester number was touched by opening a block or by adding a course. -/
theorem mem_numbers_iff {n : UInt32} :
    n ∈ h.numbers ↔
      (∃ b ∈ h.blocks, b.number = n) ∨ ∃ course ∈ h.courses, course.semester = n := by
  induction h with
  | nil => simp [numbers, blocks, courses]
  | cons s h ih =>
    rw [numbers, blocks, courses] at ih
    cases s with
    | withTitle title =>
      simpa [numbers, blocks, courses, Step.number?, Step.block?, Step.course?] using ih
    | openBlock b =>
      simp only [numbers, blocks, courses, List.filterMap_cons, Step.number?, Step.block?,
        Step.course?, List.mem_cons, exists_eq_or_imp, or_assoc]
      rw [ih, eq_comm]
    | addCourse course =>
      simp only [numbers, blocks, courses, List.filterMap_cons, Step.number?, Step.block?,
        Step.course?, List.mem_cons, exists_eq_or_imp, or_left_comm]
      rw [ih, eq_comm]

end History

/-- The curriculum that the steps lead to. -/
def ofHistory (h : History) : Curriculum :=
  h.foldl Step.apply empty

theorem ofHistory_concat (h : History) (s : Step) :
    ofHistory (h ++ [s]) = s.apply (ofHistory h) := by
  rw [ofHistory, List.foldl_append]
  rfl

/-! ## What the steps lead to -/

variable (h : History)

theorem title_ofHistory : (ofHistory h).title = h.titles.getLast?.getD "" := by
  induction h using List.reverseRecOn with
  | nil => rfl
  | append_singleton h s ih =>
    rw [ofHistory_concat, History.titles_append]
    cases s with
    | withTitle title =>
      rw [List.getLast?_append]
      rfl
    | openBlock | addCourse =>
      exact ih.trans (congrArg (·.getLast?.getD "") (List.append_nil _).symm)

theorem blocks_ofHistory : (ofHistory h).blocks = h.blocks := by
  induction h using List.reverseRecOn with
  | nil => rfl
  | append_singleton h s ih =>
    rw [ofHistory_concat, History.blocks_append, ← ih]
    cases s with
    | openBlock b => rfl
    | withTitle | addCourse => exact (List.append_nil _).symm

/-- Steps leave the store as it is and add their courses behind it. -/
theorem toList_store_foldl_apply (c : Curriculum) (h : History) :
    (h.foldl Step.apply c).store.toList = c.store.toList ++ h.courses := by
  induction h generalizing c with
  | nil => exact (List.append_nil _).symm
  | cons s h ih =>
    rw [List.foldl_cons, ih]
    cases s with
    | addCourse course =>
      show (c.store.push course).toList ++ History.courses h = _
      rw [Array.toList_push, List.append_assoc]
      rfl
    | withTitle | openBlock => rfl

theorem toList_store_ofHistory : (ofHistory h).store.toList = h.courses :=
  toList_store_foldl_apply empty h

theorem size_store_ofHistory : (ofHistory h).store.size = h.courses.length := by
  rw [← toList_store_ofHistory, Array.length_toList]

theorem get?_ofHistory (id : CourseId) : (ofHistory h).get? id = h.courses[id.index]? := by
  rw [get?, ← toList_store_ofHistory, Array.getElem?_toList]

theorem nextId_ofHistory : (ofHistory h).nextId = ⟨h.courses.length⟩ := by
  rw [nextId, size_store_ofHistory]

/-- The semesters stand in the order in which their numbers first appeared. -/
theorem keys_semesters_ofHistory : (ofHistory h).semesters.keys = h.numbers.eraseDups := by
  induction h using List.reverseRecOn with
  | nil => rfl
  | append_singleton h s ih =>
    rw [ofHistory_concat, History.numbers_append]
    cases s with
    | withTitle => exact ih.trans (congrArg _ (List.append_nil _).symm)
    | openBlock b =>
      refine (OrderedMap.keys_upsert _ _ _ _).trans ?_
      simp only [ih, List.mem_eraseDups]
      exact (eraseDups_concat _ b.number).symm
    | addCourse course =>
      refine (OrderedMap.keys_upsert _ _ _ _).trans ?_
      simp only [ih, List.mem_eraseDups]
      exact (eraseDups_concat _ course.semester).symm

/-- Under a semester number the ids of its own courses are filed. -/
theorem getD_find?_semesters_ofHistory (n : UInt32) :
    ((ofHistory h).semesters.find? n).getD [] = idsWhere (·.semester = n) h.courses := by
  induction h using List.reverseRecOn with
  | nil => rfl
  | append_singleton h s ih =>
    rw [ofHistory_concat, History.courses_append]
    cases s with
    | withTitle => exact ih.trans (congrArg _ (List.append_nil _).symm)
    | openBlock b =>
      refine Eq.trans ?_ (ih.trans (congrArg _ (List.append_nil _).symm))
      show (((ofHistory h).semesters.upsert b.number [] id).find? n).getD [] = _
      by_cases hn : n = b.number
      · rw [hn, OrderedMap.find?_upsert_self]
        rfl
      · rw [OrderedMap.find?_upsert_of_ne _ hn]
    | addCourse course =>
      refine Eq.trans ?_ (idsWhere_concat course).symm
      show (((ofHistory h).semesters.upsert course.semester []
        (· ++ [(ofHistory h).nextId])).find? n).getD [] = _
      by_cases hn : n = course.semester
      · rw [hn] at ih ⊢
        rw [OrderedMap.find?_upsert_self, ih, nextId_ofHistory]
        simp
      · rw [OrderedMap.find?_upsert_of_ne _ hn, ih]
        simp [Ne.symm hn]

theorem find?_semesters_ofHistory (n : UInt32) :
    (ofHistory h).semesters.find? n =
      if n ∈ h.numbers then some (idsWhere (·.semester = n) h.courses) else none := by
  have hsome := OrderedMap.isSome_find?_iff (ofHistory h).semesters n
  rw [keys_semesters_ofHistory, List.mem_eraseDups] at hsome
  rw [← getD_find?_semesters_ofHistory]
  cases hfind : (ofHistory h).semesters.find? n with
  | none => simp_all
  | some ids => simp_all

/-- The codes stand in the order in which they first appeared. -/
theorem keys_codes_ofHistory : (ofHistory h).codes.keys = h.codes.eraseDups := by
  induction h using List.reverseRecOn with
  | nil => rfl
  | append_singleton h s ih =>
    rw [ofHistory_concat, History.codes_append]
    cases s with
    | withTitle | openBlock => exact ih.trans (congrArg _ (List.append_nil _).symm)
    | addCourse course =>
      refine (OrderedMap.keys_upsert _ _ _ _).trans ?_
      simp only [ih, List.mem_eraseDups]
      exact (eraseDups_concat _ course.code).symm

/-- A code stands for the last of the courses that have it. -/
theorem find?_codes_ofHistory (code : String) :
    (ofHistory h).codes.find? code = (idsWhere (·.code = code) h.courses).getLast? := by
  induction h using List.reverseRecOn with
  | nil => rfl
  | append_singleton h s ih =>
    rw [ofHistory_concat, History.courses_append]
    cases s with
    | withTitle | openBlock =>
      exact ih.trans (congrArg (fun cs => (idsWhere _ cs).getLast?) (List.append_nil _).symm)
    | addCourse course =>
      refine Eq.trans ?_ (congrArg _ (idsWhere_concat course).symm)
      show ((ofHistory h).codes.insert course.code (ofHistory h).nextId).find? code = _
      by_cases hcode : code = course.code
      · rw [hcode, OrderedMap.insert, OrderedMap.find?_upsert_self, nextId_ofHistory]
        simp
      · rw [OrderedMap.insert, OrderedMap.find?_upsert_of_ne _ hcode, ih]
        simp [Ne.symm hcode]

end Curriculum

/-! ## Semesters and entries as steps -/

open Curriculum (History Step)

/-- The block that a semester opens. -/
def Semester.block (s : Semester) : Block :=
  ⟨s.number, s.line⟩

/-- The semesters of an entry. -/
def Entry.semesters : Entry → List Semester
  | .program p => p.semesters
  | .semester s => [s]

/-- The steps that add a semester: its block, then its courses. -/
def Semester.steps (s : Semester) : History :=
  .openBlock ⟨s.number, s.line⟩ :: s.courses.map .addCourse

/-- The steps that add an entry. -/
def Entry.steps : Entry → History
  | .program p => .withTitle p.title :: p.semesters.flatMap Semester.steps
  | .semester s => s.steps

namespace Curriculum

theorem foldl_apply_semester (c : Curriculum) (s : Semester) :
    s.steps.foldl Step.apply c = c.addSemester s := by
  rw [Semester.steps, List.foldl_cons, List.foldl_map]
  rfl

theorem foldl_apply_entry (c : Curriculum) (e : Entry) :
    e.steps.foldl Step.apply c = c.addEntry e := by
  cases e with
  | semester s => exact foldl_apply_semester c s
  | program p =>
    simp only [Entry.steps, List.foldl_cons, List.foldl_flatMap, foldl_apply_semester]
    rfl

/-- The curriculum of some entries is where their steps lead. -/
theorem ofEntries_eq_ofHistory (es : List Entry) :
    ofEntries es = ofHistory (es.flatMap Entry.steps) := by
  rw [ofHistory, List.foldl_flatMap, ofEntries]
  simp only [foldl_apply_entry]

/-- A history of entries does to blocks and courses what its semesters do. -/
theorem filterMap_steps_entries {β : Type} {f : Step → Option β}
    (hf : ∀ title, f (.withTitle title) = none) (es : List Entry) :
    (es.flatMap Entry.steps).filterMap f =
      (es.flatMap Entry.semesters).flatMap fun s => s.steps.filterMap f := by
  rw [List.filterMap_flatMap, List.flatMap_assoc]
  refine List.flatMap_congr fun e _ => ?_
  cases e with
  | semester s => exact (List.flatMap_singleton ..).symm
  | program p => rw [Entry.steps, List.filterMap_cons, hf, List.filterMap_flatMap, Entry.semesters]

/-- The blocks are those of the semesters, in the same order. -/
theorem blocks_ofEntries (es : List Entry) :
    (ofEntries es).blocks = (es.flatMap Entry.semesters).map Semester.block := by
  rw [ofEntries_eq_ofHistory, blocks_ofHistory, History.blocks,
    filterMap_steps_entries fun _ => rfl, List.map_eq_flatMap]
  refine List.flatMap_congr fun s _ => ?_
  rw [Semester.steps, List.filterMap_cons, List.filterMap_map]
  exact congrArg (s.block :: ·) (List.filterMap_eq_nil_iff.2 fun _ _ => rfl)

/-- The store holds the courses of the semesters, in the same order. -/
theorem toList_store_ofEntries (es : List Entry) :
    (ofEntries es).store.toList = (es.flatMap Entry.semesters).flatMap Semester.courses := by
  rw [ofEntries_eq_ofHistory, toList_store_ofHistory, History.courses,
    filterMap_steps_entries fun _ => rfl]
  refine List.flatMap_congr fun s _ => ?_
  rw [Semester.steps, List.filterMap_cons, List.filterMap_map]
  exact List.filterMap_some

end Curriculum
end StudyPlan
