import StudyPlan.Proofs.History

/-!
# The indices agree with the store

A curriculum keeps one store and two indices into it.  Nothing in its type forces the
three to agree; what does is that every curriculum has a history.  Whatever is done to a
new curriculum, or to one that entries added up to, is a list of steps
(`Origin.run_eq_ofHistory`), and `Proofs.History` tells what the parts of a curriculum are
in terms of its steps.

## 1.  What agreement means

`Consistent` speaks of the curriculum alone.  No id in an index leads nowhere, so no
look-up drops anything.  Every stored course is filed exactly once, under the semester
that it names itself, also when it was added with a block of another number, and in the
order of the store.  The codes are those of the stored courses, and each stands for the
newest course that has it.

## 2.  What look-ups answer

`Answers` speaks of a curriculum and its history.  It does not mention ids: a look-up
finds a part of the list of all courses that were ever added.

## 3.  Ids that are handed out

`nextId` is the id that the next addition hands out.  It is above all ids there are, and
it leads to the same course for good.
-/

namespace StudyPlan
namespace Curriculum

/-! ## What can be done to a curriculum -/

/-- Something that can be done to a curriculum from outside. -/
inductive Operation where
  | withTitle (title : String)
  | openBlock (b : Block)
  | addSemester (s : Semester)
  | addCourse (course : Course)
  deriving DecidableEq, Repr

namespace Operation

/-- What the operation makes of a curriculum. -/
def apply (c : Curriculum) : Operation → Curriculum
  | withTitle title => c.withTitle title
  | openBlock b => c.openBlock b
  | addSemester s => c.addSemester s
  | addCourse course => c.addCourse course

/-- The steps that the operation consists of. -/
def steps : Operation → History
  | withTitle title => [.withTitle title]
  | openBlock b => [.openBlock b]
  | addSemester s => s.steps
  | addCourse course => [.addCourse course]

theorem foldl_apply_steps (c : Curriculum) (op : Operation) :
    op.steps.foldl Step.apply c = op.apply c := by
  cases op with
  | addSemester s => exact foldl_apply_semester c s
  | withTitle | openBlock | addCourse => rfl

end Operation

/-- What a curriculum can start from. -/
inductive Origin where
  | empty
  | entries (es : List Entry)
  deriving DecidableEq, Repr

namespace Origin

/-- The curriculum to start with. -/
def curriculum : Origin → Curriculum
  | empty => .empty
  | entries es => .ofEntries es

/-- The steps that have led to it. -/
def steps : Origin → History
  | empty => []
  | entries es => es.flatMap Entry.steps

/-- The curriculum after some operations. -/
def run (o : Origin) (ops : List Operation) : Curriculum :=
  ops.foldl Operation.apply o.curriculum

/-- All steps from the very beginning. -/
def history (o : Origin) (ops : List Operation) : History :=
  o.steps ++ ops.flatMap Operation.steps

/-- **A curriculum is where its history leads.** -/
theorem run_eq_ofHistory (o : Origin) (ops : List Operation) :
    o.run ops = ofHistory (o.history ops) := by
  have horigin : o.curriculum = ofHistory o.steps := by
    cases o with
    | empty => rfl
    | entries es => exact ofEntries_eq_ofHistory es
  rw [run, history, ofHistory, List.foldl_append, List.foldl_flatMap, horigin]
  simp only [Operation.foldl_apply_steps]
  rfl

end Origin

/-! ## Agreement of the indices and the store -/

/-- The store and the indices of a curriculum agree. -/
structure Consistent (c : Curriculum) : Prop where
  /-- What is filed under a semester is stored. -/
  filed_stored : ∀ e ∈ c.semesters.entries, ∀ id ∈ e.2, id.index < c.store.size
  /-- What a code stands for is stored. -/
  coded_stored : ∀ e ∈ c.codes.entries, e.2.index < c.store.size
  /-- No look-up of the courses of a semester drops one. -/
  length_filed : ∀ e ∈ c.semesters.entries, (e.2.filterMap c.get?).length = e.2.length
  /-- No look-up of the codes drops one. -/
  length_coded : c.coursesByCode.length = c.codes.size
  /-- Every stored course is filed exactly once. -/
  filed_once : ∀ i < c.store.size, (c.semesters.entries.flatMap Prod.snd).count ⟨i⟩ = 1
  /-- It is filed under the semester that it names. -/
  filed_own : ∀ e ∈ c.semesters.entries, ∀ id ∈ e.2,
    ∃ course, c.get? id = some course ∧ course.semester = e.1
  /-- The courses of a semester stand in the order of the store. -/
  filed_rising : ∀ e ∈ c.semesters.entries, e.2.Pairwise (·.index < ·.index)
  /-- No semester number is listed twice. -/
  nodup_semesters : c.semesters.keys.Nodup
  /-- The codes are those of the stored courses, in order of first appearance. -/
  keys_codes : c.codes.keys = (c.store.toList.map Course.code).eraseDups
  /-- A code stands for a course that has it. -/
  coded_own : ∀ e ∈ c.codes.entries, ∃ course, c.get? e.2 = some course ∧ course.code = e.1
  /-- No newer course has the code. -/
  coded_newest : ∀ e ∈ c.codes.entries, ∀ id course, c.get? id = some course →
    course.code = e.1 → id.index ≤ e.2.index

section

variable (h : History)

theorem nodup_keys_semesters_ofHistory : (ofHistory h).semesters.keys.Nodup := by
  rw [keys_semesters_ofHistory]
  exact nodup_eraseDups _

theorem nodup_keys_codes_ofHistory : (ofHistory h).codes.keys.Nodup := by
  rw [keys_codes_ofHistory]
  exact nodup_eraseDups _

/-- The list of a semester is that of the ids of its own courses. -/
theorem eq_idsWhere_of_mem_semesters {e : UInt32 × List CourseId}
    (he : e ∈ (ofHistory h).semesters.entries) :
    e.2 = idsWhere (·.semester = e.1) h.courses := by
  have hfind := OrderedMap.find?_eq_some_of_mem (nodup_keys_semesters_ofHistory h) he
  rw [← getD_find?_semesters_ofHistory, hfind, Option.getD_some]

/-- A code stands for the last id of the courses that have it. -/
theorem getLast?_idsWhere_of_mem_codes {e : String × CourseId}
    (he : e ∈ (ofHistory h).codes.entries) :
    (idsWhere (·.code = e.1) h.courses).getLast? = some e.2 := by
  rw [← find?_codes_ofHistory]
  exact OrderedMap.find?_eq_some_of_mem (nodup_keys_codes_ofHistory h) he

/-- What is filed under a semester is stored and names that semester. -/
theorem exists_get?_of_mem_filed {e : UInt32 × List CourseId}
    (he : e ∈ (ofHistory h).semesters.entries) {id : CourseId} (hid : id ∈ e.2) :
    ∃ course, (ofHistory h).get? id = some course ∧ course.semester = e.1 := by
  rw [eq_idsWhere_of_mem_semesters h he] at hid
  obtain ⟨course, hcourse, hn⟩ := mem_idsWhere_iff.1 hid
  exact ⟨course, (get?_ofHistory h id).trans hcourse, of_decide_eq_true hn⟩

/-- What a code stands for is stored and has that code. -/
theorem exists_get?_of_mem_codes {e : String × CourseId}
    (he : e ∈ (ofHistory h).codes.entries) :
    ∃ course, (ofHistory h).get? e.2 = some course ∧ course.code = e.1 := by
  have hid := List.mem_of_getLast? (getLast?_idsWhere_of_mem_codes h he)
  obtain ⟨course, hcourse, hcode⟩ := mem_idsWhere_iff.1 hid
  exact ⟨course, (get?_ofHistory h e.2).trans hcourse, of_decide_eq_true hcode⟩

/-- All lists of all semesters together hold no id twice: ids of different lists belong to
courses of different semesters. -/
theorem nodup_filed : ((ofHistory h).semesters.entries.flatMap Prod.snd).Nodup := by
  rw [List.nodup_flatMap]
  constructor
  · intro e he
    rw [eq_idsWhere_of_mem_semesters h he]
    exact nodup_idsWhere
  · have hkeys : (ofHistory h).semesters.entries.Pairwise fun e e' => e.1 ≠ e'.1 :=
      List.pairwise_map.1 (nodup_keys_semesters_ofHistory h)
    refine hkeys.imp_of_mem ?_
    intro e e' he he' hne id hid hid'
    obtain ⟨course, hcourse, hn⟩ := exists_get?_of_mem_filed h he hid
    obtain ⟨course', hcourse', hn'⟩ := exists_get?_of_mem_filed h he' hid'
    obtain rfl := Option.some.inj (hcourse.symm.trans hcourse')
    exact hne (hn.symm.trans hn')

/-- Every stored course is filed. -/
theorem mem_filed {i : Nat} (hi : i < h.courses.length) :
    (⟨i⟩ : CourseId) ∈ (ofHistory h).semesters.entries.flatMap Prod.snd := by
  have hn : h.courses[i].semester ∈ h.numbers :=
    (History.mem_numbers_iff h).2 (.inr ⟨_, List.getElem_mem hi, rfl⟩)
  have hfind := find?_semesters_ofHistory h h.courses[i].semester
  rw [if_pos hn] at hfind
  have hid : (⟨i⟩ : CourseId) ∈ idsWhere (·.semester = h.courses[i].semester) h.courses :=
    mem_idsWhere_iff.2 ⟨_, List.getElem?_eq_getElem hi, decide_eq_true rfl⟩
  exact List.mem_flatMap.2 ⟨_, OrderedMap.mem_entries_of_find?_eq_some hfind, hid⟩

/-- The ids of the courses with one code rise, so none is above the last. -/
theorem index_le_of_mem_codes {e : String × CourseId} (he : e ∈ (ofHistory h).codes.entries)
    {id : CourseId} (hid : id ∈ idsWhere (·.code = e.1) h.courses) : id.index ≤ e.2.index := by
  obtain ⟨ids, hids⟩ := List.getLast?_eq_some_iff.1 (getLast?_idsWhere_of_mem_codes h he)
  have hrising := @pairwise_idsWhere (·.code = e.1) h.courses
  rw [hids] at hid hrising
  rcases List.mem_append.1 hid with hid | hid
  · exact Nat.le_of_lt ((List.pairwise_append.1 hrising).2.2 id hid e.2 (by simp))
  · obtain rfl := List.mem_singleton.1 hid
    exact Nat.le_refl _

/-- **Steps keep the indices in agreement with the store.** -/
theorem consistent_ofHistory : (ofHistory h).Consistent := by
  have hstored : ∀ {id : CourseId} {course : Course},
      (ofHistory h).get? id = some course → id.index < (ofHistory h).store.size :=
    fun hget => (Array.getElem?_eq_some_iff.1 hget).1
  constructor
  case filed_stored =>
    intro e he id hid
    obtain ⟨_, hget, -⟩ := exists_get?_of_mem_filed h he hid
    exact hstored hget
  case coded_stored =>
    intro e he
    obtain ⟨_, hget, -⟩ := exists_get?_of_mem_codes h he
    exact hstored hget
  case length_filed =>
    intro e he
    refine List.filterMap_length_eq_length.2 fun id hid => ?_
    obtain ⟨_, hget, -⟩ := exists_get?_of_mem_filed h he hid
    exact Option.isSome_of_eq_some hget
  case length_coded =>
    refine List.filterMap_length_eq_length.2 fun e he => ?_
    obtain ⟨_, hget, -⟩ := exists_get?_of_mem_codes h he
    simp [hget]
  case filed_once =>
    intro i hi
    rw [size_store_ofHistory] at hi
    exact List.count_eq_one_of_mem (nodup_filed h) (mem_filed h hi)
  case filed_own => exact fun e he id hid => exists_get?_of_mem_filed h he hid
  case filed_rising =>
    intro e he
    rw [eq_idsWhere_of_mem_semesters h he]
    exact pairwise_idsWhere
  case nodup_semesters => exact nodup_keys_semesters_ofHistory h
  case keys_codes => rw [keys_codes_ofHistory, toList_store_ofHistory, History.codes]
  case coded_own => exact fun e he => exists_get?_of_mem_codes h he
  case coded_newest =>
    intro e he id course hget hcode
    rw [get?_ofHistory] at hget
    exact index_le_of_mem_codes h he
      (mem_idsWhere_iff.2 ⟨course, hget, decide_eq_true hcode⟩)

end

/-! ## Look-ups -/

/-- What look-ups find is read off the list of all courses that were ever added. -/
structure Answers (c : Curriculum) (h : History) : Prop where
  /-- The store holds these courses. -/
  store : c.store.toList = h.courses
  /-- A semester is there when its number was opened or used, with the courses that name
  it. -/
  semester : ∀ n courses, c.semester? n = some courses ↔
    ((∃ b ∈ h.blocks, b.number = n) ∨ ∃ course ∈ h.courses, course.semester = n) ∧
      courses = h.courses.filter (·.semester = n)
  /-- A code stands for the last course that has it. -/
  course : ∀ code, c.course? code = (h.courses.filter (·.code = code)).getLast?
  /-- Courses are counted by their codes. -/
  courseCount : c.courseCount = h.codes.eraseDups.length

theorem semester?_ofHistory (h : History) (n : UInt32) :
    (ofHistory h).semester? n =
      if n ∈ h.numbers then some (h.courses.filter (·.semester = n)) else none := by
  have hcourses := @filterMap_idsWhere (·.semester = n) h.courses []
  rw [List.append_nil] at hcourses
  have hget : (ofHistory h).get? = fun id => h.courses[id.index]? := funext (get?_ofHistory h)
  rw [semester?, find?_semesters_ofHistory, ← hcourses, hget]
  split <;> rfl

theorem course?_ofHistory (h : History) (code : String) :
    (ofHistory h).course? code = (h.courses.filter (·.code = code)).getLast? := by
  have hget : (ofHistory h).get? = fun id => h.courses[id.index]? := funext (get?_ofHistory h)
  rw [course?, find?_codes_ofHistory, hget, getLast?_idsWhere_bind]

theorem semester?_ofHistory_eq_none_iff (h : History) (n : UInt32) :
    (ofHistory h).semester? n = none ↔ n ∉ h.numbers := by
  rw [semester?_ofHistory]
  split <;> simp [*]

/-- A semester that is not there has no courses. -/
theorem getD_semester?_ofHistory (h : History) (n : UInt32) :
    ((ofHistory h).semester? n).getD [] = h.courses.filter (·.semester = n) := by
  rw [semester?_ofHistory]
  split
  · rfl
  · next hn =>
    refine (List.filter_eq_nil_iff.2 fun course hcourse hsemester => hn ?_).symm
    exact (History.mem_numbers_iff h).2 (.inr ⟨course, hcourse, of_decide_eq_true hsemester⟩)

/-- The semesters are listed with the courses that a look-up of their numbers finds. -/
theorem coursesBySemester_ofHistory (h : History) :
    (ofHistory h).coursesBySemester =
      (ofHistory h).semesterNumbers.map fun n => (n, ((ofHistory h).semester? n).getD []) := by
  rw [coursesBySemester, semesterNumbers, OrderedMap.keys, List.map_map]
  refine List.map_congr_left fun e he => ?_
  have hfind := OrderedMap.find?_eq_some_of_mem (nodup_keys_semesters_ofHistory h) he
  simp [semester?, hfind]

/-- The codes are listed in the order in which they first appeared. -/
theorem map_fst_coursesByCode_ofHistory (h : History) :
    (ofHistory h).coursesByCode.map Prod.fst = h.codes.eraseDups := by
  have hcode : ∀ e ∈ (ofHistory h).codes.entries,
      (((ofHistory h).get? e.2).map fun course => (e.1, course)).map Prod.fst = some e.1 := by
    intro e he
    obtain ⟨course, hget, -⟩ := exists_get?_of_mem_codes h he
    rw [hget]
    rfl
  rw [← keys_codes_ofHistory, OrderedMap.keys, coursesByCode, List.map_filterMap,
    List.filterMap_congr hcode, List.filterMap_eq_map']

theorem answers_ofHistory (h : History) : (ofHistory h).Answers h where
  store := toList_store_ofHistory h
  semester n courses := by
    rw [semester?_ofHistory, ← History.mem_numbers_iff]
    split <;> simp [*, eq_comm]
  course := course?_ofHistory h
  courseCount := by
    rw [← keys_codes_ofHistory, OrderedMap.keys, List.length_map]
    rfl

/-! ## Any sequence of operations -/

/-- The store only grows. -/
theorem Origin.exists_courses_append (o : Origin) (ops later : List Operation) :
    (o.history (ops ++ later)).courses =
      (o.history ops).courses ++ History.courses (later.flatMap Operation.steps) := by
  rw [history, history, List.flatMap_append, ← List.append_assoc, History.courses_append]

/-- **Whatever is done to a curriculum, its indices agree with its store, its look-ups are
answered from its history, and ids only rise.** -/
theorem indices_agree_with_store (o : Origin) (ops : List Operation) :
    (o.run ops).Consistent ∧ (o.run ops).Answers (o.history ops) ∧
      (∀ id course, (o.run ops).get? id = some course →
        id.index < (o.run ops).nextId.index) ∧
      ∀ course later,
        (o.run (ops ++ .addCourse course :: later)).get? (o.run ops).nextId = some course ∧
          (o.run ops).nextId.index <
            (o.run (ops ++ .addCourse course :: later)).nextId.index := by
  have hrun := o.run_eq_ofHistory ops
  refine ⟨hrun ▸ consistent_ofHistory _, hrun ▸ answers_ofHistory _, ?_, ?_⟩
  · intro id course hget
    exact (Array.getElem?_eq_some_iff.1 hget).1
  · intro course later
    have hcourses := o.exists_courses_append ops (.addCourse course :: later)
    have hlater : History.courses ((Operation.addCourse course :: later).flatMap Operation.steps) =
        course :: History.courses (later.flatMap Operation.steps) := rfl
    rw [hrun, o.run_eq_ofHistory, nextId_ofHistory, nextId_ofHistory, get?_ofHistory, hcourses,
      hlater]
    constructor
    · simp
    · simp only [List.length_append, List.length_cons]
      omega

/-- A block of the second semester with a course that names the first one, and then a
course that takes up its code. -/
def takenUp : List Operation :=
  [.addSemester ⟨2, 1, [⟨"7", 1, "old", 0, none, none, none, []⟩]⟩,
    .addCourse ⟨"7", 2, "new", 0, none, none, none, []⟩]

theorem indices_agree_with_store_takenUp :
    (Origin.empty.run takenUp).Consistent ∧
      (Origin.empty.run takenUp).course? "7" = some ⟨"7", 2, "new", 0, none, none, none, []⟩ ∧
      (Origin.empty.run takenUp).semester? 1 = some [⟨"7", 1, "old", 0, none, none, none, []⟩] ∧
      (Origin.empty.run takenUp).nextId = ⟨2⟩ ∧
      (⟨1⟩ : CourseId).index < (Origin.empty.run takenUp).nextId.index := by
  have hget : (Origin.empty.run takenUp).get? ⟨1⟩ =
      some ⟨"7", 2, "new", 0, none, none, none, []⟩ := by decide
  obtain ⟨hconsistent, hanswers, hbelow, -⟩ := indices_agree_with_store .empty takenUp
  have hsemester := (hanswers.semester 1 [⟨"7", 1, "old", 0, none, none, none, []⟩]).2 (by decide)
  exact ⟨hconsistent, by rw [hanswers.course]; decide, hsemester, by decide, hbelow _ _ hget⟩

end Curriculum
end StudyPlan
