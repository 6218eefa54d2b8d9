import StudyPlan.Proofs.Balanced
import StudyPlan.Proofs.Chronicle

/-!
# What a log tells

`Account` says what it is for a log to tell of some semesters and courses, and nothing in it
mentions how a plan is read: which events there are of each sort and in which order, and
which events stand right in front of the end of a course or of a semester.

An account is put together like a plan.  Two accounts one behind the other are an account
(`Account.append`), and so is an account between the events with which a course or a semester
begins and ends (`Account.course`, `Account.semester`).

## The events in front of an end

`Episodes` speaks of the events in front of the ends of all courses, or of all semesters,
without saying where in the log they are.  It counts the ends: the end that comes behind `i`
others of its sort is that of the course, or of the semester, with `i` others before it.
-/

namespace StudyPlan

/-! ## Sorts of events -/

namespace Event

/-- The code and the name of a course that is completed. -/
def completed? : Event → Option (String × String)
  | courseDone code name => some (code, name)
  | _ => none

/-- The number and the count of courses of a semester that is completed. -/
def closed? : Event → Option (UInt32 × Nat)
  | semesterDone number courses => some (number, courses)
  | _ => none

/-- The token that is passed over. -/
def skipped? : Event → Option Token
  | skipped _ t => some t
  | _ => none

/-- Is a course completed? -/
def isCompletion (e : Event) : Bool :=
  e.completed?.isSome

/-- Is a semester completed? -/
def isClosing (e : Event) : Bool :=
  e.closed?.isSome

/-- Is a token passed over? -/
def isSkip (e : Event) : Bool :=
  e.skipped?.isSome

/-- Does a semester begin or end? -/
def isOfSemester : Event → Bool
  | semesterBegun _ _ | semesterDone _ _ => true
  | _ => false

/-- Does a course or a semester begin or end? -/
def isMark : Event → Bool
  | courseBegun _ _ | courseDone _ _ | semesterBegun _ _ | semesterDone _ _ => true
  | _ => false

/-- Is this a warning? -/
def isWarning (e : Event) : Bool :=
  e.severity = .warning

theorem isMark_of_isSkip {e : Event} (h : e.isSkip = true) : e.isMark = false := by
  cases e with
  | skipped => rfl
  | _ => cases h

theorem isOfSemester_of_isSkip {e : Event} (h : e.isSkip = true) : e.isOfSemester = false := by
  cases e with
  | skipped => rfl
  | _ => cases h

/-- The first event begins what the second one ends. -/
inductive Encloses : Event → Event → Prop
  | course (code name : String) (n : UInt32) : Encloses (courseBegun code n) (courseDone code name)
  | semester (n : UInt32) (line courses : Nat) :
      Encloses (semesterBegun n line) (semesterDone n courses)

end Event

/-! ## What a log tells -/

/-- The completion of a course, and the events right before it: its beginning, the tokens
that were passed over in its body, and behind these all its warnings. -/
inductive WrittenCourse.Told (w : WrittenCourse) : List Event → Event → Prop
  | intro {skips : List Event} : (∀ e ∈ skips, e.isSkip = true) →
      w.Told (.courseBegun w.code w.semester :: (skips ++ w.conflicts))
        (.courseDone w.code w.course.name)

/-- The completion of a semester, and the events right before it: its beginning, and what
happened since, while no other semester began or ended.  The completion counts the courses
that were completed in between. -/
inductive WrittenSemester.Told (s : WrittenSemester) : List Event → Event → Prop
  | intro {inner : List Event} : (∀ e ∈ inner, e.isOfSemester = false) →
      s.Told (.semesterBegun s.number s.line :: inner)
        (.semesterDone s.number (inner.countP Event.isCompletion))

/-- Each of the things `xs` is told of in the log, by an event of the sort `q` and the events
right before it.  That event comes behind as many others of its sort as there are things
before this one. -/
def Episodes {α : Type} (q : Event → Bool) (Told : α → List Event → Event → Prop) (xs : List α)
    (log : List Event) : Prop :=
  ∀ i x, xs[i]? = some x → ∃ before inner last after,
    log = before ++ (inner ++ last :: after) ∧ q last = true ∧
      (before ++ inner).countP q = i ∧ Told x inner last

/-- The log tells of these semesters and courses, and of the tokens `used` it tells which
ones were passed over. -/
structure Account (used : List Token) (semesters : List WrittenSemester)
    (courses : List WrittenCourse) (log : List Event) : Prop where
  /-- The courses are completed in order. -/
  completed : log.filterMap Event.completed? = courses.map fun w => (w.code, w.course.name)
  /-- The semesters are completed in order. -/
  closed : log.filterMap Event.closed? = semesters.map fun s => (s.number, s.courses.length)
  course_told : Episodes Event.isCompletion WrittenCourse.Told courses log
  semester_told : Episodes Event.isClosing WrittenSemester.Told semesters log
  /-- Courses and semesters begin and end properly nested. -/
  nested : Balanced Event.Encloses (log.filter Event.isMark)
  /-- The tokens that are passed over are some of the tokens used, in order. -/
  skipped : (log.filterMap Event.skipped?).Sublist used
  /-- The warnings are those of the courses, in order. -/
  warnings : log.filter Event.isWarning = courses.flatMap WrittenCourse.conflicts

namespace Episodes

variable {α : Type} {q : Event → Bool} {Told : α → List Event → Event → Prop} {xs ys : List α}
  {log log' : List Event}

theorem nil (log : List Event) : Episodes q Told [] log := by
  intro i x h
  simp at h

theorem singleton {x : α} {inner : List Event} {last : Event} (h : Told x inner last)
    (hinner : inner.countP q = 0) (hlast : q last = true) :
    Episodes q Told [x] (inner ++ [last]) := by
  intro i y hy
  obtain ⟨rfl, rfl⟩ : i = 0 ∧ x = y := by simpa [List.getElem?_singleton] using hy
  exact ⟨[], inner, last, [], rfl, hlast, hinner, h⟩

/-- Two logs, one behind the other, if no end of the first one is left out. -/
theorem append (h : Episodes q Told xs log) (h' : Episodes q Told ys log')
    (hcount : log.countP q = xs.length) : Episodes q Told (xs ++ ys) (log ++ log') := by
  intro i x hx
  rw [List.getElem?_append] at hx
  split at hx
  · obtain ⟨before, inner, last, after, rfl, hlast, hi, htold⟩ := h i x hx
    exact ⟨before, inner, last, after ++ log', by simp, hlast, hi, htold⟩
  · next hi =>
    obtain ⟨before, inner, last, after, rfl, hlast, hi', htold⟩ := h' _ x hx
    refine ⟨log ++ before, inner, last, after, by simp, hlast, ?_, htold⟩
    rw [List.append_assoc, List.countP_append, hcount, hi']
    omega

end Episodes

namespace Account

variable {used used' : List Token} {semesters semesters' : List WrittenSemester}
  {courses courses' : List WrittenCourse} {log log' : List Event}

theorem countP_isCompletion (h : Account used semesters courses log) :
    log.countP Event.isCompletion = courses.length := by
  have hlength := congrArg List.length h.completed
  rw [List.length_map, List.length_filterMap_eq_countP] at hlength
  exact hlength

theorem countP_isClosing (h : Account used semesters courses log) :
    log.countP Event.isClosing = semesters.length := by
  have hlength := congrArg List.length h.closed
  rw [List.length_map, List.length_filterMap_eq_countP] at hlength
  exact hlength

/-- More tokens may be used. -/
theorem mono (h : Account used semesters courses log) (hused : used.Sublist used') :
    Account used' semesters courses log :=
  { h with skipped := h.skipped.trans hused }

/-- **Two accounts, one behind the other.** -/
theorem append (h : Account used semesters courses log)
    (h' : Account used' semesters' courses' log') :
    Account (used ++ used') (semesters ++ semesters') (courses ++ courses') (log ++ log') where
  completed := by rw [List.filterMap_append, h.completed, h'.completed, List.map_append]
  closed := by rw [List.filterMap_append, h.closed, h'.closed, List.map_append]
  course_told := h.course_told.append h'.course_told h.countP_isCompletion
  semester_told := h.semester_told.append h'.semester_told h.countP_isClosing
  nested := by
    rw [List.filter_append]
    exact h.nested.append h'.nested
  skipped := by
    rw [List.filterMap_append]
    exact h.skipped.append h'.skipped
  warnings := by rw [List.filter_append, h.warnings, h'.warnings, List.flatMap_append]

theorem nil : Account [] [] [] [] :=
  ⟨rfl, rfl, .nil _, .nil _, .nil, .slnil, rfl⟩

/-- A token is passed over. -/
theorem skip (construct : String) (t : Token) :
    Account [t] [] [] [.skipped construct t] :=
  ⟨rfl, rfl, .nil _, .nil _, .nil, .refl _, rfl⟩

/-- An event that is of none of these sorts does not matter. -/
theorem aside {e : Event} (hmark : e.isMark = false) (hskip : e.isSkip = false)
    (hwarning : e.isWarning = false) : Account [] [] [] [e] := by
  cases e with
  | lexed | faulty | programBegun | parsed | refused =>
    exact ⟨rfl, rfl, .nil _, .nil _, .nil, .slnil, rfl⟩
  | skipped => cases hskip
  | codeConflict => cases hwarning
  | semesterBegun | semesterDone | courseBegun | courseDone => cases hmark

end Account

/-! ## Courses and semesters -/

theorem WrittenCourse.forall_mem_conflicts {w : WrittenCourse} {P : Event → Prop}
    (h : ∀ declared line, P (.codeConflict declared w.code line)) : ∀ e ∈ w.conflicts, P e := by
  intro e he
  obtain ⟨field, -, rfl⟩ := List.mem_map.1 he
  exact h field.1 field.2

namespace Account

variable {used : List Token} {courses : List WrittenCourse} {log : List Event}

/-- Tokens that are passed over make the body of a course, and its warnings follow them. -/
theorem course (w : WrittenCourse) (h : Account used [] [] log)
    (hlog : ∀ e ∈ log, e.isSkip = true) :
    Account used [] [w] (.courseBegun w.code w.semester ::
      (log ++ (w.conflicts ++ [.courseDone w.code w.course.name]))) := by
  have hwarnings : w.conflicts.filter Event.isWarning = w.conflicts :=
    List.filter_eq_self.2 (w.forall_mem_conflicts fun _ _ => rfl)
  -- the warnings of a course are of no other sort
  have hcompleted : w.conflicts.filterMap Event.completed? = [] :=
    List.filterMap_eq_nil_iff.2 (w.forall_mem_conflicts fun _ _ => rfl)
  have hclosed : w.conflicts.filterMap Event.closed? = [] :=
    List.filterMap_eq_nil_iff.2 (w.forall_mem_conflicts fun _ _ => rfl)
  have hskipped : w.conflicts.filterMap Event.skipped? = [] :=
    List.filterMap_eq_nil_iff.2 (w.forall_mem_conflicts fun _ _ => rfl)
  have hcompletions : w.conflicts.countP Event.isCompletion = 0 :=
    List.countP_eq_zero.2 (w.forall_mem_conflicts fun _ _ => nofun)
  have hmarks : (log ++ w.conflicts).filter Event.isMark = [] :=
    List.filter_eq_nil_iff.2 (List.forall_mem_append.2 ⟨fun e he =>
      Bool.eq_false_iff.1 (Event.isMark_of_isSkip (hlog e he)),
      w.forall_mem_conflicts fun _ _ => nofun⟩)
  constructor
  case completed =>
    rw [List.filterMap_cons, List.filterMap_append, List.filterMap_append, h.completed,
      hcompleted]
    rfl
  case closed =>
    rw [List.filterMap_cons, List.filterMap_append, List.filterMap_append, h.closed, hclosed]
    rfl
  case course_told =>
    have htold := Episodes.singleton (q := Event.isCompletion) (.intro hlog : w.Told _ _) (by
      rw [List.countP_cons, List.countP_append, h.countP_isCompletion, hcompletions]
      rfl) rfl
    rwa [List.cons_append, List.append_assoc] at htold
  case semester_told => exact .nil _
  case nested =>
    rw [← List.append_assoc, List.filter_cons, List.filter_append, hmarks]
    exact Balanced.nil.enclosed (.course w.code w.course.name w.semester)
  case skipped =>
    rw [List.filterMap_cons, List.filterMap_append, List.filterMap_append, hskipped]
    exact (List.append_nil _).symm ▸ h.skipped
  case warnings =>
    rw [List.filter_cons, List.filter_append, List.filter_append, h.warnings, hwarnings]
    rfl

/-- Courses make the body of a semester. -/
theorem semester (s : WrittenSemester) (h : Account used [] s.courses log)
    (hlog : ∀ e ∈ log, e.isOfSemester = false) :
    Account used [s] s.courses
      (.semesterBegun s.number s.line :: (log ++ [.semesterDone s.number s.courses.length])) := by
  constructor
  case completed =>
    rw [List.filterMap_cons, List.filterMap_append, h.completed]
    exact List.append_nil _
  case closed =>
    rw [List.filterMap_cons, List.filterMap_append, h.closed]
    rfl
  case course_told =>
    have htold := (Episodes.nil [.semesterBegun s.number s.line]).append
      (h.course_told.append (Episodes.nil [.semesterDone s.number s.courses.length])
        h.countP_isCompletion) rfl
    rwa [List.append_nil, List.nil_append] at htold
  case semester_told =>
    have htold := WrittenSemester.Told.intro (s := s) hlog
    rw [h.countP_isCompletion] at htold
    refine Episodes.singleton htold ?_ rfl
    rw [List.countP_cons, h.countP_isClosing]
    rfl
  case nested =>
    rw [List.filter_cons, List.filter_append]
    exact h.nested.enclosed (.semester s.number s.line s.courses.length)
  case skipped =>
    rw [List.filterMap_cons, List.filterMap_append]
    exact (List.append_nil _).symm ▸ h.skipped
  case warnings =>
    rw [List.filter_cons, List.filter_append, h.warnings]
    exact List.append_nil _

end Account
end StudyPlan
