import Mathlib.Algebra.GroupWithZero.Nat
import StudyPlan.Proofs.Account
import StudyPlan.Proofs.History
import StudyPlan.Report.Basic

/-!
# The log tells the same story as the curriculum

The log is written while a plan is read, and the curriculum is made afterwards, from the
entries that were read.  So the two could disagree.  They do not, because both follow the
derivation of the plan: its log is an account of the semesters and courses that it derives
(`Chronicle.accounted_entriesOf`), and these are what the curriculum is made of
(`blocks_ofEntries`, `toList_store_ofEntries`).

Every body is a run, and a run is an account if its parts are (`Chronicle.Run.accounted`).
The bodies differ only in which semesters and courses their parts hold.
-/

namespace StudyPlan

/-! ## The log of a derivation -/

namespace Chronicle

/-- The log is an account of the semesters and courses, and of the tokens before `rest`. -/
def Accounted (ts : List Token) (semesters : List WrittenSemester)
    (courses : List WrittenCourse) (log : List Event) (rest : List Token) : Prop :=
  ∃ used, ts = used ++ rest ∧ Account used semesters courses log

variable {α : Type} {construct : String} {Part : List Token → α → List Event → List Token → Prop}
  {Passed : Token → Prop} {ts rest : List Token} {as : List α} {log : List Event}

/-- A run is an account of what its parts are accounts of. -/
theorem Run.accounted (semesters : α → List WrittenSemester) (courses : α → List WrittenCourse)
    (hpart : ∀ {ts a log rest}, Part ts a log rest →
      Accounted ts (semesters a) (courses a) log rest)
    (h : Run construct Part Passed ts as log rest) :
    Accounted ts (as.flatMap semesters) (as.flatMap courses) log rest := by
  induction h with
  | stop ts => exact ⟨[], rfl, .nil⟩
  | @pass t _ _ _ _ _ _ _ ih =>
    obtain ⟨used, rfl, h⟩ := ih
    exact ⟨t :: used, rfl, (Account.skip construct t).append h⟩
  | part ha _ ih =>
    obtain ⟨used, rfl, h⟩ := hpart ha
    obtain ⟨used', rfl, h'⟩ := ih
    exact ⟨used ++ used', (List.append_assoc ..).symm, h.append h'⟩

/-- A run of parts that hold no courses, such as fields, holds none. -/
theorem Run.accounted_nil
    (hpart : ∀ {ts a log rest}, Part ts a log rest → Accounted ts [] [] log rest)
    (h : Run construct Part Passed ts as log rest) : Accounted ts [] [] log rest := by
  have hrun := h.accounted (fun _ => []) (fun _ => []) hpart
  rwa [List.flatMap_eq_nil_iff.2 fun _ _ => rfl, List.flatMap_eq_nil_iff.2 fun _ _ => rfl] at hrun

/-- What holds of all events of the parts and of all tokens that are passed over holds of all
events of a run. -/
theorem Run.forall_mem_log {P : Event → Prop}
    (hpart : ∀ {ts a log rest}, Part ts a log rest → ∀ e ∈ log, P e)
    (hskip : ∀ t, P (.skipped construct t))
    (h : Run construct Part Passed ts as log rest) : ∀ e ∈ log, P e := by
  induction h with
  | stop => nofun
  | pass _ _ _ ih => exact List.forall_mem_cons.2 ⟨hskip _, ih⟩
  | part ha _ ih => exact List.forall_mem_append.2 ⟨hpart ha, ih⟩

/-! ### Constructs -/

/-- The tokens in front of a body and behind it are used as well. -/
theorem Accounted.enclose {semesters semesters' : List WrittenSemester}
    {courses courses' : List WrittenCourse} {log log' : List Event} (front back : List Token)
    {ts rest : List Token} (h : Accounted ts semesters courses log (back ++ rest))
    (hlog : ∀ used, Account used semesters courses log → Account used semesters' courses' log') :
    Accounted (front ++ ts) semesters' courses' log' rest := by
  obtain ⟨used, rfl, h⟩ := h
  refine ⟨front ++ (used ++ back), by simp, (hlog used h).mono ?_⟩
  exact (List.sublist_append_left used back).trans (List.sublist_append_right front _)

theorem accounted_codesOf {codes : List String} (h : CodesOf ts codes log rest) :
    Accounted ts [] [] log rest :=
  h.accounted_nil fun hcode => by
    cases hcode
    exact ⟨[_], rfl, Account.nil.mono (List.nil_sublist _)⟩

theorem isSkip_of_codesOf {codes : List String} (h : CodesOf ts codes log rest) :
    ∀ e ∈ log, e.isSkip = true :=
  h.forall_mem_log (fun hcode => by cases hcode; nofun) fun _ => rfl

theorem accounted_fieldOf {d : Detail} (h : FieldOf ts d log rest) :
    Accounted ts [] [] log rest := by
  cases h with
  | @single w colon v semicolon =>
    exact ⟨[w, colon, v, semicolon], rfl, Account.nil.mono (List.nil_sublist _)⟩
  | @prerequisites w colon opening closing _ _ _ _ _ _ _ hcodes =>
    exact (accounted_codesOf hcodes).enclose [w, colon, opening] [closing] fun _ h => h

theorem isSkip_of_fieldOf {d : Detail} (h : FieldOf ts d log rest) :
    ∀ e ∈ log, e.isSkip = true := by
  cases h with
  | single => nofun
  | prerequisites _ _ _ hcodes => exact isSkip_of_codesOf hcodes

theorem accounted_courseOf {n : UInt32} {w : WrittenCourse} (h : CourseOf n ts w log rest) :
    Accounted ts [] [w] log rest := by
  obtain ⟨-, -, -, -, -, rfl, hfields, -⟩ := h
  exact (hfields.accounted_nil accounted_fieldOf).enclose [_, _, _, _] [_] fun _ h =>
    h.course w (hfields.forall_mem_log isSkip_of_fieldOf fun _ => rfl)

/-- Nothing inside a course belongs to a semester. -/
theorem isOfSemester_of_courseOf {n : UInt32} {w : WrittenCourse}
    (h : CourseOf n ts w log rest) : ∀ e ∈ log, e.isOfSemester = false := by
  obtain ⟨-, -, -, -, -, -, hfields, -⟩ := h
  have hbody := hfields.forall_mem_log isSkip_of_fieldOf fun _ => rfl
  intro e he
  rcases List.mem_cons.1 he with rfl | he
  · rfl
  · rcases List.mem_append.1 he with he | he
    · exact Event.isOfSemester_of_isSkip (hbody e he)
    · rcases List.mem_append.1 he with he | he
      · exact w.forall_mem_conflicts (P := fun e => e.isOfSemester = false) (fun _ _ => rfl) e he
      · obtain rfl := List.mem_singleton.1 he
        rfl

theorem accounted_semesterOf {s : WrittenSemester} (h : SemesterOf ts s log rest) :
    Accounted ts [s] s.courses log rest := by
  obtain ⟨-, -, -, -, hcourses, -⟩ := h
  have hbody := hcourses.accounted (fun _ => []) (fun w => [w]) accounted_courseOf
  rw [List.flatMap_eq_nil_iff.2 fun _ _ => rfl, List.flatMap_singleton'] at hbody
  exact hbody.enclose [_, _, _, _] [_] fun _ h =>
    Account.semester ⟨_, _, _⟩ h (hcourses.forall_mem_log isOfSemester_of_courseOf fun _ => rfl)

theorem accounted_semestersOf {semesters : List WrittenSemester}
    (h : SemestersOf ts semesters log rest) :
    Accounted ts semesters (semesters.flatMap WrittenSemester.courses) log rest := by
  have hrun := h.accounted (fun s => [s]) WrittenSemester.courses accounted_semesterOf
  rwa [List.flatMap_singleton'] at hrun

theorem accounted_entryOf {e : WrittenEntry} (h : EntryOf ts e log rest) :
    Accounted ts e.semesters (e.semesters.flatMap WrittenSemester.courses) log rest := by
  have htitle : ∀ title, Account [] [] [] [.programBegun title] := fun _ => .aside rfl rfl rfl
  cases h with
  | @bare w colon title =>
    exact ⟨[w, colon, title], rfl, (htitle _).mono (List.nil_sublist _)⟩
  | closed _ _ _ _ hsemesters =>
    exact (accounted_semestersOf hsemesters).enclose [_, _, _, _] [_] fun _ h =>
      (htitle _).append h
  | cut _ _ _ _ hsemesters =>
    exact (accounted_semestersOf hsemesters).enclose [_, _, _, _] [] fun _ h =>
      (htitle _).append h
  | semester hs =>
    have hsemester := accounted_semesterOf hs
    rwa [← List.flatMap_singleton WrittenSemester.courses] at hsemester

/-- **The log of a derivation is an account of what is derived.** -/
theorem accounted_entriesOf {plan : List WrittenEntry} (h : EntriesOf ts plan log rest) :
    Accounted ts (plan.flatMap WrittenEntry.semesters)
      ((plan.flatMap WrittenEntry.semesters).flatMap WrittenSemester.courses) log rest := by
  rw [List.flatMap_assoc]
  exact h.accounted WrittenEntry.semesters
    (fun e => e.semesters.flatMap WrittenSemester.courses) accounted_entryOf

end Chronicle

/-! ## The curriculum of a derivation -/

theorem semesters_entry (e : WrittenEntry) :
    e.entry.semesters = e.semesters.map WrittenSemester.semester := by
  cases e <;> rfl

/-- A plan holds the semesters that are written in it. -/
theorem semesters_plan (plan : List WrittenEntry) :
    (plan.map WrittenEntry.entry).flatMap Entry.semesters =
      (plan.flatMap WrittenEntry.semesters).map WrittenSemester.semester := by
  rw [List.flatMap_map, List.map_flatMap]
  exact List.flatMap_congr fun e _ => semesters_entry e

theorem blocks_ofEntries (plan : List WrittenEntry) :
    (Curriculum.ofEntries (plan.map WrittenEntry.entry)).blocks =
      (plan.flatMap WrittenEntry.semesters).map WrittenSemester.block := by
  rw [Curriculum.blocks_ofEntries, semesters_plan, List.map_map]
  rfl

theorem toList_store_ofEntries (plan : List WrittenEntry) :
    (Curriculum.ofEntries (plan.map WrittenEntry.entry)).store.toList =
      ((plan.flatMap WrittenEntry.semesters).flatMap WrittenSemester.courses).map
        WrittenCourse.course := by
  rw [Curriculum.toList_store_ofEntries, semesters_plan, List.flatMap_map, List.map_flatMap]
  rfl

/-! ## The whole log -/

/-- The log tells the same story as the curriculum that these semesters add up to. -/
structure Curriculum.SameStory (c : Curriculum) (tokens : List Token)
    (semesters : List WrittenSemester) (log : List Event) : Prop where
  /-- The curriculum is made of the semesters and the courses that are written. -/
  blocks : c.blocks = semesters.map WrittenSemester.block
  store : c.store.toList =
    (semesters.flatMap WrittenSemester.courses).map WrittenCourse.course
  /-- Every course is completed, in the order in which the courses are stored. -/
  completed : log.filterMap Event.completed? = c.store.toList.map fun x => (x.code, x.name)
  /-- Every block is completed, in order. -/
  closed : (log.filterMap Event.closed?).map Prod.fst = c.blocks.map Block.number
  /-- The counts of courses of the blocks add up to the number of all courses. -/
  total : ((log.filterMap Event.closed?).map Prod.snd).sum = c.store.size
  account : Account tokens semesters (semesters.flatMap WrittenSemester.courses) log

/-- An account of the semesters of a plan tells the same story as its curriculum. -/
theorem Account.sameStory {tokens : List Token} {plan : List WrittenEntry} {log : List Event}
    (h : Account tokens (plan.flatMap WrittenEntry.semesters)
      ((plan.flatMap WrittenEntry.semesters).flatMap WrittenSemester.courses) log) :
    (Curriculum.ofEntries (plan.map WrittenEntry.entry)).SameStory tokens
      (plan.flatMap WrittenEntry.semesters) log := by
  have hblocks := blocks_ofEntries plan
  have hstore := toList_store_ofEntries plan
  constructor
  case blocks => exact hblocks
  case store => exact hstore
  case completed =>
    rw [h.completed, hstore, List.map_map]
    exact List.map_congr_left fun w _ => by simp [WrittenCourse.course]
  case closed =>
    rw [h.closed, hblocks, List.map_map, List.map_map]
    rfl
  case total =>
    rw [← Array.length_toList, hstore, List.length_map, List.length_flatMap, h.closed,
      List.map_map]
    rfl
  case account => exact h

/-- Where a source has a curriculum, it has no fault, and its tokens have been read. -/
theorem log_analyze_of_parsed {settings : Settings} {source : String}
    {tokens? : Option (List Token)} {c : Curriculum}
    (h : (analyze settings source).result = .ok (.parsed tokens? c)) :
    ∃ log, Curriculum.ofTokens (lex source).tokens = ⟨log, .ok c⟩ ∧
      (analyze settings source).log = .lexed (lex source).tokens.length 0 :: log := by
  unfold analyze at h ⊢
  cases hr : settings.rejection? source with
  | some r => simp [hr] at h
  | none =>
    simp only [hr, Lexing.report] at h ⊢
    by_cases hclean : (lex source).isClean = true
    · have hfaults : (lex source).faults = [] := List.isEmpty_iff.1 hclean
      rw [if_pos hclean] at h ⊢
      rcases hread : Curriculum.ofTokens (lex source).tokens with ⟨log, e | c'⟩
      · simp [hread] at h
      · simp only [hread, Except.ok.injEq, Report.parsed.injEq] at h
        obtain ⟨-, rfl⟩ := h
        exact ⟨log, rfl, by rw [hfaults]; rfl⟩
    · simp [if_neg hclean] at h

/-- Where a source has a curriculum, its tokens have a derivation with a log, and all that stands
around this log is how many tokens there are and how many semesters and courses.  The whole log
is an account of what is derived. -/
theorem exists_account_of_parsed {settings : Settings} {source : String}
    {tokens? : Option (List Token)} {c : Curriculum}
    (h : (analyze settings source).result = .ok (.parsed tokens? c)) :
    ∃ plan told, Chronicle.EntriesOf (upToFinish (lex source).tokens) plan told [] ∧
      c = Curriculum.ofEntries (plan.map WrittenEntry.entry) ∧
      (analyze settings source).log = .lexed (lex source).tokens.length 0 ::
        (told ++ [.parsed c.semesterCount c.courseCount]) ∧
      Account (lex source).tokens (plan.flatMap WrittenEntry.semesters)
        ((plan.flatMap WrittenEntry.semesters).flatMap WrittenSemester.courses)
        (analyze settings source).log := by
  obtain ⟨log, hread, hlog⟩ := log_analyze_of_parsed h
  obtain ⟨plan, told, hplan, hc, rfl⟩ := exists_chronicle hread
  refine ⟨plan, told, hplan, hc, hlog, ?_⟩
  obtain ⟨used, hused, htold⟩ := Chronicle.accounted_entriesOf hplan
  -- the first and the last event of the whole log tell of no course and no token
  have hfirst : Account [] [] [] [.lexed (lex source).tokens.length 0] := .aside rfl rfl rfl
  have hlast : Account [] [] [] [.parsed c.semesterCount c.courseCount] := .aside rfl rfl rfl
  have hwhole := hfirst.append (htold.append hlast)
  simp only [List.append_nil, List.nil_append] at hwhole hused
  rw [← hused] at hwhole
  rw [hlog]
  exact hwhole.mono (List.takeWhile_sublist _)

/-- **The log tells the same story as the curriculum.**  Where a source has a curriculum, its
tokens have a derivation with a log; all that stands around this log is how many tokens there
are and how many semesters and courses; and the whole log agrees with the curriculum. -/
theorem log_tells_the_curriculum {settings : Settings} {source : String}
    {tokens? : Option (List Token)} {c : Curriculum}
    (h : (analyze settings source).result = .ok (.parsed tokens? c)) :
    ∃ plan told, Chronicle.EntriesOf (upToFinish (lex source).tokens) plan told [] ∧
      c = Curriculum.ofEntries (plan.map WrittenEntry.entry) ∧
      (analyze settings source).log = .lexed (lex source).tokens.length 0 ::
        (told ++ [.parsed c.semesterCount c.courseCount]) ∧
      c.SameStory (lex source).tokens (plan.flatMap WrittenEntry.semesters)
        (analyze settings source).log := by
  obtain ⟨plan, told, hplan, hc, hlog, haccount⟩ := exists_account_of_parsed h
  have hstory := haccount.sameStory
  rw [← hc] at hstory
  exact ⟨plan, told, hplan, hc, hlog, hstory⟩

/-- A course that gives two codes, one of them not its own, and a comma too many. -/
def otherCode : String :=
  "Semestre: 1 \x7bCurso: 7 \x7bCodigo: '8';, Codigo: '7'; Nombre: 'N';\x7d\x7d"

theorem log_tells_the_curriculum_otherCode :
    ∃ c, (analyze {} otherCode).result = .ok (.parsed (some (lex otherCode).tokens) c) ∧
      c.store.toList.map Course.name = ["N"] ∧
      (∃ semesters, c.SameStory (lex otherCode).tokens semesters (analyze {} otherCode).log) ∧
      (analyze {} otherCode).log.filter Event.isWarning = [.codeConflict "8" "7" 1] := by
  have hparsed : (analyze {} otherCode).result = .ok (.parsed (some (lex otherCode).tokens)
      (.ofEntries [.semester ⟨1, 1, [.ofDetails "7" 1 [.name "N"]]⟩])) := by
    decide +kernel
  obtain ⟨plan, -, -, -, -, hstory⟩ := log_tells_the_curriculum hparsed
  exact ⟨_, hparsed, rfl, ⟨_, hstory⟩, by decide +kernel⟩

end StudyPlan
