import StudyPlan.Proofs.Narration
import StudyPlan.Proofs.Rendering

/-!
# What the log shows

An event is shown by its headline and its details, and these are words.  Whoever reads a log has
only the words to go by.

## What can be read off an event

All of it can, but for the column of a token that is skipped
(`Event.headline_eq_and_details_eq_iff`).  The names of the details alone tell what sort of event
it is, since no two sorts have the same names.  Only for a skipped token the headline is needed as
well: it tells in which construct that was.

## What can be read off a log

The log of a plan tells the same story as its curriculum, and so do its words
(`log_shows_the_curriculum`).  What is shown under one headline are the details of one sort of
event (`Event.detailsUnder_eq`).
-/

namespace StudyPlan

theorem Kind.name_inj {k k' : Kind} : k.name = k'.name ↔ k = k' :=
  ⟨(by decide : ∀ k ∈ Kind.all, ∀ k' ∈ Kind.all, k.name = k'.name → k = k') k k.mem_all k'
    k'.mem_all, congrArg Kind.name⟩

namespace Event

/-! ## One event -/

/-- The same event, but for the column of a skipped token. -/
def withoutColumn : Event → Event
  | skipped construct t => skipped construct { t with column := 0 }
  | e => e

theorem headline_withoutColumn (e : Event) : e.withoutColumn.headline = e.headline := by
  cases e <;> rfl

theorem details_withoutColumn (e : Event) : e.withoutColumn.details = e.details := by
  cases e <;> rfl

theorem headline_skipped (construct : String) (t : Token) :
    (skipped construct t).headline = "skipping token in " ++ construct := rfl

/-- **The headline and the details of an event tell all but the column of a skipped token.** -/
theorem headline_eq_and_details_eq_iff {e f : Event} :
    e.headline = f.headline ∧ e.details = f.details ↔ e.withoutColumn = f.withoutColumn := by
  constructor
  · rintro ⟨hheadline, hdetails⟩
    have hnumber : ∀ m n : Nat, toString m = toString n ↔ m = n := by
      refine fun m n => ⟨fun h => ?_, congrArg toString⟩
      rw [← ofDigitChars_toString m, h, ofDigitChars_toString]
    -- two events of different sorts have details of different names
    have hnames := congrArg (List.map Prod.fst) hdetails
    cases e <;> cases f <;> simp only [details, List.map_cons, List.map_nil] at hnames <;>
      try exact absurd hnames (by decide)
    case skipped.skipped construct t construct' t' =>
      rw [headline_skipped, headline_skipped, String.append_right_inj] at hheadline
      simp only [details, List.cons.injEq, Prod.mk.injEq, true_and, and_true, Kind.name_inj,
        hnumber] at hdetails
      simp only [withoutColumn, hheadline, hdetails]
    all_goals
      simp only [details, List.cons.injEq, Prod.mk.injEq, true_and, and_true, hnumber,
        UInt32.toNat_inj] at hdetails
      simp only [withoutColumn, hdetails]
  · intro h
    rw [← headline_withoutColumn, ← details_withoutColumn, h, headline_withoutColumn,
      details_withoutColumn]
    exact ⟨rfl, rfl⟩

/-! ## One headline -/

/-- The details of the events that are shown under the given headline. -/
def detailsUnder (words : String) (log : List Event) : List (List (String × String)) :=
  log.filterMap fun e => if e.headline = words then some e.details else none

theorem headline_skipped_ne (construct : String) (t : Token) {words : String}
    (h : "skipping token in ".toList.isPrefixOf words.toList = false) :
    (skipped construct t).headline ≠ words := by
  rintro rfl
  rw [headline_skipped, String.toList_append] at h
  simp at h

/-- Under a headline stand the details of the events of one sort. -/
theorem detailsUnder_eq {α : Type} {words : String} {select : Event → Option α}
    {shown : α → List (String × String)}
    (h : ∀ e, (select e).map shown = if e.headline = words then some e.details else none)
    (log : List Event) : detailsUnder words log = (log.filterMap select).map shown := by
  rw [detailsUnder, List.map_filterMap]
  exact List.filterMap_congr fun e _ => (h e).symm

theorem detailsUnder_completed (log : List Event) :
    detailsUnder "course completed" log =
      (log.filterMap completed?).map fun x => [("codigo", x.1), ("nombre", x.2)] := by
  refine detailsUnder_eq (fun e => ?_) log
  cases e with
  | courseDone => exact (if_pos rfl).symm
  | skipped construct t => exact (if_neg (headline_skipped_ne construct t (by decide))).symm
  | _ => exact (if_neg (of_decide_eq_false rfl)).symm

theorem detailsUnder_closed (log : List Event) :
    detailsUnder "semester completed" log =
      (log.filterMap closed?).map fun x =>
        [("numero", toString x.1.toNat), ("cursos", toString x.2)] := by
  refine detailsUnder_eq (fun e => ?_) log
  cases e with
  | semesterDone => exact (if_pos rfl).symm
  | skipped construct t => exact (if_neg (headline_skipped_ne construct t (by decide))).symm
  | _ => exact (if_neg (of_decide_eq_false rfl)).symm

end Event

/-! ## A whole log -/

/-- **The words of the log tell the same story as the curriculum.**  It begins with the number of
tokens and ends with the numbers of semesters and courses, and in between the courses and the
blocks are shown as they are completed. -/
theorem log_shows_the_curriculum {settings : Settings} {source : String}
    {tokens? : Option (List Token)} {c : Curriculum}
    (h : (analyze settings source).result = .ok (.parsed tokens? c)) :
    ∃ first told last, ∃ semesters : List WrittenSemester,
      (analyze settings source).log = first :: (told ++ [last]) ∧
      (first.headline = "lexical analysis finished" ∧
        first.details = [("tokens", toString (lex source).tokens.length), ("errors", "0")]) ∧
      (last.headline = "parse finished" ∧ last.details =
        [("semestres", toString c.semesterCount), ("cursos", toString c.courseCount)]) ∧
      Event.detailsUnder "course completed" (analyze settings source).log =
        c.store.toList.map (fun x => [("codigo", x.code), ("nombre", x.name)]) ∧
      c.blocks = semesters.map WrittenSemester.block ∧
      Event.detailsUnder "semester completed" (analyze settings source).log =
        semesters.map fun s =>
          [("numero", toString s.number.toNat), ("cursos", toString s.courses.length)] := by
  obtain ⟨plan, told, -, rfl, hlog, haccount⟩ := exists_account_of_parsed h
  have hstory := haccount.sameStory
  refine ⟨_, told, _, _, hlog, ⟨rfl, rfl⟩, ⟨rfl, rfl⟩, ?_, hstory.blocks, ?_⟩
  · rw [Event.detailsUnder_completed, hstory.completed, List.map_map]
    rfl
  · rw [Event.detailsUnder_closed, haccount.closed, List.map_map]
    rfl

end StudyPlan
