import StudyPlan.Proofs.Window

/-!
# Bodies get on, and come to an end

A body is read in rounds.  Each round looks at the next token and either ends the body or goes
on from a later position (`Parser.round`).  Nothing else is remembered from one round to the
next, apart from the parts that were read.

## Why it ends

A round that passes a token over goes on behind it.  A round that reads a part goes on where
the part ends, and a part ends behind its head.  So every round that does not end the body
takes at least one token, and there are no more such rounds than tokens (`exists_rounds`).

The parts are read by the parsers of the constructs, and in these there are bodies again.  What
each level needs to know of the one below is that a construct gets on (`GetsOn`).

## Nothing is lost by the bound in `body`

`Parser.body` is told by `atMost` to go on from what stands behind the head of a part even if the
part were to hand back more.  Rounds know of no such bound.  That they end and give the value that
`body` gives shows that the bound is never used.
-/

namespace StudyPlan

/-- What one round of a body comes to. -/
inductive Round (α : Type) where
  /-- The body is over: it ends at a position, or it fails. -/
  | ended (outcome : Except SyntaxError Nat)
  /-- The body goes on at a position, and a part has been read on the way or none. -/
  | on (part : Option α) (pos : Nat)

/-- So many rounds, from a position to the end of the body, with the parts that are read in
them. -/
inductive Rounds {α : Type} (round : Nat → Round α) :
    Nat → Nat → List α → Except SyntaxError Nat → Prop
  | ended {pos : Nat} {outcome : Except SyntaxError Nat} :
      round pos = .ended outcome → Rounds round 1 pos [] outcome
  | on {n pos pos' : Nat} {part : Option α} {as : List α} {outcome : Except SyntaxError Nat} :
      round pos = .on part pos' → Rounds round n pos' as outcome →
        Rounds round (n + 1) pos (part.toList ++ as) outcome

namespace Parser

open StudyPlan.Derivation

variable {α σ : Type}

/-- One round of a body at a position. -/
def round (name : String) (table : Token → Action σ) (ending : Ending) (enter : σ → Parser α)
    (tokens : List Token) (pos : Nat) : Round α :=
  match next? (tokens.drop pos) with
  | none =>
    match ending with
    | .anywhere => .ended (.ok pos)
    | .closedBy d => .ended (.error (.endOfTokens (.closing d name)))
  | some t =>
    match table t with
    | .close => .ended (.ok (pos + 1))
    | .skip => .on none (pos + 1)
    | .enter what =>
      match ((enter what).runAt tokens pos).result with
      | .error e => .ended (.error e)
      | .ok (a, pos') => .on (some a) pos'

/-- Wherever the parser succeeds, it has got on, and not past the end of the tokens. -/
def GetsOn (p : Parser α) : Prop :=
  ∀ tokens pos a pos', (p.runAt tokens pos).result = .ok (a, pos') →
    pos < pos' ∧ pos' ≤ tokens.length

/-- The rounds of a body get on, they come to an end with the outcome of the body, and what is
left of the tokens is less than before, unless there were none for a body that may simply
end. -/
structure Ceases (name : String) (table : Token → Action σ) (ending : Ending)
    (enter : σ → Parser α) : Prop where
  advances : ∀ tokens pos part pos', round name table ending enter tokens pos = .on part pos' →
    pos < pos' ∧ pos' ≤ tokens.length
  ends : ∀ tokens pos, ∃ n as outcome, n ≤ tokens.length - pos + 1 ∧
    Rounds (round name table ending enter tokens) n pos as outcome ∧
    ((body name table ending enter).runAt tokens pos).result = outcome.map fun pos' => (as, pos')
  stops : ∀ tokens pos as pos',
    ((body name table ending enter).runAt tokens pos).result = .ok (as, pos') →
      (pos' = pos ∧ ending = .anywhere ∧ next? (tokens.drop pos) = none) ∨
        (pos < pos' ∧ pos' ≤ tokens.length)

/-! ## Positions -/

/-- Inside the tokens a parser that leaves a part of them stops where this part begins. -/
theorem result_runAt_eq_map {p : Parser α} {tokens : List Token} {pos : Nat}
    (hpos : pos ≤ tokens.length)
    (hp : ∀ a rest, (p (tokens.drop pos)).result = .ok (a, rest) → rest <:+ tokens.drop pos) :
    (p.runAt tokens pos).result =
      (p (tokens.drop pos)).result.map fun (a, rest) => (a, tokens.length - rest.length) := by
  rw [runAt, Logged.result_map]
  rcases hr : (p (tokens.drop pos)).result with e | ⟨a, rest⟩
  · rfl
  · have hle := (hp a rest hr).length_le
    rw [List.length_drop] at hle
    simp only [Except.map, List.length_drop]
    congr 2
    omega

section

variable {name : String} {table : Token → Action σ} {ending : Ending} {enter : σ → Parser α}
  {Part : List Token → α → List Token → Prop} {Passed : Token → Prop} {tokens : List Token}
  {pos : Nat}

/-- A body leaves a part of what it was given. -/
theorem Fits.suffix_body (hfit : Fits table enter Part Passed) {ts rest : List Token}
    {as : List α} (h : (body name table ending enter ts).result = .ok (as, rest)) :
    rest <:+ ts := by
  rcases (result_body_eq_ok_iff hfit).1 h with ⟨_, -, -, hrun⟩ | ⟨-, -, hrun⟩
  · exact hrun.suffix_of_closed hfit.headed
  · exact hrun.suffix hfit.headed

/-! ## One round -/

theorem next?_eq_some_iff {ts : List Token} {t : Token} :
    next? ts = some t ↔ t.isFinish = false ∧ ∃ rest, ts = t :: rest := by
  rcases ts with _ | ⟨u, ts⟩
  · simp [next?]
  · rw [next?]
    split
    · next hu =>
      constructor
      · intro h
        cases h
      · rintro ⟨ht, rest, heq⟩
        obtain ⟨rfl, rfl⟩ := List.cons.inj heq
        rw [hu] at ht
        cases ht
    · next hu =>
      constructor
      · rintro ⟨⟩
        exact ⟨by simpa using hu, ts, rfl⟩
      · rintro ⟨-, rest, heq⟩
        exact congrArg some (List.cons.inj heq).1

/-- A round that ends a body ends it as the body does, with nothing read. -/
theorem result_runAt_body_of_ended (hfit : Fits table enter Part Passed)
    {outcome : Except SyntaxError Nat}
    (h : round name table ending enter tokens pos = .ended outcome) :
    ((body name table ending enter).runAt tokens pos).result =
      outcome.map fun pos' => ([], pos') := by
  rw [runAt, Logged.result_map]
  unfold round at h
  split at h
  · next hnone =>
    rw [body_of_next?_eq_none hnone]
    cases ending with
    | anywhere =>
      cases h
      simp [bodyEnd, Except.map]
    | closedBy d =>
      cases h
      rfl
  · next t hnext =>
    obtain ⟨ht, ts, hdrop⟩ := next?_eq_some_iff.1 hnext
    rw [hdrop]
    split at h
    · next hclose =>
      cases h
      rw [body_close ht hclose]
      simp [Except.map]
    · cases h
    · next what hwhat =>
      rw [runAt, hdrop, Logged.result_map] at h
      rw [body_enter hfit ht hwhat]
      rcases hr : (enter what (t :: ts)).result with e | ⟨a, rest⟩
      · rw [hr] at h
        cases h
        rw [result_bind_of_error hr]
        rfl
      · rw [hr] at h
        cases h

/-- A round that goes on leaves a part of what stands behind the next token, and the body is what
the round has read and the body of what is left. -/
theorem exists_rest_of_round_eq_on (hfit : Fits table enter Part Passed) {part : Option α}
    {pos' : Nat} (h : round name table ending enter tokens pos = .on part pos') :
    ∃ t ts rest, tokens.drop pos = t :: ts ∧ rest <:+ ts ∧
      tokens.length = pos' + rest.length ∧
      (body name table ending enter (t :: ts)).result =
        (body name table ending enter rest).result.map fun (as, left) =>
          (part.toList ++ as, left) := by
  unfold round at h
  split at h
  · split at h <;> cases h
  · next t hnext =>
    obtain ⟨ht, ts, hdrop⟩ := next?_eq_some_iff.1 hnext
    have hlength : tokens.length - pos = ts.length + 1 := by
      rw [← List.length_drop, hdrop, List.length_cons]
    split at h
    · cases h
    · next hskip =>
      cases h
      refine ⟨t, ts, ts, hdrop, List.suffix_rfl, by omega, ?_⟩
      rw [body_skip ht hskip, Logged.result_after]
      rcases (body name table ending enter ts).result with e | ⟨as, rest⟩ <;> rfl
    · next what hwhat =>
      rw [runAt, hdrop, Logged.result_map] at h
      rcases hr : (enter what (t :: ts)).result with e | ⟨a, rest⟩
      · rw [hr] at h
        cases h
      · rw [hr] at h
        cases h
        have hs := hfit.suffix ht hwhat hr
        have hle := hs.length_le
        refine ⟨t, ts, rest, hdrop, hs, ?_, ?_⟩
        · rw [List.length_cons]
          omega
        · rw [body_enter hfit ht hwhat, result_bind_of_ok hr]
          rfl

/-- A round that goes on has got on. -/
theorem advances_of_round_eq_on (hfit : Fits table enter Part Passed) {part : Option α}
    {pos' : Nat} (h : round name table ending enter tokens pos = .on part pos') :
    pos < pos' ∧ pos' ≤ tokens.length := by
  obtain ⟨t, ts, rest, hdrop, hs, hpos', -⟩ := exists_rest_of_round_eq_on hfit h
  have hle := hs.length_le
  have hlength := congrArg List.length hdrop
  rw [List.length_drop, List.length_cons] at hlength
  omega

/-- The body goes on where a round goes on. -/
theorem result_runAt_body_of_on (hfit : Fits table enter Part Passed) {part : Option α}
    {pos' : Nat} (h : round name table ending enter tokens pos = .on part pos') :
    ((body name table ending enter).runAt tokens pos).result =
      ((body name table ending enter).runAt tokens pos').result.map fun (as, stop) =>
        (part.toList ++ as, stop) := by
  obtain ⟨hlt, hle⟩ := advances_of_round_eq_on hfit h
  obtain ⟨t, ts, rest, hdrop, hs, hpos', hbody⟩ := exists_rest_of_round_eq_on hfit h
  have hrest : tokens.drop pos' = rest := by
    have hsuffix : rest <:+ tokens := hs.trans ((List.suffix_cons t ts).trans
      (hdrop ▸ List.drop_suffix pos tokens))
    rw [List.suffix_iff_eq_drop.1 hsuffix, hpos', Nat.add_sub_cancel]
  rw [result_runAt_eq_map (by omega) fun _ _ => hfit.suffix_body,
    result_runAt_eq_map hle fun _ _ => hfit.suffix_body, hdrop, hbody, hrest]
  rcases (body name table ending enter rest).result with e | ⟨as, left⟩ <;> rfl

/-! ## All rounds -/

/-- Rounds that get on come to an end, and the body ends as they do. -/
theorem exists_rounds (hfit : Fits table enter Part Passed) (tokens : List Token) (pos : Nat) :
    ∃ n as outcome, n ≤ tokens.length - pos + 1 ∧
      Rounds (round name table ending enter tokens) n pos as outcome ∧
      ((body name table ending enter).runAt tokens pos).result =
        outcome.map fun pos' => (as, pos') := by
  induction hleft : tokens.length - pos using Nat.strongRecOn generalizing pos with
  | ind left ih =>
    cases hround : round name table ending enter tokens pos with
    | ended outcome =>
      exact ⟨1, [], outcome, Nat.succ_le_succ (Nat.zero_le _), .ended hround,
        result_runAt_body_of_ended hfit hround⟩
    | on part pos' =>
      obtain ⟨hlt, hle⟩ := advances_of_round_eq_on hfit hround
      obtain ⟨n, as, outcome, hn, hrounds, hbody⟩ := ih _ (by omega) pos' rfl
      refine ⟨n + 1, part.toList ++ as, outcome, by omega, .on hround hrounds, ?_⟩
      rw [result_runAt_body_of_on hfit hround, hbody]
      cases outcome <;> rfl

/-- A round that ends a body takes the closing token, or stays where it is because there is no
token left and none is asked for. -/
theorem stops_of_round_eq_ended {pos' : Nat}
    (h : round name table ending enter tokens pos = .ended (.ok pos')) :
    (pos' = pos ∧ ending = .anywhere ∧ next? (tokens.drop pos) = none) ∨
      (pos < pos' ∧ pos' ≤ tokens.length) := by
  unfold round at h
  split at h
  · next hnone =>
    split at h
    · cases h
      exact .inl ⟨rfl, rfl, hnone⟩
    · cases h
  · next t hnext =>
    obtain ⟨-, ts, hdrop⟩ := next?_eq_some_iff.1 hnext
    have hlength := congrArg List.length hdrop
    rw [List.length_drop, List.length_cons] at hlength
    split at h
    · cases h
      exact .inr ⟨Nat.lt_succ_self _, by omega⟩
    · cases h
    · split at h <;> cases h

/-- Where rounds that get on end. -/
theorem stops_of_rounds (hfit : Fits table enter Part Passed) {n : Nat} {as : List α} {pos' : Nat}
    (h : Rounds (round name table ending enter tokens) n pos as (.ok pos')) :
    (pos' = pos ∧ ending = .anywhere ∧ next? (tokens.drop pos) = none) ∨
      (pos < pos' ∧ pos' ≤ tokens.length) := by
  generalize houtcome : (Except.ok pos' : Except SyntaxError Nat) = outcome at h
  induction h with
  | ended h =>
    subst houtcome
    exact stops_of_round_eq_ended h
  | on h _ ih =>
    obtain ⟨hlt, hle⟩ := advances_of_round_eq_on hfit h
    obtain ⟨rfl, -, -⟩ | ⟨hlt', hle'⟩ := ih houtcome
    · exact .inr ⟨hlt, hle⟩
    · exact .inr ⟨Nat.lt_trans hlt hlt', hle'⟩

theorem ceases_of_fits (hfit : Fits table enter Part Passed) :
    Ceases name table ending enter where
  advances _ _ _ _ := advances_of_round_eq_on hfit
  ends := exists_rounds hfit
  stops tokens pos as pos' h := by
    obtain ⟨n, as', outcome, -, hrounds, hbody⟩ := exists_rounds hfit tokens pos
    rw [h] at hbody
    cases outcome with
    | error e => cases hbody
    | ok stop =>
      obtain ⟨rfl, rfl⟩ := Prod.mk.inj (Except.ok.inj hbody)
      exact stops_of_rounds hfit hrounds

end

/-! ## Constructs -/

/-- A construct takes its head at least. -/
theorem ReadsBehindHead.getsOn {p : Parser α} {Part : List Token → α → List Token → Prop}
    (hp : ReadsBehindHead p Part) (hheaded : Headed Part) : GetsOn p := by
  intro tokens pos a pos' h
  obtain ⟨w, _, inner, rest, hdrop, rfl, -, -⟩ := hp.exists_of_runAt hheaded h
  have hlength := congrArg List.length hdrop
  rw [List.length_drop, List.length_append] at hlength
  rw [List.length_cons] at hlength ⊢
  omega

/-- **Every body comes to an end.**  A construct that is read, at whatever position of whatever
tokens, takes its head at least and no more than there is.  So each body of the language gets on
with every round that does not end it, has an end after no more rounds than there are tokens
ahead and one, and leaves its position only forward. -/
theorem bodies_come_to_an_end :
    ((∀ f, GetsOn (field f)) ∧ (∀ n, GetsOn (course n)) ∧ GetsOn semester ∧ GetsOn program) ∧
      Ceases "the pensum" Table.plan .anywhere entry ∧
      Ceases "the program" Table.program .anywhere (fun _ => semester) ∧
      (∀ name n, Ceases name Table.semester (.closedBy .closeBrace) fun _ => course n) ∧
      (∀ name, Ceases name Table.course (.closedBy .closeBrace) field) ∧
      Ceases "the prerequisites" Table.prerequisites (.closedBy .closeParen)
        fun _ => numeral (.item "a course code") := by
  refine ⟨⟨fun f => (readsBehindHead_field f).getsOn headed_fieldOf,
    fun n => (readsBehindHead_course n).getsOn (headed_courseOf n),
    readsBehindHead_semester.getsOn headed_semesterOf,
    readsBehindHead_program.getsOn headed_programOf⟩,
    ceases_of_fits fits_plan, ceases_of_fits fits_program,
    fun _ n => ceases_of_fits (fits_semester n), fun _ => ceases_of_fits fits_course,
    ceases_of_fits (fits_prerequisites _)⟩

/-- A program whose list of semesters is cut off, with a token in it that means nothing. -/
def cutProgram : List Token :=
  (lex "Carrera: 'X' [ ; Semestre: 1 \x7b\x7d").tokens

theorem bodies_come_to_an_end_cutProgram :
    (program.runAt cutProgram 0).result = .ok (⟨"X", [⟨1, 1, []⟩]⟩, 10) ∧
      0 < 10 ∧ 10 ≤ cutProgram.length ∧
      (∃ n as outcome, n ≤ 8 ∧
        Rounds (round "the program" Table.program .anywhere (fun _ => semester) cutProgram)
          n 4 as outcome) ∧
      ∀ as pos', (entries.runAt cutProgram 20).result = .ok (as, pos') →
        pos' = 20 ∨ 20 < pos' := by
  obtain ⟨⟨-, -, -, hprogram⟩, hplan, hlist, -⟩ := bodies_come_to_an_end
  have hread : (program.runAt cutProgram 0).result = .ok (⟨"X", [⟨1, 1, []⟩]⟩, 10) := by
    decide +kernel
  have hlength : cutProgram.length = 11 := by decide +kernel
  obtain ⟨hlt, hle⟩ := hprogram _ _ _ _ hread
  obtain ⟨n, as, outcome, hn, hrounds, -⟩ := hlist.ends cutProgram 4
  rw [hlength] at hn
  exact ⟨hread, hlt, hle, ⟨n, as, outcome, hn, hrounds⟩,
    fun as pos' h => (hplan.stops _ _ _ _ h).imp And.left And.left⟩

end Parser
end StudyPlan
