import StudyPlan.Proofs.Derivation

/-!
# The parsers read exactly what can be derived

A parser of a construct reads a value off a token list precisely when the value has a
derivation there, and it leaves what the derivation leaves.  There is one such
equivalence for every construct, each built from those of its parts.

## Bodies

`Fits` collects what the parser of a body has to know about its parts: its table
enters exactly where a part begins, and it steps over exactly what a run may pass.
Under this hypothesis `result_body_eq_ok_iff` turns a body into a run, once for all
five bodies of the language.

## The head of a construct

A construct is entered on its first word and reads it unseen.  So each equivalence
below has the kind of that word as a hypothesis, and the table of the surrounding
body is what provides it.
-/

namespace StudyPlan
namespace Parser

open StudyPlan.Derivation

variable {α β σ : Type}

/-! ## Single tokens -/

theorem result_lead_eq_ok_iff {ts rest : List Token} {t : Token} :
    (lead ts).result = .ok (t, rest) ↔ ts = t :: rest := by
  rcases ts with _ | ⟨t', ts⟩
  · simp
  · simp

theorem result_pure_eq_ok_iff {a b : α} {ts rest : List Token} :
    ((pure a : Parser α) ts).result = .ok (b, rest) ↔ a = b ∧ ts = rest := by
  simp

/-- What is written to the log has no influence on what is read. -/
theorem result_emit_bind (e : Event) (f : Unit → Parser α) (ts : List Token) :
    ((emit e >>= f) ts).result = (f () ts).result := rfl

theorem result_emitAll_bind (es : List Event) (f : Unit → Parser α) (ts : List Token) :
    ((emitAll es >>= f) ts).result = (f () ts).result := rfl

theorem result_delimiter_eq_ok_iff {d : Delimiter} {wanted : Expectation}
    {ts rest : List Token} {t : Token} :
    (delimiter d wanted ts).result = .ok (t, rest) ↔
      ts = t :: rest ∧ t.kind = .delimiter d := by
  rw [delimiter, result_token_eq_ok_iff]
  constructor
  · rintro ⟨h, hk, -⟩
    exact ⟨h, hk⟩
  · rintro ⟨h, hk⟩
    exact ⟨h, hk, isFinish_eq_false hk nofun⟩

/-- A parser that reads one token and returns something that it makes of it. -/
theorem result_token_bind_eq_ok_iff {kind : Kind} (hkind : kind ≠ .finish)
    {wanted : Expectation} {f : Token → Parser α} {ts rest : List Token} {a : α} :
    ((token kind wanted >>= f) ts).result = .ok (a, rest) ↔
      ∃ t mid, ts = t :: mid ∧ t.kind = kind ∧ (f t mid).result = .ok (a, rest) := by
  rw [result_bind_eq_ok_iff]
  constructor
  · rintro ⟨t, mid, ht, hf⟩
    obtain ⟨h, hk, -⟩ := result_token_eq_ok_iff.1 ht
    exact ⟨t, mid, h, hk, hf⟩
  · rintro ⟨t, mid, h, hk, hf⟩
    exact ⟨t, mid, result_token_eq_ok_iff.2 ⟨h, hk, isFinish_eq_false hk hkind⟩, hf⟩

theorem result_quoted_eq_ok_iff {wanted : Expectation} {ts rest : List Token} {s : String} :
    (quoted wanted ts).result = .ok (s, rest) ↔
      ∃ t, ts = t :: rest ∧ t.kind = .quoted ∧ t.text = s := by
  rw [quoted, result_token_bind_eq_ok_iff (show Kind.quoted ≠ .finish by decide)]
  simp only [result_pure_eq_ok_iff]
  constructor
  · rintro ⟨t, _, h, hk, hs, rfl⟩
    exact ⟨t, h, hk, hs⟩
  · rintro ⟨t, h, hk, hs⟩
    exact ⟨t, _, h, hk, hs, rfl⟩

theorem result_numeral_eq_ok_iff {wanted : Expectation} {ts rest : List Token} {s : String} :
    (numeral wanted ts).result = .ok (s, rest) ↔
      ∃ t, ts = t :: rest ∧ t.kind = .number ∧ t.text = s := by
  rw [numeral, result_token_bind_eq_ok_iff (show Kind.number ≠ .finish by decide)]
  simp only [result_pure_eq_ok_iff]
  constructor
  · rintro ⟨t, _, h, hk, hs, rfl⟩
    exact ⟨t, h, hk, hs⟩
  · rintro ⟨t, h, hk, hs⟩
    exact ⟨t, _, h, hk, hs, rfl⟩

theorem result_number_eq_ok_iff {wanted : Expectation} {ts rest : List Token} {n : UInt32} :
    (number wanted ts).result = .ok (n, rest) ↔ ∃ t, ts = t :: rest ∧ Writes t n := by
  rw [number, result_token_bind_eq_ok_iff (show Kind.number ≠ .finish by decide)]
  constructor
  · rintro ⟨t, mid, h, hk, hn⟩
    cases hv : Numeral.toUInt32? t.text with
    | none => simp [hv] at hn
    | some m =>
      simp only [hv, result_pure_eq_ok_iff] at hn
      obtain ⟨rfl, rfl⟩ := hn
      exact ⟨t, h, hk, Numeral.toUInt32?_eq_some_iff.1 hv⟩
  · rintro ⟨t, h, hk, hv⟩
    refine ⟨t, rest, h, hk, ?_⟩
    simp [Numeral.toUInt32?_eq_some_iff.2 hv]

theorem result_boolean_eq_ok_iff {wanted : Expectation} {ts rest : List Token} {b : Bool} :
    (boolean wanted ts).result = .ok (b, rest) ↔
      ∃ t, ts = t :: rest ∧ t.kind = .boolean ∧ sameWord t.text "true" = b := by
  rw [boolean, result_token_bind_eq_ok_iff (show Kind.boolean ≠ .finish by decide)]
  simp only [result_pure_eq_ok_iff]
  constructor
  · rintro ⟨t, _, h, hk, hs, rfl⟩
    exact ⟨t, h, hk, hs⟩
  · rintro ⟨t, h, hk, hs⟩
    exact ⟨t, _, h, hk, hs, rfl⟩

/-! ## Bodies -/

/-- The parser of a body and the description of its runs fit each other. -/
structure Fits (table : Token → Action σ) (enter : σ → Parser α)
    (Part : List Token → α → List Token → Prop) (Passed : Token → Prop) : Prop where
  headed : Headed Part
  part_iff : ∀ {t : Token} {ts : List Token} {a : α} {rest : List Token},
    t.isFinish = false → (Part (t :: ts) a rest ↔
      ∃ what, table t = .enter what ∧ (enter what (t :: ts)).result = .ok (a, rest))
  pass_iff : ∀ {t : Token}, t.isFinish = false → (Passed t ↔ table t = .skip)

variable {name : String} {table : Token → Action σ} {ending : Ending} {enter : σ → Parser α}
  {Part : List Token → α → List Token → Prop} {Passed : Token → Prop}

/-- A part leaves no more than what stood behind its head. -/
theorem Fits.suffix (hfit : Fits table enter Part Passed) {t : Token} {ts rest : List Token}
    {a : α} {what : σ} (ht : t.isFinish = false) (hwhat : table t = .enter what)
    (h : (enter what (t :: ts)).result = .ok (a, rest)) : rest <:+ ts := by
  have hpart : Part (t :: ts) a rest := (hfit.part_iff ht).2 ⟨what, hwhat, h⟩
  obtain ⟨_, _, heq, -, hs⟩ := hfit.headed hpart
  obtain ⟨rfl, rfl⟩ := List.cons.inj heq
  exact hs

/-- Where a part begins, a body reads the part and then the body behind it. -/
theorem body_enter (hfit : Fits table enter Part Passed) {t : Token} {ts : List Token}
    {what : σ} (ht : t.isFinish = false) (hwhat : table t = .enter what) :
    body name table ending enter (t :: ts) =
      (enter what >>= fun a => (body name table ending enter).map (a :: ·)) (t :: ts) := by
  rw [bind_apply]
  rcases he : enter what (t :: ts) with ⟨log, e | ⟨a, rest⟩⟩
  · exact body_enter_error ht hwhat he
  · exact body_enter_ok ht hwhat he (hfit.suffix ht hwhat (by rw [he])).length_le

/-- Induction on the tokens ahead along the rounds of a body: a round that reads a part
goes on behind the part. -/
theorem body_rounds (hfit : Fits table enter Part Passed) {C : List Token → Prop}
    (nil : C [])
    (finish : ∀ t ts, t.isFinish = true → C (t :: ts))
    (close : ∀ t ts, t.isFinish = false → table t = .close → C (t :: ts))
    (skip : ∀ t ts, t.isFinish = false → table t = .skip → C ts → C (t :: ts))
    (part : ∀ t ts what, t.isFinish = false → table t = .enter what →
      (∀ a rest, (enter what (t :: ts)).result = .ok (a, rest) → C rest) → C (t :: ts))
    (ts : List Token) : C ts := by
  induction hn : ts.length using Nat.strongRecOn generalizing ts with
  | ind n ih =>
    rcases ts with _ | ⟨t, ts⟩
    · exact nil
    · have hlt : ts.length < n := by
        rw [← hn]
        exact Nat.lt_succ_self _
      cases ht : t.isFinish with
      | true => exact finish t ts ht
      | false =>
        cases htable : table t with
        | close => exact close t ts ht htable
        | skip => exact skip t ts ht htable (ih _ hlt ts rfl)
        | enter what =>
          refine part t ts what ht htable fun a rest h => ?_
          have hle := (hfit.suffix ht htable h).length_le
          exact ih _ (Nat.lt_of_le_of_lt hle hlt) rest rfl

theorem result_bodyEnd_eq_ok_iff {ts rest : List Token} {as : List α} :
    (bodyEnd name ending ts).result = .ok (as, rest) ↔
      ending = .anywhere ∧ as = [] ∧ rest = ts := by
  cases ending with
  | anywhere => simp [bodyEnd, eq_comm]
  | closedBy d => simp [bodyEnd]

/-- At the end of the tokens a body reads nothing, and only if it need not be closed. -/
theorem body_of_next?_eq_none {ts : List Token} (h : next? ts = none) :
    body name table ending enter ts = bodyEnd name ending ts := by
  rcases ts with _ | ⟨t, ts⟩
  · exact body_nil
  · cases hf : t.isFinish with
    | true => exact body_finish hf
    | false => simp [next?, hf] at h

/-- How the run of a body may come to its end. -/
def Ends (table : Token → Action σ) (ending : Ending)
    (Run : List Token → Prop) (rest : List Token) : Prop :=
  (∃ closing, closing.isFinish = false ∧ table closing = .close ∧ Run (closing :: rest)) ∨
    (ending = .anywhere ∧ next? rest = none ∧ Run rest)

theorem Ends.imp {ending : Ending} {R R' : List Token → Prop} {rest : List Token}
    (h : Ends table ending R rest) (himp : ∀ ts, R ts → R' ts) :
    Ends table ending R' rest := by
  rcases h with ⟨closing, hf, hc, h⟩ | ⟨he, hn, h⟩
  · exact .inl ⟨closing, hf, hc, himp _ h⟩
  · exact .inr ⟨he, hn, himp _ h⟩

/-- A body reads a run and goes on behind it. -/
theorem result_body_of_run (hfit : Fits table enter Part Passed) {ts mid : List Token}
    {as : List α} (h : Run Part Passed ts as mid) :
    (body name table ending enter ts).result =
      (body name table ending enter mid).result.map fun (bs, rest) => (as ++ bs, rest) := by
  induction h with
  | stop ts =>
    rcases (body name table ending enter ts).result with e | ⟨bs, rest⟩ <;> rfl
  | pass hf hp _ ih =>
    rw [body_skip hf ((hfit.pass_iff hf).1 hp), Logged.result_after, ih]
  | @part _ mid a _ _ ha _ ih =>
    obtain ⟨t, ts', rfl, hf, hs⟩ := hfit.headed ha
    obtain ⟨what, hwhat, he⟩ := (hfit.part_iff hf).1 ha
    have hall : enter what (t :: ts') = ⟨(enter what (t :: ts')).log, .ok (a, mid)⟩ := by
      rw [← he]
    rw [body_enter_ok hf hwhat hall hs.length_le, Logged.result_after, Logged.result_map, ih]
    rcases (body name table ending enter _).result with e | ⟨bs, rest⟩ <;> rfl

/-- **A body is a run.** -/
theorem result_body_eq_ok_iff (hfit : Fits table enter Part Passed) {ts rest : List Token}
    {as : List α} :
    (body name table ending enter ts).result = .ok (as, rest) ↔
      Ends table ending (Run Part Passed ts as) rest := by
  constructor
  · intro h
    fun_induction body name table ending enter ts generalizing as rest with
    | case1 =>
      obtain ⟨he, rfl, rfl⟩ := result_bodyEnd_eq_ok_iff.1 h
      exact .inr ⟨he, rfl, .stop _⟩
    | case2 t ts hf =>
      obtain ⟨he, rfl, rfl⟩ := result_bodyEnd_eq_ok_iff.1 h
      exact .inr ⟨he, if_pos hf, .stop _⟩
    | case3 t ts hf hclose =>
      obtain ⟨rfl, rfl⟩ : [] = as ∧ ts = rest := by simpa using h
      exact .inl ⟨t, by simpa using hf, hclose, .stop _⟩
    | case4 t ts hf hskip ih =>
      have hf' : t.isFinish = false := by simpa using hf
      exact (ih h).imp fun _ hr => .pass hf' ((hfit.pass_iff hf').2 hskip) hr
    | case5 t ts hf what henter log e he => simp at h
    | case6 t ts hf what henter log a mid he ih =>
      have hf' : t.isFinish = false := by simpa using hf
      have hresult : (enter what (t :: ts)).result = .ok (a, mid) := by rw [he]
      have hpart : Part (t :: ts) a mid := (hfit.part_iff hf').2 ⟨what, henter, hresult⟩
      have hs := hfit.suffix hf' henter hresult
      rw [atMost_of_length_le hs.length_le] at ih h
      rcases hb : (body name table ending enter mid).result with e | ⟨as', rest'⟩
      · simp [hb, Except.map] at h
      · obtain ⟨rfl, rfl⟩ : a :: as' = as ∧ rest' = rest := by
          simpa [hb, Except.map] using h
        exact (ih hb).imp fun _ hr => .part hpart hr
  · rintro (⟨closing, hf, hc, h⟩ | ⟨he, hn, h⟩)
    · rw [result_body_of_run hfit h, body_close hf hc]
      simp [Except.map]
    · rw [result_body_of_run hfit h, body_of_next?_eq_none hn, he]
      simp [bodyEnd, Except.map]

end Parser

/-! ## Tables -/

namespace Table

open StudyPlan.Derivation

theorem plan_eq_enter_program_iff {t : Token} :
    plan t = .enter .program ↔ t.kind = .keyword .carrera := by
  unfold plan
  split <;> simp_all

theorem plan_eq_enter_semester_iff {t : Token} :
    plan t = .enter .semester ↔ t.kind = .keyword .semestre := by
  unfold plan
  split <;> simp_all

theorem plan_eq_skip_iff {t : Token} :
    plan t = .skip ↔ t.kind ≠ .keyword .carrera ∧ t.kind ≠ .keyword .semestre := by
  unfold plan
  split <;> simp_all

theorem plan_ne_close (t : Token) : plan t ≠ .close := by
  unfold plan
  split <;> simp

theorem program_eq_enter_iff {t : Token} :
    program t = .enter () ↔ t.kind = .keyword .semestre := by
  unfold program
  split <;> simp_all

theorem program_eq_close_iff {t : Token} :
    program t = .close ↔ t.kind = .delimiter .closeBracket := by
  unfold program
  split <;> simp_all

theorem program_eq_skip_iff {t : Token} :
    program t = .skip ↔ t.kind ≠ .keyword .semestre ∧ t.kind ≠ .delimiter .closeBracket := by
  unfold program
  split <;> simp_all

theorem semester_eq_enter_iff {t : Token} :
    semester t = .enter () ↔ t.kind = .keyword .curso := by
  unfold semester
  split <;> simp_all

theorem semester_eq_close_iff {t : Token} :
    semester t = .close ↔ t.kind = .delimiter .closeBrace := by
  unfold semester
  split <;> simp_all

theorem semester_eq_skip_iff {t : Token} :
    semester t = .skip ↔ t.kind ≠ .keyword .curso ∧ t.kind ≠ .delimiter .closeBrace := by
  unfold semester
  split <;> simp_all

theorem prerequisites_eq_enter_iff {t : Token} :
    prerequisites t = .enter () ↔ t.kind = .number := by
  unfold prerequisites
  split <;> simp_all

theorem prerequisites_eq_close_iff {t : Token} :
    prerequisites t = .close ↔ t.kind = .delimiter .closeParen := by
  unfold prerequisites
  split <;> simp_all

theorem prerequisites_eq_skip_iff {t : Token} :
    prerequisites t = .skip ↔ t.kind ≠ .number ∧ t.kind ≠ .delimiter .closeParen := by
  unfold prerequisites
  split <;> simp_all

theorem course_eq_close_iff {t : Token} :
    course t = .close ↔ t.kind = .delimiter .closeBrace := by
  unfold course
  split <;> try simp_all
  split <;> simp

/-- No word is both the name of the area and a spelling of the prerequisites, since
these begin with different letters. -/
theorem sameWord_area_of_prerequisite {word s : String} (hs : s ∈ prerequisiteSpellings)
    (h : sameWord word s = true) : sameWord word "area" = false := by
  have hne : ∀ s ∈ prerequisiteSpellings, sameWord s "area" = false := by decide
  rw [sameWord, beq_iff_eq] at h
  rw [sameWord, h]
  exact hne s hs

theorem fieldOfIdentifier?_eq_prerequisites_iff {word : String} :
    fieldOfIdentifier? word = some .prerequisites ↔
      ∃ s ∈ prerequisiteSpellings, sameWord word s = true := by
  unfold fieldOfIdentifier?
  rw [← List.any_eq_true]
  split
  · next h => simp [h]
  · next h => split <;> simp [h]

theorem fieldOfIdentifier?_eq_area_iff {word : String} :
    fieldOfIdentifier? word = some .area ↔ sameWord word "area" = true := by
  unfold fieldOfIdentifier?
  split
  · next h =>
    obtain ⟨s, hs, hw⟩ := List.any_eq_true.1 h
    simp [sameWord_area_of_prerequisite hs hw]
  · split <;> simp_all

/-- Every other field is headed by a reserved word. -/
theorem eq_of_fieldOfIdentifier?_eq_some {word : String} {f : Field}
    (h : fieldOfIdentifier? word = some f) : f = .prerequisites ∨ f = .area := by
  unfold fieldOfIdentifier? at h
  split at h
  · exact .inl (Option.some.inj h).symm
  · split at h
    · exact .inr (Option.some.inj h).symm
    · cases h

/-- The table of a course enters a field on the words that head it. -/
theorem course_eq_enter_iff {t : Token} {f : Field} : course t = .enter f ↔ Heads t f := by
  unfold course
  split
  -- the six reserved words head one field each
  iterate 6 next hk => cases f <;> simp [Heads, hk]
  · next hk =>
    have hcase : fieldOfIdentifier? t.text = some f ↔ Heads t f := by
      cases f with
      | prerequisites => simp [Heads, hk, fieldOfIdentifier?_eq_prerequisites_iff]
      | area => simp [Heads, hk, fieldOfIdentifier?_eq_area_iff]
      | name | code | credits | description | mandatory =>
        simp only [Heads, hk, reduceCtorEq, iff_false]
        intro h
        cases eq_of_fieldOfIdentifier?_eq_some h <;> contradiction
    rw [← hcase]
    cases fieldOfIdentifier? t.text <;> simp
  · next hk => cases f <;> simp [Heads, hk]
  · cases f <;> simp_all [Heads]

/-- A word heads at most one field. -/
theorem heads_unique {w : Token} {f f' : Field} (h : Heads w f) (h' : Heads w f') : f = f' := by
  rw [← course_eq_enter_iff] at h h'
  exact Action.enter.inj (h.symm.trans h')

end Table

/-! ## Constructs -/

namespace Parser

open StudyPlan.Derivation

/-- A body that has to be closed ends with its closing token. -/
theorem ends_closedBy_iff {σ : Type} {table : Token → Action σ} {d : Delimiter}
    (hclose : ∀ {t : Token}, table t = .close ↔ t.kind = .delimiter d)
    {R : List Token → Prop} {rest : List Token} :
    Ends table (.closedBy d) R rest ↔
      ∃ closing, closing.kind = .delimiter d ∧ R (closing :: rest) := by
  constructor
  · rintro (⟨closing, -, hc, hr⟩ | ⟨he, -, -⟩)
    · exact ⟨closing, hclose.1 hc, hr⟩
    · cases he
  · rintro ⟨closing, hk, hr⟩
    exact .inl ⟨closing, isFinish_eq_false hk nofun, hclose.2 hk, hr⟩

theorem fits_prerequisites (wanted : Expectation) :
    Fits Table.prerequisites (fun _ => numeral wanted) CodeOf
      (fun t => t.kind ≠ .number ∧ t.kind ≠ .delimiter .closeParen) where
  headed := headed_codeOf
  part_iff := by
    intro t ts a rest _
    simp only [result_numeral_eq_ok_iff]
    constructor
    · rintro ⟨hk⟩
      exact ⟨(), Table.prerequisites_eq_enter_iff.2 hk, t, rfl, hk, rfl⟩
    · rintro ⟨-, -, _, heq, hk, rfl⟩
      obtain ⟨rfl, rfl⟩ := List.cons.inj heq
      exact .intro hk
  pass_iff := fun _ => Table.prerequisites_eq_skip_iff.symm

theorem result_prerequisites_eq_ok_iff {ts rest : List Token} {codes : List String} :
    (prerequisites ts).result = .ok (codes, rest) ↔
      ∃ opening ts' closing, ts = opening :: ts' ∧ opening.kind = .delimiter .openParen ∧
        CodesOf ts' codes (closing :: rest) ∧ closing.kind = .delimiter .closeParen := by
  rw [prerequisites, result_bind_eq_ok_iff]
  simp only [result_delimiter_eq_ok_iff, result_body_eq_ok_iff (fits_prerequisites _),
    ends_closedBy_iff Table.prerequisites_eq_close_iff]
  constructor
  · rintro ⟨opening, ts', ⟨h, ho⟩, closing, hc, hrun⟩
    exact ⟨opening, ts', closing, h, ho, hrun, hc⟩
  · rintro ⟨opening, ts', closing, h, ho, hrun, hc⟩
    exact ⟨opening, ts', ⟨h, ho⟩, closing, hc, hrun⟩

/-- A field with a single value reads it and the semicolon behind it. -/
theorem result_fieldValue_eq_ok_iff {f : Field} (hf : f ≠ .prerequisites) {line : Nat}
    {ts rest : List Token} {d : Detail} :
    (fieldValue f line ts).result = .ok (d, rest) ↔
      ∃ v semicolon, ts = v :: semicolon :: rest ∧ ValueOf line f v d ∧
        semicolon.kind = .delimiter .semicolon := by
  have hend : ∀ {ts rest : List Token} {d' : Detail},
      ((fieldEnd f >>= fun _ => pure d') ts).result = .ok (d, rest) ↔
        ∃ semicolon, ts = semicolon :: rest ∧ semicolon.kind = .delimiter .semicolon ∧ d' = d := by
    intro ts rest d'
    rw [result_bind_eq_ok_iff]
    simp only [fieldEnd, result_delimiter_eq_ok_iff, result_pure_eq_ok_iff]
    constructor
    · rintro ⟨semicolon, _, ⟨h, hk⟩, hd, rfl⟩
      exact ⟨semicolon, h, hk, hd⟩
    · rintro ⟨semicolon, h, hk, hd⟩
      exact ⟨semicolon, _, ⟨h, hk⟩, hd, rfl⟩
  cases f with
  | prerequisites => exact absurd rfl hf
  | name | code | description | area =>
    simp only [fieldValue, result_bind_eq_ok_iff (p := quoted _), result_quoted_eq_ok_iff, hend]
    constructor
    · rintro ⟨_, _, ⟨v, rfl, hv, rfl⟩, semicolon, rfl, hs, rfl⟩
      exact ⟨v, semicolon, rfl, by constructor; exact hv, hs⟩
    · rintro ⟨v, semicolon, rfl, hv, hs⟩
      cases hv with
      | _ hv => exact ⟨_, _, ⟨v, rfl, hv, rfl⟩, semicolon, rfl, hs, rfl⟩
  | credits =>
    simp only [fieldValue, result_bind_eq_ok_iff (p := number _), result_number_eq_ok_iff, hend]
    constructor
    · rintro ⟨_, _, ⟨v, rfl, hv⟩, semicolon, rfl, hs, rfl⟩
      exact ⟨v, semicolon, rfl, .credits hv, hs⟩
    · rintro ⟨v, semicolon, rfl, hv, hs⟩
      cases hv with
      | credits hv => exact ⟨_, _, ⟨v, rfl, hv⟩, semicolon, rfl, hs, rfl⟩
  | mandatory =>
    simp only [fieldValue, result_bind_eq_ok_iff (p := boolean _), result_boolean_eq_ok_iff, hend]
    constructor
    · rintro ⟨_, _, ⟨v, rfl, hv, rfl⟩, semicolon, rfl, hs, rfl⟩
      exact ⟨v, semicolon, rfl, .mandatory hv, hs⟩
    · rintro ⟨v, semicolon, rfl, hv, hs⟩
      cases hv with
      | mandatory hv => exact ⟨_, _, ⟨v, rfl, hv, rfl⟩, semicolon, rfl, hs, rfl⟩

theorem result_field_eq_ok_iff {w : Token} {f : Field} (hw : Heads w f) {ts rest : List Token}
    {d : Detail} :
    (field f (w :: ts)).result = .ok (d, rest) ↔ FieldOf (w :: ts) d rest := by
  simp only [field, result_bind_eq_ok_iff, result_lead_eq_ok_iff, result_delimiter_eq_ok_iff]
  constructor
  · rintro ⟨_, _, heq, colon, mid, ⟨rfl, hcolon⟩, hvalue⟩
    obtain ⟨rfl, rfl⟩ := List.cons.inj heq
    by_cases hf : f = .prerequisites
    · subst hf
      rw [fieldValue, result_bind_eq_ok_iff] at hvalue
      simp only [result_pure_eq_ok_iff, result_prerequisites_eq_ok_iff] at hvalue
      obtain ⟨_, _, ⟨_, _, _, rfl, ho, hrun, hc⟩, rfl, rfl⟩ := hvalue
      exact .prerequisites hw hcolon ho hrun hc
    · obtain ⟨v, semicolon, rfl, hv, hs⟩ := (result_fieldValue_eq_ok_iff hf).1 hvalue
      exact .single hw hcolon hv hs
  · intro h
    cases h with
    | single hw' hcolon hv hs =>
      obtain rfl : f = _ := Table.heads_unique hw hw'
      have hf : f ≠ .prerequisites := by
        rintro rfl
        cases hv
      exact ⟨_, _, rfl, _, _, ⟨rfl, hcolon⟩,
        (result_fieldValue_eq_ok_iff hf).2 ⟨_, _, rfl, hv, hs⟩⟩
    | prerequisites hw' hcolon ho hrun hc =>
      obtain rfl : f = _ := Table.heads_unique hw hw'
      refine ⟨_, _, rfl, _, _, ⟨rfl, hcolon⟩, ?_⟩
      rw [fieldValue, result_bind_eq_ok_iff]
      simp only [result_pure_eq_ok_iff, result_prerequisites_eq_ok_iff]
      exact ⟨_, _, ⟨_, _, _, rfl, ho, hrun, hc⟩, rfl, rfl⟩

theorem fits_course : Fits Table.course field FieldOf (fun t => Table.course t = .skip) where
  headed := headed_fieldOf
  part_iff := by
    intro t ts d rest _
    constructor
    · intro h
      obtain ⟨f, hf⟩ := exists_heads h
      exact ⟨f, Table.course_eq_enter_iff.2 hf, (result_field_eq_ok_iff hf).2 h⟩
    · rintro ⟨f, hf, h⟩
      exact (result_field_eq_ok_iff (Table.course_eq_enter_iff.1 hf)).1 h
  pass_iff := fun _ => Iff.rfl

theorem result_course_eq_ok_iff {w : Token} (hw : w.kind = .keyword .curso) {n : UInt32}
    {ts rest : List Token} {c : Course} :
    (course n (w :: ts)).result = .ok (c, rest) ↔ CourseOf n (w :: ts) c rest := by
  simp only [course, result_bind_eq_ok_iff, result_lead_eq_ok_iff, result_delimiter_eq_ok_iff,
    result_numeral_eq_ok_iff, result_emit_bind, result_emitAll_bind,
    result_body_eq_ok_iff fits_course, ends_closedBy_iff Table.course_eq_close_iff,
    result_pure_eq_ok_iff]
  constructor
  · rintro ⟨_, _, heq, colon, _, ⟨rfl, hcolon⟩, _, _, ⟨code, rfl, hcode, rfl⟩, opening, _,
      ⟨rfl, ho⟩, details, _, ⟨closing, hc, hrun⟩, rfl, rfl⟩
    obtain ⟨rfl, rfl⟩ := List.cons.inj heq
    exact .intro hw hcolon hcode ho hrun hc
  · rintro ⟨_, hcolon, hcode, ho, hrun, hc⟩
    exact ⟨_, _, rfl, _, _, ⟨rfl, hcolon⟩, _, _, ⟨_, rfl, hcode, rfl⟩, _, _,
      ⟨rfl, ho⟩, _, _, ⟨_, hc, hrun⟩, rfl, rfl⟩

theorem fits_semester (n : UInt32) :
    Fits Table.semester (fun _ => course n) (CourseOf n)
      (fun t => t.kind ≠ .keyword .curso ∧ t.kind ≠ .delimiter .closeBrace) where
  headed := headed_courseOf n
  part_iff := by
    intro t ts c rest _
    constructor
    · intro h
      have hk : t.kind = .keyword .curso := by
        cases h with
        | intro hk => exact hk
      exact ⟨(), Table.semester_eq_enter_iff.2 hk, (result_course_eq_ok_iff hk).2 h⟩
    · rintro ⟨_, hk, h⟩
      exact (result_course_eq_ok_iff (Table.semester_eq_enter_iff.1 hk)).1 h
  pass_iff := fun _ => Table.semester_eq_skip_iff.symm

theorem result_semester_eq_ok_iff {w : Token} (hw : w.kind = .keyword .semestre)
    {ts rest : List Token} {s : Semester} :
    (semester (w :: ts)).result = .ok (s, rest) ↔ SemesterOf (w :: ts) s rest := by
  simp only [semester, result_bind_eq_ok_iff, result_lead_eq_ok_iff,
    result_delimiter_eq_ok_iff, result_number_eq_ok_iff, result_emit_bind,
    result_body_eq_ok_iff (fits_semester _), ends_closedBy_iff Table.semester_eq_close_iff,
    result_pure_eq_ok_iff]
  constructor
  · rintro ⟨_, _, heq, colon, _, ⟨rfl, hcolon⟩, n, _, ⟨number, rfl, hn⟩, opening, _,
      ⟨rfl, ho⟩, courses, _, ⟨closing, hc, hrun⟩, rfl, rfl⟩
    obtain ⟨rfl, rfl⟩ := List.cons.inj heq
    exact .intro hw hcolon hn ho hrun hc
  · rintro ⟨_, hcolon, hn, ho, hrun, hc⟩
    exact ⟨_, _, rfl, _, _, ⟨rfl, hcolon⟩, _, _, ⟨_, rfl, hn⟩, _, _, ⟨rfl, ho⟩, _, _,
      ⟨_, hc, hrun⟩, rfl, rfl⟩

theorem kind_of_semesterOf {w : Token} {ts rest : List Token} {s : Semester}
    (h : SemesterOf (w :: ts) s rest) : w.kind = .keyword .semestre := by
  cases h with
  | intro hw => exact hw

theorem kind_of_programOf {w : Token} {ts rest : List Token} {p : Program}
    (h : ProgramOf (w :: ts) p rest) : w.kind = .keyword .carrera := by
  cases h with
  | bare hw | closed hw | cut hw => exact hw

theorem fits_program :
    Fits Table.program (fun _ => semester) SemesterOf
      (fun t => t.kind ≠ .keyword .semestre ∧ t.kind ≠ .delimiter .closeBracket) where
  headed := headed_semesterOf
  part_iff := by
    intro t ts s rest _
    constructor
    · intro h
      have hk := kind_of_semesterOf h
      exact ⟨(), Table.program_eq_enter_iff.2 hk, (result_semester_eq_ok_iff hk).2 h⟩
    · rintro ⟨_, hk, h⟩
      exact (result_semester_eq_ok_iff (Table.program_eq_enter_iff.1 hk)).1 h
  pass_iff := fun _ => Table.program_eq_skip_iff.symm

/-- Behind the title of a program there is either no bracket, and nothing is read, or
a bracket and a body that may end with the tokens. -/
theorem result_programBody_eq_ok_iff {ts rest : List Token} {ss : List Semester} :
    (programBody ts).result = .ok (ss, rest) ↔
      ((∀ t ∈ ts.head?, t.kind ≠ .delimiter .openBracket) ∧ ss = [] ∧ rest = ts) ∨
        ∃ opening ts', ts = opening :: ts' ∧ opening.kind = .delimiter .openBracket ∧
          Ends Table.program .anywhere (SemestersOf ts' ss) rest := by
  rcases ts with _ | ⟨t, ts⟩
  · simp [programBody, eq_comm]
  · by_cases hk : t.kind = .delimiter .openBracket
    · rw [programBody, Token.isDelimiter, decide_eq_true hk, if_pos rfl,
        result_body_eq_ok_iff fits_program]
      constructor
      · exact fun h => .inr ⟨t, ts, rfl, hk, h⟩
      · rintro (⟨hne, -, -⟩ | ⟨_, _, heq, -, h⟩)
        · exact absurd hk (hne t rfl)
        · obtain ⟨rfl, rfl⟩ := List.cons.inj heq
          exact h
    · rw [programBody, Token.isDelimiter, decide_eq_false hk]
      simp [hk, eq_comm]

theorem result_program_eq_ok_iff {w : Token} (hw : w.kind = .keyword .carrera)
    {ts rest : List Token} {p : Program} :
    (program (w :: ts)).result = .ok (p, rest) ↔ ProgramOf (w :: ts) p rest := by
  simp only [program, result_bind_eq_ok_iff, result_lead_eq_ok_iff,
    result_delimiter_eq_ok_iff, result_quoted_eq_ok_iff, result_emit_bind,
    result_programBody_eq_ok_iff, result_pure_eq_ok_iff]
  constructor
  · rintro ⟨_, _, heq, colon, _, ⟨rfl, hcolon⟩, _, _, ⟨title, rfl, ht, rfl⟩, ss, _,
      hbody, rfl, rfl⟩
    obtain ⟨rfl, rfl⟩ := List.cons.inj heq
    rcases hbody with ⟨hbare, rfl, rfl⟩ | ⟨opening, _, rfl, ho, hends⟩
    · exact .bare hw hcolon ht hbare
    · rcases hends with ⟨closing, -, hc, hrun⟩ | ⟨-, hn, hrun⟩
      · exact .closed hw hcolon ht ho hrun (Table.program_eq_close_iff.1 hc)
      · exact .cut hw hcolon ht ho hrun hn
  · intro h
    cases h with
    | bare _ hcolon ht hbare =>
      exact ⟨_, _, rfl, _, _, ⟨rfl, hcolon⟩, _, _, ⟨_, rfl, ht, rfl⟩, _, _,
        .inl ⟨hbare, rfl, rfl⟩, rfl, rfl⟩
    | closed _ hcolon ht ho hrun hc =>
      exact ⟨_, _, rfl, _, _, ⟨rfl, hcolon⟩, _, _, ⟨_, rfl, ht, rfl⟩, _, _,
        .inr ⟨_, _, rfl, ho, .inl ⟨_, isFinish_eq_false hc nofun,
          Table.program_eq_close_iff.2 hc, hrun⟩⟩, rfl, rfl⟩
    | cut _ hcolon ht ho hrun hn =>
      exact ⟨_, _, rfl, _, _, ⟨rfl, hcolon⟩, _, _, ⟨_, rfl, ht, rfl⟩, _, _,
        .inr ⟨_, _, rfl, ho, .inr ⟨rfl, hn, hrun⟩⟩, rfl, rfl⟩

theorem fits_plan :
    Fits Table.plan entry EntryOf
      (fun t => t.kind ≠ .keyword .carrera ∧ t.kind ≠ .keyword .semestre) where
  headed := headed_entryOf
  part_iff := by
    intro t ts e rest _
    constructor
    · intro h
      cases h with
      | program hp =>
        have hk := kind_of_programOf hp
        refine ⟨.program, Table.plan_eq_enter_program_iff.2 hk, ?_⟩
        simp only [entry, result_bind_eq_ok_iff, result_program_eq_ok_iff hk,
          result_pure_eq_ok_iff]
        exact ⟨_, _, hp, rfl, rfl⟩
      | semester hs =>
        have hk := kind_of_semesterOf hs
        refine ⟨.semester, Table.plan_eq_enter_semester_iff.2 hk, ?_⟩
        simp only [entry, result_bind_eq_ok_iff, result_semester_eq_ok_iff hk,
          result_pure_eq_ok_iff]
        exact ⟨_, _, hs, rfl, rfl⟩
    · rintro ⟨what, hwhat, h⟩
      cases what with
      | program =>
        simp only [entry, result_bind_eq_ok_iff, result_pure_eq_ok_iff,
          result_program_eq_ok_iff (Table.plan_eq_enter_program_iff.1 hwhat)] at h
        obtain ⟨_, _, hp, rfl, rfl⟩ := h
        exact .program hp
      | semester =>
        simp only [entry, result_bind_eq_ok_iff, result_pure_eq_ok_iff,
          result_semester_eq_ok_iff (Table.plan_eq_enter_semester_iff.1 hwhat)] at h
        obtain ⟨_, _, hs, rfl, rfl⟩ := h
        exact .semester hs
  pass_iff := fun _ => Table.plan_eq_skip_iff.symm

/-- The entries of a whole token list, and the end of the tokens behind them. -/
theorem result_entries_eq_ok_iff {ts rest : List Token} {es : List Entry} :
    (entries ts).result = .ok (es, rest) ↔ EntriesOf ts es rest ∧ next? rest = none := by
  rw [entries, result_body_eq_ok_iff fits_plan]
  constructor
  · rintro (⟨closing, -, hc, -⟩ | ⟨-, hn, hrun⟩)
    · exact absurd hc (Table.plan_ne_close _)
    · exact ⟨hrun, hn⟩
  · rintro ⟨hrun, hn⟩
    exact .inr ⟨rfl, hn, hrun⟩

end Parser
end StudyPlan
