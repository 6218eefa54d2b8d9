import StudyPlan.Proofs.Disclosure
import StudyPlan.Proofs.Rendering

/-!
# The two JSON forms of a report

A report has a form of its own and one that is shown to a user.  They name things
differently, and what is unknown is left out in the first and null in the second.  Since
both are texts, the question whether they say the same is one about what is read from
these texts (`Report.SayTheSame`).

## What makes it more than a look at two definitions

The user's form is printed with sorted keys.  Among the keys of an object are the codes of
courses, which may be any texts.  Sorting keeps the value of a key only if the key comes
once, so it matters that no object of a report has a key twice.  For the object of the
codes this is due to the index that it is made of, and hence to how a curriculum comes about
(`Curriculum.keyed_toJson`).
-/

namespace StudyPlan

open Json (Keyed Same)

/-! ## No key comes twice -/

theorem Token.keyed_toJson (t : Token) : Keyed t.toJson := by
  refine .object (by simp) ?_
  simp [Keyed.string, Keyed.number]

theorem keyed_tokensToJson (tokens : List Token) : Keyed (tokensToJson tokens) :=
  .array (List.forall_mem_map.2 fun t _ => t.keyed_toJson)

theorem Fault.keyed_toJson (f : Fault) : Keyed f.toJson := by
  refine .object (by simp) ?_
  simp [Keyed.string, Keyed.number]

theorem keyed_strings (texts : List String) : Keyed (.array (texts.map Json.string)) :=
  .array (List.forall_mem_map.2 fun text _ => .string text)

theorem Course.keyed_toJson (c : Course) : Keyed c.toJson := by
  refine .object ?_ ?_
  · cases c.description <;> cases c.area <;> cases c.mandatory <;> simp [optionalMember]
  · cases c.description <;> cases c.area <;> cases c.mandatory <;>
      simp [optionalMember, Keyed.string, Keyed.number, Keyed.bool, keyed_strings]

theorem keyed_semesterToJson (e : UInt32 × List Course) :
    Keyed (.object [
      ("numero", .number e.1.toNat),
      ("cursos", .array (e.2.map Course.toJson))]) := by
  have hcourses : Keyed (.array (e.2.map Course.toJson)) :=
    .array (List.forall_mem_map.2 fun c _ => c.keyed_toJson)
  refine .object (by simp) ?_
  simp [Keyed.number, hcourses]

theorem keyed_blockToJson (b : Block) :
    Keyed (.object [("numero", .number b.number.toNat), ("line", .number b.line)]) := by
  refine .object (by simp) ?_
  simp [Keyed.number]

/-- A code has one place in the index, and so it is a key once. -/
theorem Curriculum.keyed_toJson (h : Curriculum.History) :
    Keyed (Curriculum.ofHistory h).toJson := by
  refine .object (by simp) ?_
  simp only [List.forall_mem_cons]
  refine ⟨.string _, ?_, ?_, ?_, nofun⟩
  · exact .array (List.forall_mem_map.2 fun e _ => keyed_semesterToJson e)
  · refine .object ?_ (List.forall_mem_map.2 fun e _ => e.2.keyed_toJson)
    have hkeys := nodup_eraseDups h.codes
    rw [← Curriculum.map_fst_coursesByCode_ofHistory] at hkeys
    rwa [List.map_map]
  · exact .array (List.forall_mem_map.2 fun b _ => keyed_blockToJson b)

namespace Report

/-- What a report needs so that no key comes twice in it. -/
def HasKeyedCurriculum (r : Report) : Prop :=
  ∀ c ∈ r.curriculum?, Keyed c.toJson

theorem hasKeyedCurriculum_of_analyze {settings : Settings} {source : String} {report : Report}
    (h : (analyze settings source).result = .ok report) : report.HasKeyedCurriculum := by
  cases report with
  | lexicalFaults | syntaxError => nofun
  | parsed tokens c =>
    rintro _ ⟨⟩
    obtain ⟨steps, rfl⟩ := exists_history_of_parsed h
    exact Curriculum.keyed_toJson steps

theorem keyed_toJson {r : Report} (h : r.HasKeyedCurriculum) : Keyed r.toJson := by
  cases r with
  | lexicalFaults faults =>
    refine .object (by simp) ?_
    simp only [List.forall_mem_cons]
    exact ⟨.string _, .array (List.forall_mem_map.2 fun f _ => f.keyed_toJson), nofun⟩
  | parsed tokens c =>
    have hc := h c rfl
    refine .object ?_ ?_
    · cases tokens <;> simp [optionalMember]
    · cases tokens <;> simp [optionalMember, Keyed.string, keyed_tokensToJson, hc]
  | syntaxError tokens message line =>
    refine .object ?_ ?_
    · cases tokens <;> cases line <;> simp [optionalMember]
    · cases tokens <;> cases line <;>
        simp [optionalMember, Keyed.string, Keyed.number, keyed_tokensToJson]

theorem keyed_data {r : Report} (h : r.HasKeyedCurriculum) : Keyed r.data := by
  cases r with
  | lexicalFaults faults =>
    refine .object (by simp) ?_
    simp only [List.forall_mem_cons]
    exact ⟨.array (List.forall_mem_map.2 fun f _ => f.keyed_toJson), nofun⟩
  | parsed tokens c =>
    have hc := h c rfl
    refine .object ?_ ?_
    · cases tokens <;> simp [optionalMember]
    · cases tokens <;> simp [optionalMember, keyed_tokensToJson, hc]
  | syntaxError tokens message line =>
    refine .object ?_ ?_
    · cases tokens <;> cases line <;> simp [optionalMember]
    · cases tokens <;> cases line <;>
        simp [optionalMember, Json.ofNat?, Keyed.null, Keyed.string, Keyed.number,
          keyed_tokensToJson]

theorem keyed_envelope {r : Report} (h : r.HasKeyedCurriculum) : Keyed r.envelope := by
  refine .object (by simp) ?_
  simp [Keyed.bool, keyed_data h]

/-! ## What both forms say -/

/-- The value of `key` in the one object is that of `key'` in the other, but for the order of
members. -/
def Shares (own : Json) (key : String) (data : Json) (key' : String) : Prop :=
  ∃ j k, own.get? key = some j ∧ data.get? key' = some k ∧ Same j k

/-- A report's own form and the form that is shown to a user say the same.  What was found is
the third value. -/
structure SayTheSame (own shown found : Json) : Prop where
  /-- The user is told what was found, -/
  data : shown.get? "data" = some found
  /-- and whether it is a curriculum. -/
  success : ∃ b, shown.get? "success" = some (.bool b) ∧
    (b = true ↔ own.get? "status" = some (.string "parsed"))
  /-- There is one of three outcomes. -/
  outcome : ∃ outcome ∈ ["lexical_errors", "parsed", "syntax_error"],
    own.get? "status" = some (.string outcome)
  faults : own.get? "status" = some (.string "lexical_errors") →
    Shares own "errors" found "errors"
  curriculum : own.get? "status" = some (.string "parsed") → Shares own "pensum" found "pensum"
  message : own.get? "status" = some (.string "syntax_error") →
    ∃ message, own.get? "message" = some (.string message) ∧
      found.get? "error" = some (.string message)
  /-- A line that is left out in the one form is null in the other. -/
  line : own.get? "status" = some (.string "syntax_error") →
    (own.get? "line" = none ∧ found.get? "line" = some .null) ∨
      ∃ n, own.get? "line" = some (.number n) ∧ found.get? "line" = some (.number n)
  /-- Tokens are listed in both forms or in none. -/
  tokens : (own.get? "tokens" = none ∧ found.get? "tokens" = none) ∨
    Shares own "tokens" found "tokens"

theorem shares_sortKeys {own found j : Json} {key key' : String} (hfound : Keyed found)
    (hown : own.get? key = some j) (hj : found.get? key' = some j) :
    Shares own key found.sortKeys key' :=
  ⟨j, j.sortKeys, hown, by rw [hfound.get?_sortKeys, hj, Option.map_some],
    (hfound.of_get? hj).same_sortKeys⟩

theorem get?_tokens_toJson (r : Report) :
    r.toJson.get? "tokens" = r.tokens?.map tokensToJson := by
  cases r <;>
    simp [toJson, Json.get?_object, List.lookup_cons, List.lookup_append, lookup_optionalMember,
      tokens?]

theorem get?_tokens_data (r : Report) :
    r.data.get? "tokens" = r.tokens?.map tokensToJson := by
  cases r <;>
    simp [data, Json.get?_object, List.lookup_cons, List.lookup_append, lookup_optionalMember,
      tokens?]

theorem sayTheSame_sortKeys {r : Report} (h : r.HasKeyedCurriculum) :
    SayTheSame r.toJson r.envelope.sortKeys r.data.sortKeys := by
  have hshown := (keyed_envelope h).get?_sortKeys
  have hfound := (keyed_data h).get?_sortKeys
  have htokens : (r.toJson.get? "tokens" = none ∧ r.data.sortKeys.get? "tokens" = none) ∨
      Shares r.toJson "tokens" r.data.sortKeys "tokens" := by
    cases htokens : r.tokens? with
    | none => exact .inl (by simp [hfound, get?_tokens_toJson, get?_tokens_data, htokens])
    | some tokens =>
      exact .inr (shares_sortKeys (keyed_data h) (by rw [get?_tokens_toJson, htokens]; rfl)
        (by rw [get?_tokens_data, htokens]; rfl))
  cases r with
  | lexicalFaults faults =>
    have hstatus : (lexicalFaults faults).toJson.get? "status" =
        some (.string "lexical_errors") := rfl
    exact {
      data := hshown "data"
      success := ⟨false, hshown "success", by simp [hstatus]⟩
      outcome := ⟨_, by simp, hstatus⟩
      faults := fun _ => shares_sortKeys (keyed_data h) rfl rfl
      curriculum := by simp [hstatus]
      message := by simp [hstatus]
      line := by simp [hstatus]
      tokens := htokens }
  | parsed tokens c =>
    have hstatus : (parsed tokens c).toJson.get? "status" = some (.string "parsed") := rfl
    exact {
      data := hshown "data"
      success := ⟨true, hshown "success", by simp [hstatus]⟩
      outcome := ⟨_, by simp, hstatus⟩
      faults := by simp [hstatus]
      curriculum := fun _ => by
        cases tokens <;> exact shares_sortKeys (keyed_data h) rfl rfl
      message := by simp [hstatus]
      line := by simp [hstatus]
      tokens := htokens }
  | syntaxError tokens message line =>
    have hstatus : (syntaxError tokens message line).toJson.get? "status" =
        some (.string "syntax_error") := rfl
    exact {
      data := hshown "data"
      success := ⟨false, hshown "success", by simp [hstatus]⟩
      outcome := ⟨_, by simp, hstatus⟩
      faults := by simp [hstatus]
      curriculum := by simp [hstatus]
      message := fun _ => ⟨message, by cases tokens <;> rfl, hfound "error"⟩
      line := fun _ => by
        cases line with
        | none => exact .inl ⟨by cases tokens <;> rfl, hfound "line"⟩
        | some n => exact .inr ⟨n, by cases tokens <;> rfl, hfound "line"⟩
      tokens := htokens }

/-- **A report says the same in its own form and in the form that is shown to a user, indented
or not.** -/
theorem forms_say_the_same {settings : Settings} {source : String} {report : Report}
    (h : (analyze settings source).result = .ok report) :
    ∃ own shown found,
      (∀ layout, Json.ofText? (report.toJson.render layout) = some own) ∧
      (∀ pretty, ∃ text, report.render .json pretty = .ok text ∧
        Json.ofText? text = some shown) ∧
      Keyed own ∧ Keyed shown ∧ SayTheSame own shown found := by
  have hkeyed := hasKeyedCurriculum_of_analyze h
  exact ⟨_, _, _, fun layout => Json.ofText?_render layout _,
    fun pretty => ⟨_, rfl, Json.ofText?_render _ _⟩,
    keyed_toJson hkeyed, (keyed_envelope hkeyed).sortKeys, sayTheSame_sortKeys hkeyed⟩

end Report

/-- A course 9 with a quotation mark in its name, before a course 10. -/
def countedDown : String :=
  "Semestre: 1 \x7bCurso: 9 \x7bNombre: 'a\"b';\x7d Curso: 10 \x7b\x7d\x7d"

/-- The codes of a plan that is found in a value, in the order in which they are listed. -/
def listedCodes (j : Json) : Option (List String) :=
  ((j.get? "pensum").bind fun plan => plan.get? "cursos").map Json.keys

theorem listedCodes_sortKeys {j : Json} (h : Keyed j) :
    listedCodes j.sortKeys =
      (listedCodes j).map fun codes => codes.mergeSort fun a b => decide (a ≤ b) := by
  rw [listedCodes, listedCodes, h.get?_sortKeys]
  cases hplan : j.get? "pensum" with
  | none => rfl
  | some plan =>
    rw [Option.map_some, Option.bind_some, Option.bind_some, (h.of_get? hplan).get?_sortKeys,
      Option.map_map, Option.map_map]
    exact Option.map_congr fun _ _ => Json.keys_sortKeys _

/-- Sorted by its characters, 10 is before 9. -/
theorem forms_say_the_same_countedDown :
    ∃ report own shown found, (analyze {} countedDown).result = .ok report ∧
      Json.ofText? (report.toJson.render .compact) = some own ∧
      (∃ text, report.render .json true = .ok text ∧ Json.ofText? text = some shown) ∧
      Report.SayTheSame own shown found ∧
      listedCodes own = some ["9", "10"] ∧ listedCodes found = some ["10", "9"] := by
  have hparsed : (analyze {} countedDown).result = .ok (.parsed (some (lex countedDown).tokens)
      (.ofEntries [.semester ⟨1, 1,
        [.ofDetails "9" 1 [.name "a\"b"], .ofDetails "10" 1 []]⟩])) := by
    decide +kernel
  obtain ⟨own, shown, found, hown, hshown, -, -, hsame⟩ := Report.forms_say_the_same hparsed
  -- what is read from the two texts is what they were written from
  obtain rfl := Option.some.inj ((hown .compact).symm.trans (Json.ofText?_render _ _))
  obtain ⟨text, htext, hread⟩ := hshown true
  obtain rfl := Except.ok.inj htext
  obtain rfl := Option.some.inj (hread.symm.trans (Json.ofText?_render _ _))
  have hfound := hsame.data
  rw [(Report.keyed_envelope (Report.hasKeyedCurriculum_of_analyze hparsed)).get?_sortKeys]
    at hfound
  obtain rfl := Option.some.inj hfound
  refine ⟨_, _, _, _, hparsed, hown .compact, ⟨_, rfl, hread⟩, hsame, by decide +kernel, ?_⟩
  rw [listedCodes_sortKeys (Report.keyed_data (Report.hasKeyedCurriculum_of_analyze hparsed)),
    (by decide +kernel : listedCodes (Report.data _) = some ["9", "10"])]
  simp [List.mergeSort]

end StudyPlan
