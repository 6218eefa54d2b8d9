import StudyPlan.Proofs.Decoding
import StudyPlan.Proofs.Members
import StudyPlan.Report.Json

/-!
# What the JSON text of a curriculum discloses

The text of a curriculum shows its title, its semesters with their courses, the course
of each code and the blocks.  It shows all of that and nothing else: two curricula have
the same text exactly when they agree in these four things (`text_discloses_contents`).

## How far the text goes

A value has one text and a text one value (`Json.render_injective`), so it is enough to
find every part of a curriculum in its value.  Lists and numbers are there as they are.  Of
a course, three things may be unknown, and then their members are left out.  So whether a
thing is known is seen from its key, and a thing that is known to be empty has its key as
well (`Course.toJson_injective`).

The two indices and the store are not shown as such.  Courses that no list and no code
leads to leave no trace.
-/

namespace StudyPlan

theorem lookup_optionalMember (key key' : String) (value : Option Json) :
    (optionalMember key value).lookup key' = if key' = key then value else none := by
  cases value with
  | none => simp [optionalMember]
  | some j =>
    by_cases h : key' = key
    · simp [optionalMember, h]
    · simp [optionalMember, List.lookup_cons, h, beq_eq_false_iff_ne.2 h]

theorem Json.string_injective : Function.Injective Json.string := fun _ _ => Json.string.inj

/-- Different courses have different values. -/
theorem Course.toJson_injective : Function.Injective Course.toJson := by
  intro c c' h
  have hmember : ∀ key, c.toJson.get? key = c'.toJson.get? key := fun key => by rw [h]
  simp only [toJson, Json.get?_object, List.lookup_append, lookup_optionalMember] at hmember
  have hcode : c.code = c'.code := by simpa using hmember "codigo"
  have hname : c.name = c'.name := by simpa [List.lookup_cons] using hmember "nombre"
  have hcredits : c.credits = c'.credits := by
    simpa [List.lookup_cons, UInt32.toNat_inj] using hmember "creditos"
  have hsemester : c.semester = c'.semester := by
    simpa [List.lookup_cons, UInt32.toNat_inj] using hmember "semestre"
  have hprerequisites : c.prerequisites = c'.prerequisites := by
    simpa [List.lookup_cons, (List.map_injective_iff.2 Json.string_injective).eq_iff]
      using hmember "prerrequisitos"
  -- of the rest it shows whether it is known
  have hdescription : c.description = c'.description := by
    simpa [List.lookup_cons, (Option.map_injective Json.string_injective).eq_iff]
      using hmember "descripcion"
  have harea : c.area = c'.area := by
    simpa [List.lookup_cons, (Option.map_injective Json.string_injective).eq_iff]
      using hmember "area"
  have hmandatory : c.mandatory = c'.mandatory := by
    simpa [List.lookup_cons, (Option.map_injective fun _ _ => Json.bool.inj).eq_iff]
      using hmember "obligatorio"
  cases c
  cases c'
  simp_all

/-! ## Curricula -/

namespace Curriculum

/-- What is shown of a semester is its number and its courses. -/
theorem semesterToJson_injective : Function.Injective fun e : UInt32 × List Course =>
    Json.object [("numero", .number e.1.toNat), ("cursos", .array (e.2.map Course.toJson))] := by
  intro e e' h
  have hcourses := (List.map_injective_iff.2 Course.toJson_injective).eq_iff (a := e.2) (b := e'.2)
  simpa [UInt32.toNat_inj, hcourses, Prod.ext_iff] using h

theorem codeToJson_injective : Function.Injective fun e : String × Course =>
    (e.1, e.2.toJson) := by
  intro e e' h
  simpa [Course.toJson_injective.eq_iff, Prod.ext_iff] using h

theorem blockToJson_injective : Function.Injective fun b : Block =>
    Json.object [("numero", .number b.number.toNat), ("line", .number b.line)] := by
  intro b b' h
  cases b
  cases b'
  simpa [UInt32.toNat_inj] using h

/-- **The text of a curriculum shows its title, its semesters, its codes and its blocks, and
nothing else.** -/
theorem text_discloses_contents (l : Json.Layout) (c c' : Curriculum) :
    c.toJson.render l = c'.toJson.render l ↔
      c.title = c'.title ∧ c.coursesBySemester = c'.coursesBySemester ∧
        c.coursesByCode = c'.coursesByCode ∧ c.blocks = c'.blocks := by
  rw [(Json.render_injective l).eq_iff, toJson, toJson]
  have hsemesters := (List.map_injective_iff.2 semesterToJson_injective).eq_iff
    (a := c.coursesBySemester) (b := c'.coursesBySemester)
  have hcodes := (List.map_injective_iff.2 codeToJson_injective).eq_iff
    (a := c.coursesByCode) (b := c'.coursesByCode)
  have hblocks := (List.map_injective_iff.2 blockToJson_injective).eq_iff
    (a := c.blocks) (b := c'.blocks)
  simp [hsemesters, hcodes, hblocks]

end Curriculum
end StudyPlan
