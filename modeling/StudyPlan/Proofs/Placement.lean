import StudyPlan.Proofs.Enclosure
import StudyPlan.Proofs.Resemblance
import StudyPlan.Proofs.RoundTrip

/-!
# Where tokens stand is of no consequence

A plan may be laid out in any way.  Two token lists that say the same, token by token, are
read as the same plan or given up for the same reason, whatever the lines and columns of their
tokens (`layout_is_free`).  The reading only carries lines along: those of the semesters to the
blocks of the plan, and that of a token in a wrong place to the message.

## Which line is carried where

That the runs of a parser on two such lists go side by side is known from
`Proofs.Resemblance`.  It tells that a line in the one result and a line in the other are those
of two tokens with the same number, but not which number this is.  To find it out, a third run
is put beside the two, on tokens whose lines are their numbers (`numbered`).  Its lines name the
tokens that head the semesters, and they name them for every layout at once.

## Semesters in order

The blocks of a plan come from different places in its grammar, inside programs and outside.  Yet
all of them are met in the order of the tokens: the semesters of a plan are one run, once
everything else is passed over (`EntriesOf.semesters`).
-/

namespace StudyPlan

open StudyPlan.Derivation

/-! ## Semesters of a plan -/

namespace Derivation

variable {α : Type} {Part : List Token → α → List Token → Prop} {Passed : Token → Prop}
  {ts rest : List Token}

theorem Run.weaken {Passed' : Token → Prop} (hpassed : ∀ t, Passed t → Passed' t)
    {as : List α} (h : Run Part Passed ts as rest) : Run Part Passed' ts as rest := by
  induction h with
  | stop => exact .stop _
  | pass ht hp _ ih => exact .pass ht (hpassed _ hp) ih
  | part ha _ ih => exact .part ha ih

/-- Each part of a run begins somewhere in its tokens. -/
theorem Run.exists_part (hheaded : Headed Part) {as : List α} (h : Run Part Passed ts as rest) :
    ∀ a ∈ as, ∃ us mid, us <:+ ts ∧ Part us a mid := by
  induction h with
  | stop => nofun
  | pass _ _ _ ih =>
    intro a ha
    obtain ⟨us, mid, hus, hpart⟩ := ih a ha
    exact ⟨us, mid, hus.trans (List.suffix_cons _ _), hpart⟩
  | @part ts mid b as rest hb _ ih =>
    intro a ha
    rcases List.mem_cons.1 ha with rfl | ha
    · exact ⟨ts, mid, List.suffix_rfl, hb⟩
    · obtain ⟨us, mid', hus, hpart⟩ := ih a ha
      obtain ⟨t, ts', rfl, -, hmid⟩ := hheaded hb
      exact ⟨us, mid', (hus.trans hmid).trans (List.suffix_cons _ _), hpart⟩

/-- Where any token may be passed, so may one of a construct. -/
theorem Run.skip {t : Token} {k : Kind} {as : List α} (ht : t.kind = k) (hk : k ≠ .finish)
    (h : Run Part (fun _ => True) ts as rest) : Run Part (fun _ => True) (t :: ts) as rest :=
  .pass (isFinish_eq_false ht hk) trivial h

/-- So may the token that closes a run. -/
theorem Run.skip_closing {closing : Token} {k : Kind} {as : List α} (hc : closing.kind = k)
    (hk : k ≠ .finish) (h : Run Part (fun _ => True) ts as (closing :: rest)) :
    Run Part (fun _ => True) ts as rest := by
  have hclosed := h.append (.skip hc hk (.stop rest))
  rwa [List.append_nil] at hclosed

/-- Semesters, and any tokens that are in no semester. -/
abbrev AmongSemesters : List Token → List Semester → List Token → Prop :=
  Run SemesterOf fun _ => True

theorem ProgramOf.semesters {p : Program} (h : ProgramOf ts p rest) :
    AmongSemesters ts p.semesters rest := by
  cases h with
  | bare hw hcolon ht _ =>
    exact .skip hw nofun (.skip hcolon nofun (.skip ht nofun (Run.stop _)))
  | closed hw hcolon ht ho hrun hc =>
    have hinner := (hrun.weaken fun _ _ => trivial).skip_closing hc nofun
    exact .skip hw nofun (.skip hcolon nofun (.skip ht nofun (.skip ho nofun hinner)))
  | cut hw hcolon ht ho hrun _ =>
    have hinner := hrun.weaken fun _ _ => trivial
    exact .skip hw nofun (.skip hcolon nofun (.skip ht nofun (.skip ho nofun hinner)))

/-- **The semesters of a plan are met in the order of its tokens,** inside programs or not. -/
theorem EntriesOf.semesters {es : List Entry} (h : EntriesOf ts es rest) :
    AmongSemesters ts (es.flatMap Entry.semesters) rest := by
  induction h with
  | stop => exact Run.stop _
  | pass ht _ _ ih => exact Run.pass ht trivial ih
  | part he _ ih =>
    rw [List.flatMap_cons]
    refine Run.append ?_ ih
    cases he with
    | program hp => exact hp.semesters
    | semester hs => exact Run.part hs (.stop _)

/-- A semester begins with its word, a colon and its number. -/
theorem SemesterOf.exists_head {s : Semester} (h : SemesterOf ts s rest) :
    ∃ w colon number inner, ts = w :: colon :: number :: inner ∧ rest <:+ inner ∧
      w.kind = .keyword .semestre ∧ w.line = s.line ∧ colon.kind = .delimiter .colon ∧
      Writes number s.number := by
  obtain ⟨hw, hcolon, hnumber, _, hcourses, _⟩ := h
  refine ⟨_, _, _, _, rfl, ?_, hw, rfl, hcolon, hnumber⟩
  exact (hcourses.suffix_of_closed (headed_courseOf _)).trans (List.suffix_cons _ _)

/-- The lines of semesters are those of tokens, in the same order. -/
theorem AmongSemesters.lines_sublist {ss : List Semester} (h : AmongSemesters ts ss rest) :
    (ss.map Semester.line).Sublist (ts.map Token.line) := by
  induction h with
  | stop => exact List.nil_sublist _
  | pass _ _ _ ih => exact ih.cons _
  | part hs _ ih =>
    obtain ⟨w, colon, number, inner, rfl, hrest, -, hline, -, -⟩ := hs.exists_head
    rw [List.map_cons, List.map_cons, hline]
    refine List.Sublist.cons_cons _ (ih.trans (List.Sublist.map _ ?_))
    exact hrest.sublist.trans ((List.sublist_cons_self _ _).trans (List.sublist_cons_self _ _))

end Derivation

/-! ## Numbered tokens -/

/-- The tokens, each on a line that is its number. -/
def numbered (ts : List Token) : List Token :=
  ts.mapIdx fun k t => { t with line := k }

theorem map_said_numbered (ts : List Token) :
    (numbered ts).map Token.said = ts.map Token.said := by
  refine List.ext_getElem? fun k => ?_
  rw [numbered, List.getElem?_map, List.getElem?_mapIdx, List.getElem?_map, Option.map_map]
  rfl

theorem line_of_getElem?_numbered {ts : List Token} {k : Nat} {t : Token}
    (h : (numbered ts)[k]? = some t) : t.line = k := by
  rw [numbered, List.getElem?_mapIdx, Option.map_eq_some_iff] at h
  obtain ⟨_, -, rfl⟩ := h
  rfl

theorem pairwise_line_numbered (ts : List Token) :
    ((numbered ts).map Token.line).Pairwise (· < ·) := by
  have hrange : (numbered ts).map Token.line = List.range ts.length := by
    refine List.ext_getElem (by simp [numbered]) fun k _ _ => ?_
    simp [numbered]
  rw [hrange]
  exact List.pairwise_lt_range

/-! ## Tokens with the same number -/

/-- The tokens have the same number in the two lists, and they say the same. -/
def SamePlace (ts ts' : List Token) (t t' : Token) : Prop :=
  t.said = t'.said ∧ ∃ k : Nat, ts[k]? = some t ∧ ts'[k]? = some t'

theorem interchangeable_samePlace (ts ts' : List Token) :
    Interchangeable (SamePlace ts ts') where
  kind h := congrArg Prod.fst h.1
  text h _ := congrArg Prod.snd h.1
  word h := sameWord_iff.2 (congrArg (fun said => said.2.toList.map Char.toLower) h.1)

section

variable {ts ts' : List Token} (hsaid : ts.map Token.said = ts'.map Token.said)

include hsaid

theorem exists_getElem?_of_said {k : Nat} {t : Token} (h : ts[k]? = some t) :
    ∃ t', ts'[k]? = some t' ∧ t.said = t'.said := by
  have hk : (ts'.map Token.said)[k]? = some t.said := by
    rw [← hsaid, List.getElem?_map, h]
    rfl
  rw [List.getElem?_map, Option.map_eq_some_iff] at hk
  obtain ⟨t', ht', hsame⟩ := hk
  exact ⟨t', ht', hsame.symm⟩

theorem forall₂_samePlace : List.Forall₂ (SamePlace ts ts') ts ts' := by
  have hlength : ts.length = ts'.length := by simpa using congrArg List.length hsaid
  refine List.forall₂_iff_get.2 ⟨hlength, fun k hk hk' => ?_⟩
  have ht := List.getElem?_eq_getElem hk
  obtain ⟨t', ht', hsame⟩ := exists_getElem?_of_said hsaid ht
  obtain rfl := Option.some.inj ((List.getElem?_eq_getElem hk').symm.trans ht')
  exact ⟨hsame, k, ht, ht'⟩

end

/-! ## Blocks and the tokens that head them -/

/-- The block is that of a semester whose word has the number `k`: the word stands on the line of
the block, and behind it stand a colon and the number of the block. -/
def Block.StandsAt (ts : List Token) (k : Nat) (b : Block) : Prop :=
  ∃ w colon number, ts[k]? = some w ∧ ts[k + 1]? = some colon ∧ ts[k + 2]? = some number ∧
    w.kind = .keyword .semestre ∧ w.line = b.line ∧ colon.kind = .delimiter .colon ∧
    Writes number b.number

theorem writes_congr {t t' : Token} (h : t.said = t'.said) {n : UInt32} (hn : Writes t n) :
    Writes t' n := by
  obtain ⟨hkind, htext⟩ := Prod.mk.inj h
  rwa [Writes, ← hkind, ← htext]

/-- In a list that says the same, the same tokens head a block of the same number, and it has the
line of its word there. -/
theorem Block.StandsAt.of_said {ts ts' : List Token}
    (hsaid : ts.map Token.said = ts'.map Token.said) {k : Nat} {b b' : Block}
    (h : b.StandsAt ts k) (hnumber : b.number = b'.number)
    (hline : ∀ w', ts'[k]? = some w' → w'.line = b'.line) : b'.StandsAt ts' k := by
  obtain ⟨w, colon, number, hw, hcolon, hn, hkind, -, hcolonKind, hwrites⟩ := h
  obtain ⟨w', hw', hwsaid⟩ := exists_getElem?_of_said hsaid hw
  obtain ⟨colon', hcolon', hcolonSaid⟩ := exists_getElem?_of_said hsaid hcolon
  obtain ⟨number', hn', hnsaid⟩ := exists_getElem?_of_said hsaid hn
  refine ⟨w', colon', number', hw', hcolon', hn', ?_, hline w' hw', ?_, ?_⟩
  · exact (congrArg Prod.fst hwsaid).symm.trans hkind
  · exact (congrArg Prod.fst hcolonSaid).symm.trans hcolonKind
  · exact hnumber ▸ writes_congr hnsaid hwrites

/-- Among numbered tokens the lines of semesters are the numbers of their words. -/
theorem standsAt_numbered {ts rest : List Token} {ss : List Semester}
    (h : AmongSemesters (numbered ts) ss rest) :
    ∀ s ∈ ss, s.block.StandsAt (numbered ts) s.line := by
  intro s hs
  obtain ⟨us, mid, ⟨before, hbefore⟩, hsemester⟩ := Run.exists_part headed_semesterOf h s hs
  obtain ⟨w, colon, number, inner, rfl, -, hkind, hline, hcolon, hnumber⟩ := hsemester.exists_head
  have hw : (numbered ts)[before.length]? = some w := by
    rw [← hbefore]
    simp
  have hplace : before.length = s.line := (line_of_getElem?_numbered hw).symm.trans hline
  rw [← hplace, ← hbefore]
  refine ⟨w, colon, number, ?_, ?_, ?_, hkind, hline, hcolon, hnumber⟩
  · simp
  · simp
  · simp

/-! ## Two layouts -/

theorem map_eq_map_of_forall₂ {α β γ : Type} {P : α → β → Prop} {f : α → γ} {g : β → γ}
    {as : List α} {bs : List β} (h : List.Forall₂ P as bs) (hfg : ∀ a b, P a b → f a = g b) :
    as.map f = bs.map g := by
  rw [← List.forall₂_eq_eq_eq, List.forall₂_map_left_iff, List.forall₂_map_right_iff]
  exact h.imp hfg

section

variable {R : Token → Token → Prop}

theorem Semester.Resembles.unplaced {s s' : Semester} (h : s.Resembles R s') :
    s.unplaced = s'.unplaced := by
  rw [Semester.unplaced, Semester.unplaced, h.number, h.courses]

/-- Entries that resemble each other are the same but for their lines. -/
theorem Entry.Resembles.unplaced {e e' : Entry} (h : e.Resembles R e') :
    e.unplaced = e'.unplaced := by
  cases h with
  | semester hs => exact congrArg Entry.semester hs.unplaced
  | program hp =>
    rw [Entry.unplaced, Entry.unplaced, hp.title,
      map_eq_map_of_forall₂ hp.semesters fun _ _ hs => hs.unplaced]

theorem Entry.Resembles.semesters {e e' : Entry} (h : e.Resembles R e') :
    List.Forall₂ (Semester.Resembles R) e.semesters e'.semesters := by
  cases h with
  | semester hs => exact .cons hs .nil
  | program hp => exact hp.semesters

end

/-- What two readings of tokens that say the same have in common.  Both give a plan, with the
same tokens heading the blocks of both, and nothing but the lines of the blocks may differ.  Or
both are given up for the same reason, and if a token is to blame, it has the same number. -/
inductive Curriculum.SameReading (ts ts' : List Token) (heads : List Nat) :
    Except SyntaxError Curriculum → Except SyntaxError Curriculum → Prop
  | read {c c' : Curriculum} :
      c.unplaced = c'.unplaced → List.Forall₂ (Block.StandsAt ts) heads c.blocks →
        List.Forall₂ (Block.StandsAt ts') heads c'.blocks →
        SameReading ts ts' heads (.ok c) (.ok c')
  | refused {e e' : SyntaxError} :
      e.Resembles (SamePlace ts ts') e' → SameReading ts ts' heads (.error e) (.error e')

/-- The numbers of the tokens that head the blocks of a plan, if these tokens are one. -/
def heads (ts : List Token) : List Nat :=
  match (Curriculum.ofTokens (numbered ts)).result with
  | .ok c => c.blocks.map Block.line
  | .error _ => []

theorem heads_of_entries {ts rest : List Token} {es : List Entry}
    (h : (Parser.entries (numbered ts)).result = .ok (es, rest)) :
    heads ts = (es.flatMap Entry.semesters).map Semester.line := by
  rw [heads, result_ofTokens_eq_ok_iff.2 ⟨_, _, h, rfl⟩]
  dsimp only
  rw [Curriculum.blocks_ofEntries, List.map_map]
  rfl

theorem pairwise_heads (ts : List Token) : (heads ts).Pairwise (· < ·) := by
  cases h : (Parser.entries (numbered ts)).result with
  | error e =>
    rw [heads, result_ofTokens_eq_error_iff.2 h]
    exact .nil
  | ok read =>
    rw [heads_of_entries h]
    have hsemesters := (Parser.result_entries_eq_ok_iff.1 h).1.semesters
    exact (pairwise_line_numbered ts).sublist hsemesters.lines_sublist

/-- The blocks of every layout are headed by the same tokens. -/
theorem forall₂_standsAt_heads {ts ts' rest' : List Token} {es' : List Entry}
    (hsaid : ts.map Token.said = ts'.map Token.said)
    (h : (Parser.entries ts').result = .ok (es', rest')) :
    List.Forall₂ (Block.StandsAt ts') (heads ts) (Curriculum.ofEntries es').blocks := by
  have hnumbered := (map_said_numbered ts).trans hsaid
  have hparallel := Parser.respects_entries (interchangeable_samePlace (numbered ts) ts') _ _
    (forall₂_samePlace hnumbered)
  rw [h] at hparallel
  generalize hr : (Parser.entries (numbered ts)).result = r at hparallel
  cases hparallel with
  | read hes _ =>
    have hstand := standsAt_numbered (Parser.result_entries_eq_ok_iff.1 hr).1.semesters
    rw [heads_of_entries hr, Curriculum.blocks_ofEntries, List.forall₂_map_left_iff,
      List.forall₂_map_right_iff]
    refine ((List.forall₂_and_left _ _).2
      ⟨hstand, forall₂_flatMap hes fun _ _ h => h.semesters⟩).imp ?_
    rintro s s' ⟨hs, hresembles⟩
    refine hs.of_said hnumbered hresembles.number fun w' hw' => ?_
    -- the two lines are those of the tokens with the number `s.line`
    obtain ⟨t, t', ⟨-, k, hk, hk'⟩, hline, hline'⟩ := hresembles.line
    obtain rfl : k = s.line := (line_of_getElem?_numbered hk).symm.trans hline
    obtain rfl := Option.some.inj (hw'.symm.trans hk')
    exact hline'

/-- **Layout is free.**  Tokens that say the same are read as the same plan, whatever lines and
columns they have, or are given up for the same reason.  Only the lines of the blocks are taken
from the tokens: they are the lines of the words that head the semesters, and which words these
are does not depend on the layout either. -/
theorem layout_is_free (ts : List Token) :
    ∃ heads : List Nat, heads.Pairwise (· < ·) ∧
      ∀ ts', ts.map Token.said = ts'.map Token.said →
        Curriculum.SameReading ts ts' heads (Curriculum.ofTokens ts).result
          (Curriculum.ofTokens ts').result := by
  refine ⟨heads ts, pairwise_heads ts, fun ts' hsaid => ?_⟩
  have hparallel := Parser.respects_entries (interchangeable_samePlace ts ts') _ _
    (forall₂_samePlace hsaid)
  generalize hr : (Parser.entries ts).result = r at hparallel
  generalize hr' : (Parser.entries ts').result = r' at hparallel
  cases hparallel with
  | read hes _ =>
    rw [result_ofTokens_eq_ok_iff.2 ⟨_, _, hr, rfl⟩, result_ofTokens_eq_ok_iff.2 ⟨_, _, hr', rfl⟩]
    refine .read ?_ (forall₂_standsAt_heads rfl hr) (forall₂_standsAt_heads hsaid hr')
    rw [Curriculum.unplaced_ofEntries, Curriculum.unplaced_ofEntries,
      map_eq_map_of_forall₂ hes fun _ _ h => h.unplaced]
  | fail he =>
    rw [result_ofTokens_eq_error_iff.2 hr, result_ofTokens_eq_error_iff.2 hr']
    exact .refused he

/-- A program and a semester on one line, with a course that gives another code than its own. -/
def oneLine : List Token :=
  let source :=
    "Carrera: 'X' [Semestre: 1 \x7bCurso: 7 \x7bCodigo: '8';\x7d\x7d] Semestre: 2 \x7b\x7d"
  (lex source).tokens

/-- The same tokens, each on a line of its own, from the last line to the first. -/
def upsideDown : List Token :=
  oneLine.map fun t => { t with line := 100 - t.column, column := 1 }

theorem layout_is_free_upsideDown :
    oneLine.map Token.said = upsideDown.map Token.said ∧
      (∃ heads : List Nat, heads.Pairwise (· < ·) ∧
        Curriculum.SameReading oneLine upsideDown heads (Curriculum.ofTokens oneLine).result
          (Curriculum.ofTokens upsideDown).result) ∧
      (Curriculum.ofTokens oneLine).result.toOption.map (·.blocks) =
        some [⟨1, 1⟩, ⟨2, 1⟩] ∧
      (Curriculum.ofTokens upsideDown).result.toOption.map (·.blocks) =
        some [⟨1, 85⟩, ⟨2, 46⟩] := by
  have hsaid : oneLine.map Token.said = upsideDown.map Token.said := by decide +kernel
  obtain ⟨heads, hpairwise, hsame⟩ := layout_is_free oneLine
  exact ⟨hsaid, ⟨heads, hpairwise, hsame _ hsaid⟩, by decide +kernel, by decide +kernel⟩

end StudyPlan
