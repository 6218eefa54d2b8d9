import Mathlib.Algebra.GroupWithZero.Nat
import StudyPlan.Proofs.Consistency
import StudyPlan.Proofs.Narration
import StudyPlan.Proofs.Respelling
import StudyPlan.Proofs.Verdict
import StudyPlan.Report.Rendering

/-!
# What can be read off a printed report

Two of the three formats are made for people.  One may ask of both whether they say what is
true: of the summary, that its sums are the sums, and of the token list, that its lines are the
tokens.  Each does so with one reservation.

## 1.  The summary

The credits of a semester are any number of 32-bit numbers, and their sum is printed only if it
fits into 32 bits as well.  That each of them fits says nothing about the sum.  So a summary is
refused for a plan with a semester of more credits (`Report.Overfull`), and for no other reason;
what is printed is the exact sum (`Curriculum.exactSummary`).  The other two formats add nothing
up and are never refused.

## 2.  The token list

The text of a token is printed as it is.  Only a quoted text can hold a newline, and if one does,
its token takes up as many more lines as it has newlines.  Then the list cannot be read back:
two sources with different tokens may have the same list (`listing_smuggledNumber`).  Where no
quoted text holds a newline, each line is that of a token, and `readListing?` finds all tokens
again, since neither a number nor the name of a kind holds the mark behind it.
-/

namespace StudyPlan

open Curriculum (History ofHistory)

/-! ## Reports of sources -/

/-- A report lists the tokens of its source if it was asked to and the source has no faults. -/
theorem tokens?_of_analyze {settings : Settings} {source : String} {report : Report}
    (h : (analyze settings source).result = .ok report) :
    (∃ faults, report = .lexicalFaults faults) ∨
      report.tokens? = if settings.includeTokens then some (lex source).tokens else none :=
  Report.tokens?_of_ofOutcome? (analyze_eq_ok_iff.1 h).2

/-- The curriculum of a source has a history. -/
theorem exists_history_of_parsed {settings : Settings} {source : String}
    {tokens? : Option (List Token)} {c : Curriculum}
    (h : (analyze settings source).result = .ok (.parsed tokens? c)) :
    ∃ steps : History, c = ofHistory steps := by
  obtain ⟨log, hread, -⟩ := log_analyze_of_parsed h
  obtain ⟨es, -, -, rfl⟩ := result_ofTokens_eq_ok_iff.1 (congrArg Logged.result hread)
  exact ⟨_, Curriculum.ofEntries_eq_ofHistory es⟩

/-! ## 1.  The summary -/

/-- The credits of some courses together, however many they are. -/
def creditSum (courses : List Course) : Nat :=
  (courses.map fun x => x.credits.toNat).sum

/-- The credits of a semester together. -/
def Curriculum.creditsOf (c : Curriculum) (number : UInt32) : Nat :=
  creditSum ((c.semester? number).getD [])

/-- The summary of a curriculum when every sum is printed as it is. -/
def Curriculum.exactSummary (c : Curriculum) : List String :=
  s!"Carrera: {c.title}" ::
    s!"{c.semesterCount} semester(s), {c.courseCount} course(s)" ::
    c.semesterNumbers.flatMap fun n =>
      s!"Semestre {n.toNat} ({c.creditsOf n} creditos)" ::
        ((c.semester? n).getD []).map fun x => s!"  {x.code} {x.name}"

/-- The report is that of a plan with a semester whose credits do not fit into 32 bits. -/
def Report.Overfull : Report → Prop
  | parsed _ c => ∃ n ∈ c.semesterNumbers, UInt32.size ≤ c.creditsOf n
  | lexicalFaults _ | syntaxError _ _ _ => False

/-- Does a sum of credits fit into 32 bits? -/
def sumFits (sum : Nat) : Bool :=
  sum < UInt32.size

/-- Do those of every semester? -/
def Curriculum.sumsFit (c : Curriculum) : Bool :=
  c.semesterNumbers.all fun n => sumFits (c.creditsOf n)

theorem not_overfull_iff {report : Report} :
    ¬ report.Overfull ↔ ∀ c ∈ report.curriculum?, c.sumsFit = true := by
  cases report with
  | lexicalFaults | syntaxError => simp [Report.Overfull, Report.curriculum?]
  | parsed => simp [Report.Overfull, Report.curriculum?, Curriculum.sumsFit, sumFits]

theorem totalCredits_eq (courses : List Course) :
    totalCredits courses =
      if sumFits (creditSum courses) then .ok (creditSum courses) else .error .credits := by
  have hsum : courses.foldl (fun n x => n + x.credits.toNat) 0 = creditSum courses := by
    rw [creditSum, List.sum_eq_foldl, List.foldl_map]
  rw [totalCredits, hsum, sumFits]
  by_cases hfits : creditSum courses < UInt32.size
  · rw [if_pos hfits, if_pos (decide_eq_true hfits)]
  · rw [if_neg hfits, if_neg (by simpa using hfits)]

theorem semesterLines_eq (n : UInt32) (courses : List Course) :
    semesterLines n courses =
      if sumFits (creditSum courses) then
        .ok (s!"Semestre {n.toNat} ({creditSum courses} creditos)" ::
          courses.map fun x => s!"  {x.code} {x.name}")
      else .error .credits := by
  rw [semesterLines, totalCredits_eq]
  split <;> rfl

/-- Where only one thing can go wrong, all goes well if it goes wrong nowhere. -/
theorem mapM_eq_of_guarded {α β ε : Type} {f : α → Except ε β} {p : α → Bool} {g : α → β} {e : ε}
    (hf : ∀ a, f a = if p a then .ok (g a) else .error e) (as : List α) :
    as.mapM f = if as.all p then .ok (as.map g) else .error e := by
  induction as with
  | nil => rfl
  | cons a as ih =>
    rw [List.mapM_cons, hf, ih, List.all_cons]
    cases p a <;> cases as.all p <;> rfl

/-- A curriculum has its exact summary, or none because of a semester with too many credits. -/
theorem summaryLines_ofHistory (h : History) :
    (ofHistory h).summaryLines =
      if (ofHistory h).sumsFit then .ok (ofHistory h).exactSummary else .error .credits := by
  have hlines : (ofHistory h).summaryLines = (do
      let semesters ← (ofHistory h).semesterNumbers.mapM fun n =>
        semesterLines n (((ofHistory h).semester? n).getD [])
      return s!"Carrera: {(ofHistory h).title}" ::
        s!"{(ofHistory h).semesterCount} semester(s), {(ofHistory h).courseCount} course(s)" ::
        semesters.flatten) := by
    rw [Curriculum.summaryLines, Curriculum.coursesBySemester_ofHistory, List.mapM_map]
    rfl
  rw [hlines, mapM_eq_of_guarded fun n => semesterLines_eq n _, Curriculum.exactSummary,
    List.flatMap_def, Curriculum.sumsFit]
  unfold Curriculum.creditsOf
  cases (ofHistory h).semesterNumbers.all _ <;> rfl

/-- The summary of a plan is the only text in which a sum occurs. -/
theorem summary_of_parsed {settings : Settings} {source : String}
    {tokens? : Option (List Token)} {c : Curriculum}
    (h : (analyze settings source).result = .ok (.parsed tokens? c)) :
    Report.summary (.parsed tokens? c) =
      if c.sumsFit then .ok (unlines c.exactSummary) else .error .credits := by
  obtain ⟨steps, rfl⟩ := exists_history_of_parsed h
  rw [Report.summary, summaryLines_ofHistory]
  split <;> rfl

/-- **A report is printed in every format, but for the summary of a plan with a semester whose
credits do not fit into 32 bits.**  The sums in a summary are exact. -/
theorem summary_has_true_totals {settings : Settings} {source : String} {report : Report}
    (h : (analyze settings source).result = .ok report) (format : Format) (pretty : Bool) :
    ((∃ text, report.render format pretty = .ok text) ↔
        ¬ (format = .summary ∧ report.Overfull)) ∧
      (∀ overflow, report.render format pretty = .error overflow → overflow = .credits) ∧
      ∀ tokens? c text, report = .parsed tokens? c → report.render .summary pretty = .ok text →
        text = unlines c.exactSummary := by
  refine ⟨?_, ?_, ?_⟩
  · cases format with
    | json => simp [Report.render]
    | tokens => cases report <;> simp [Report.render, Report.summary]
    | summary =>
      rw [not_and, not_overfull_iff, Report.render]
      cases report with
      | lexicalFaults | syntaxError => simp [Report.summary, Report.curriculum?]
      | parsed tokens? c =>
        rw [summary_of_parsed h]
        cases hfits : c.sumsFit <;> simp [Report.curriculum?, hfits]
  · intro overflow hover
    cases format with
    | json => cases hover
    | tokens => cases report <;> cases hover
    | summary =>
      cases report with
      | lexicalFaults | syntaxError => cases hover
      | parsed tokens? c =>
        rw [Report.render, summary_of_parsed h] at hover
        split at hover
        · cases hover
        · exact (Except.error.inj hover).symm
  · rintro tokens? c text rfl htext
    rw [Report.render, summary_of_parsed h] at htext
    split at htext
    · exact (Except.ok.inj htext).symm
    · cases htext

/-- Two blocks of one semester, with as many credits together as 32 bits can hold. -/
def fullSemester : String :=
  "Semestre: 1 \x7bCurso: 1 \x7bCreditos: 4294967294;\x7d\x7d\n" ++
    "Semestre: 1 \x7bCurso: 2 \x7bCreditos: 1;\x7d\x7d"

theorem summary_has_true_totals_fullSemester :
    ∃ report c text, (analyze {} fullSemester).result = .ok report ∧
      report.curriculum? = some c ∧ report.render .summary true = .ok text ∧
      text = unlines c.exactSummary ∧ c.exactSummary =
        ["Carrera: ", "1 semester(s), 2 course(s)", "Semestre 1 (4294967295 creditos)",
          "  1 ", "  2 "] := by
  have hparsed : (analyze {} fullSemester).result = .ok (.parsed (some (lex fullSemester).tokens)
      (.ofEntries [.semester ⟨1, 1, [.ofDetails "1" 1 [.credits 4294967294]]⟩,
        .semester ⟨1, 2, [.ofDetails "2" 1 [.credits 1]]⟩])) := by
    decide +kernel
  obtain ⟨hprinted, -, hexact⟩ := summary_has_true_totals hparsed .summary true
  have hfits : ∀ report, (analyze {} fullSemester).result = .ok report → ¬ report.Overfull := by
    rintro report hreport
    obtain rfl := Except.ok.inj (hparsed.symm.trans hreport)
    refine not_overfull_iff.2 ?_
    rintro c ⟨⟩
    decide +kernel
  obtain ⟨text, htext⟩ := hprinted.2 fun h => hfits _ hparsed h.2
  exact ⟨_, _, text, hparsed, rfl, htext, hexact _ _ _ rfl htext, by decide +kernel⟩

/-- One semester with one more credit than that. -/
def overfullSemester : String :=
  "Semestre: 1 \x7bCurso: 1 \x7bCreditos: 4294967295;\x7d Curso: 2 \x7bCreditos: 1;\x7d\x7d"

/-- The plan is parsed, and it is not summed up. -/
theorem summary_overfullSemester :
    ∃ report c, (analyze {} overfullSemester).result = .ok report ∧
      report.curriculum? = some c ∧ c.creditsOf 1 = 4294967296 ∧
      ¬ ∃ text, report.render .summary true = .ok text := by
  have hparsed : (analyze {} overfullSemester).result =
      .ok (.parsed (some (lex overfullSemester).tokens) (.ofEntries [.semester ⟨1, 1,
        [.ofDetails "1" 1 [.credits 4294967295], .ofDetails "2" 1 [.credits 1]]⟩])) := by
    decide +kernel
  refine ⟨_, _, hparsed, rfl, by decide +kernel, ?_⟩
  rintro ⟨text, htext⟩
  have hrefused : Except.isOk (Report.render (.parsed (some (lex overfullSemester).tokens)
      (.ofEntries [.semester ⟨1, 1,
        [.ofDetails "1" 1 [.credits 4294967295], .ofDetails "2" 1 [.credits 1]]⟩]))
      .summary true) = false := by
    decide +kernel
  simp [htext, Except.isOk, Except.toBool] at hrefused

/-! ## 2.  The token list

First the lines of a text, then the lines that one token takes up, and then a reader of them. -/

/-- The lines of a text are what stands between its newlines. -/
def linesOf (text : String) : List String :=
  (text.toList.splitOn '\n').map String.ofList

theorem linesOf_eq_singleton {text : String} (h : '\n' ∉ text.toList) : linesOf text = [text] := by
  rw [linesOf, List.splitOn_eq_singleton h, List.map_singleton, String.ofList_toList]

theorem linesOf_append_newline {text before behind : String}
    (h : text.toList = before.toList ++ '\n' :: behind.toList) :
    linesOf text = linesOf before ++ linesOf behind := by
  rw [linesOf, h, List.splitOn_append_cons_self, List.map_append]
  rfl

/-- A text has one line more than newlines. -/
theorem length_linesOf (text : String) :
    (linesOf text).length = text.toList.count '\n' + 1 := by
  rw [linesOf, List.length_map]
  induction text.toList with
  | nil => rfl
  | cons c cs ih =>
    rw [List.splitOn_cons_eq_if_modifyHead, List.count_cons]
    split <;> simp [ih]

/-- The lines of lines are their lines one after the other. -/
theorem linesOf_unlines {ls : List String} (h : ls ≠ []) :
    linesOf (unlines ls) = ls.flatMap linesOf := by
  induction ls with
  | nil => contradiction
  | cons l ls ih =>
    cases ls with
    | nil => simp [unlines, String.intercalate_singleton]
    | cons l' ls =>
      have hsplit : (unlines (l :: l' :: ls)).toList =
          l.toList ++ '\n' :: (unlines (l' :: ls)).toList := by
        simp [unlines, String.toList_intercalate]
      rw [linesOf_append_newline hsplit, ih (List.cons_ne_nil _ _)]
      rfl

theorem ofDigitChars_toString (n : Nat) : Nat.ofDigitChars 10 (toString n).toList 0 = n := by
  rw [Nat.toString_eq_repr, Nat.toList_repr, Nat.ofDigitChars_ten_toDigits]

/-- How many newlines the text of a token holds. -/
def Token.breaks (t : Token) : Nat :=
  t.text.toList.count '\n'

theorem Kind.mem_all (k : Kind) : k ∈ Kind.all := by
  rcases k with k | d | _ | _ | _ | _ | _
  · cases k <;> decide
  · cases d <;> decide
  all_goals decide

/-- The characters of the line of a token. -/
theorem Token.toList_listing (t : Token) :
    t.listing.toList = (toString t.line).toList ++ ':' :: ((toString t.column).toList ++
      '\t' :: (t.kind.name.toList ++ '\t' :: t.text.toList)) := by
  simp only [Token.listing, String.toList_append, List.append_assoc]
  rfl

/-- A number holds nothing but digits. -/
theorem notMem_toString (n : Nat) {mark : Char} (h : mark.isDigit = false) :
    mark ∉ (toString n).toList := by
  intro hmem
  have hdigit := (Layout.isCode_toString n).2 mark hmem
  simp [h] at hdigit

/-- A token takes up a line, and one more for each newline in its text. -/
theorem Token.length_linesOf_listing (t : Token) :
    (linesOf t.listing).length = t.breaks + 1 := by
  have hname : t.kind.name.toList.count '\n' = 0 :=
    (by decide : ∀ k ∈ Kind.all, k.name.toList.count '\n' = 0) _ t.kind.mem_all
  have hnumber : ∀ n : Nat, (toString n).toList.count '\n' = 0 := fun n =>
    List.count_eq_zero.2 (notMem_toString n (by decide))
  rw [length_linesOf, t.toList_listing, Token.breaks, List.count_append, hnumber,
    List.count_cons_of_ne (by decide), List.count_append, hnumber,
    List.count_cons_of_ne (by decide), List.count_append, hname,
    List.count_cons_of_ne (by decide)]
  omega

theorem Token.linesOf_listing {t : Token} (h : t.breaks = 0) : linesOf t.listing = [t.listing] := by
  have hlength := t.length_linesOf_listing
  rw [length_linesOf, h] at hlength
  exact linesOf_eq_singleton (List.count_eq_zero.1 (Nat.succ.inj hlength))

theorem length_flatMap_linesOf_listing (ts : List Token) :
    (ts.flatMap fun t => linesOf t.listing).length =
      ts.length + (ts.map Token.breaks).sum := by
  induction ts with
  | nil => rfl
  | cons t ts ih =>
    rw [List.flatMap_cons, List.length_append, t.length_linesOf_listing, ih, List.map_cons,
      List.sum_cons, List.length_cons]
    omega

/-- The list has a line for each token only if no text of a token holds a newline. -/
theorem flatMap_linesOf_listing_iff {ts : List Token} :
    ts.flatMap (fun t => linesOf t.listing) = ts.map Token.listing ↔ ∀ t ∈ ts, t.breaks = 0 := by
  constructor
  · intro h
    have hlength := congrArg List.length h
    rw [length_flatMap_linesOf_listing, List.length_map, Nat.add_eq_left,
      List.sum_eq_zero_iff_forall_eq_nat] at hlength
    exact List.forall_mem_map.1 hlength
  · intro h
    rw [List.map_eq_flatMap]
    exact List.flatMap_congr fun t ht => Token.linesOf_listing (h t ht)

/-- In a source only a quoted text can hold a newline. -/
theorem Spells.quoted_of_newline {k : Kind} {text lexeme : List Char} (h : Spells k text lexeme)
    (hmem : '\n' ∈ text) : k = .quoted := by
  cases h with
  | delimiter d => cases d <;> revert hmem <;> decide
  | number _ hdigits => exact absurd (hdigits _ hmem) (by decide)
  | word hc hcs =>
    rcases List.mem_cons.1 hmem with rfl | hmem
    · exact absurd hc (by decide)
    · exact absurd (hcs _ hmem) (by decide)
  | quoted => rfl

theorem breaks_eq_zero_iff_of_mem_lex {source : String} {t : Token}
    (ht : t ∈ (lex source).tokens) :
    t.breaks = 0 ↔ (t.kind = .quoted → '\n' ∉ t.text.toList) := by
  rw [Token.breaks, List.count_eq_zero]
  refine ⟨fun h _ => h, fun h hmem => ?_⟩
  cases hfinish : t.isFinish with
  | false =>
    obtain ⟨lexeme, hspells⟩ := exists_spells_of_mem_lex ht hfinish
    exact h (hspells.quoted_of_newline hmem) hmem
  | true =>
    obtain ⟨tokens, htokens, hnone, -⟩ := (Cut.explains_ofSegments source).tokens
    rw [htokens, List.mem_append, List.mem_singleton] at ht
    rcases ht with ht | rfl
    · rw [hnone t ht] at hfinish
      cases hfinish
    · cases hmem

/-! ### Reading the list -/

/-- What stands before the first `mark` and what stands behind it. -/
def splitAtMark (mark : Char) (cs : List Char) : Option (List Char × List Char) :=
  match cs.dropWhile (· ≠ mark) with
  | [] => none
  | _ :: behind => some (cs.takeWhile (· ≠ mark), behind)

theorem splitAtMark_append_cons {mark : Char} {cs : List Char} (h : mark ∉ cs)
    (behind : List Char) : splitAtMark mark (cs ++ mark :: behind) = some (cs, behind) := by
  have hne : ∀ c ∈ cs, decide (c ≠ mark) = true := by
    rintro c hc
    exact decide_eq_true fun heq => h (heq ▸ hc)
  rw [splitAtMark, List.dropWhile_append_of_pos hne, List.takeWhile_append_of_pos hne]
  simp

/-- The token that a line is about.  Only its text may hold the marks between its parts. -/
def Token.ofListing? (line : String) : Option Token := do
  let (row, cs) ← splitAtMark ':' line.toList
  let (column, cs) ← splitAtMark '\t' cs
  let (name, text) ← splitAtMark '\t' cs
  let kind ← Kind.all.find? fun k => k.name.toList = name
  return ⟨kind, String.ofList text, Nat.ofDigitChars 10 row 0, Nat.ofDigitChars 10 column 0⟩

/-- The tokens that a list is about, line by line. -/
def readListing? (text : String) : Option (List Token) :=
  (linesOf text).mapM Token.ofListing?

theorem Token.ofListing?_listing (t : Token) : Token.ofListing? t.listing = some t := by
  have hname : '\t' ∉ t.kind.name.toList :=
    (by decide : ∀ k ∈ Kind.all, '\t' ∉ k.name.toList) _ t.kind.mem_all
  have hfind : Kind.all.find? (fun k => k.name.toList = t.kind.name.toList) = some t.kind :=
    (by decide : ∀ k ∈ Kind.all, Kind.all.find? (fun k' => k'.name.toList = k.name.toList) = some k)
      _ t.kind.mem_all
  simp only [Token.ofListing?, t.toList_listing, Option.bind_eq_bind, Option.bind_some,
    splitAtMark_append_cons (notMem_toString t.line (by decide : ':'.isDigit = false)),
    splitAtMark_append_cons (notMem_toString t.column (by decide : '\t'.isDigit = false)),
    splitAtMark_append_cons hname, hfind, ofDigitChars_toString, String.ofList_toList]
  rfl

/-- **Where no quoted text holds a newline, the token list has one line for each token.**  Then,
and only then, are its lines those of the tokens, and all tokens can be read off them.  Any
newline in a quoted text is one line more. -/
theorem tokens_are_listed_by_line {settings : Settings} {source : String} {report : Report}
    (h : (analyze settings source).result = .ok report) (htokens : settings.includeTokens = true)
    (hclean : ∀ faults, report ≠ .lexicalFaults faults) (pretty : Bool) :
    ∃ text, report.render .tokens pretty = .ok text ∧
      (linesOf text).length =
        (lex source).tokens.length + ((lex source).tokens.map Token.breaks).sum ∧
      (linesOf text = (lex source).tokens.map
          (fun t => s!"{t.line}:{t.column}\t{t.kind.name}\t{t.text}") ↔
        ∀ t ∈ (lex source).tokens, t.kind = .quoted → '\n' ∉ t.text.toList) ∧
      ((∀ t ∈ (lex source).tokens, t.kind = .quoted → '\n' ∉ t.text.toList) →
        readListing? text = some (lex source).tokens) := by
  have hlisted : report.tokens? = some (lex source).tokens := by
    obtain ⟨faults, rfl⟩ | hlisted := tokens?_of_analyze h
    · exact absurd rfl (hclean faults)
    · rw [hlisted, if_pos htokens]
  have hrender : report.render .tokens pretty =
      .ok (unlines ((lex source).tokens.map Token.listing)) := by
    cases report with
    | lexicalFaults faults => exact absurd rfl (hclean faults)
    | parsed | syntaxError =>
      rw [Report.render, Report.tokenList, hlisted]
      · rfl
      · nofun
  -- there is always a token, the end of the source
  have hlines : linesOf (unlines ((lex source).tokens.map Token.listing)) =
      (lex source).tokens.flatMap fun t => linesOf t.listing := by
    obtain ⟨tokens, hne, -⟩ := (Cut.explains_ofSegments source).tokens
    rw [linesOf_unlines (by simp [hne]), List.flatMap_map]
  have hiff : (∀ t ∈ (lex source).tokens, t.breaks = 0) ↔
      ∀ t ∈ (lex source).tokens, t.kind = .quoted → '\n' ∉ t.text.toList :=
    forall₂_congr fun t ht => breaks_eq_zero_iff_of_mem_lex ht
  refine ⟨_, hrender, ?_, ?_, ?_⟩
  · rw [hlines, length_flatMap_linesOf_listing]
  · rw [hlines, ← hiff]
    exact flatMap_linesOf_listing_iff
  · intro hquoted
    have hread : Token.ofListing? ∘ Token.listing = fun t => pure (id t) :=
      funext Token.ofListing?_listing
    rw [readListing?, hlines, flatMap_linesOf_listing_iff.2 (hiff.2 hquoted), List.mapM_map,
      hread, List.mapM_pure, List.map_id]
    rfl

/-- A title with a tab in it. -/
def tabbedTitle : String :=
  "Carrera: 'A\tB' \x7b\x7d"

theorem tokens_are_listed_by_line_tabbedTitle :
    ∃ report text, (analyze {} tabbedTitle).result = .ok report ∧
      report.render .tokens true = .ok text ∧ (linesOf text).length = 6 ∧
      readListing? text = some (lex tabbedTitle).tokens := by
  have hparsed : (analyze {} tabbedTitle).result =
      .ok (.parsed (some (lex tabbedTitle).tokens) (.ofEntries [.program ⟨"A\tB", []⟩])) := by
    decide +kernel
  obtain ⟨text, htext, hlines, -, hread⟩ :=
    tokens_are_listed_by_line hparsed rfl (by nofun) true
  have hcount : (lex tabbedTitle).tokens.length + ((lex tabbedTitle).tokens.map Token.breaks).sum =
      6 := by
    decide +kernel
  exact ⟨_, text, hparsed, htext, hlines.trans hcount, hread (by decide +kernel)⟩

/-- A quoted text in which the rest of its line and the line of a number follow each other. -/
def smuggledNumber : String :=
  "'a\n2:1\tNUMERO\t7'"

/-- That number. -/
def honestNumber : String :=
  "'a'\n7            "

/-- A list cannot be read back, and has more lines than tokens, where a quoted text holds a
newline. -/
theorem listing_smuggledNumber :
    ∃ report report' text, (analyze {} smuggledNumber).result = .ok report ∧
      (analyze {} honestNumber).result = .ok report' ∧
      (lex smuggledNumber).tokens ≠ (lex honestNumber).tokens ∧
      report.render .tokens true = .ok text ∧ report'.render .tokens true = .ok text ∧
      (lex smuggledNumber).tokens.length = 2 ∧ (linesOf text).length = 3 := by
  have hparsed : (analyze {} smuggledNumber).result =
      .ok (.parsed (some (lex smuggledNumber).tokens) (.ofEntries [])) := by
    decide +kernel
  have hparsed' : (analyze {} honestNumber).result =
      .ok (.parsed (some (lex honestNumber).tokens) (.ofEntries [])) := by
    decide +kernel
  have hsame : Report.tokenList (.parsed (some (lex honestNumber).tokens) (.ofEntries [])) =
      Report.tokenList (.parsed (some (lex smuggledNumber).tokens) (.ofEntries [])) := by
    decide +kernel
  exact ⟨_, _, _, hparsed, hparsed', by decide +kernel, rfl, congrArg Except.ok hsame,
    by decide +kernel, by decide +kernel⟩

end StudyPlan
