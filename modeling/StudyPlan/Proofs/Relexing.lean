import Mathlib.Data.List.Forall2
import StudyPlan.Proofs.Writing
import StudyPlan.Source.Lexing

/-!
# What is written is read back, lexeme by lexeme

The source of a plan holds its lexemes and the blanks of its layout.  Here it is shown
that the lexer finds exactly these: no blank splits or joins anything, no text between
marks is mistaken for something else, and no bracket is in the wrong place.

## Tokens that say a lexeme

A token has a kind and a text, which it owes to its lexeme, and a place, which it owes
to the whole source before it.  `Says t s` forgets the place.  The only places that a
plan keeps are the lines of its semesters, and so the tokens are compared with the
source once more: `semestreLines` takes the lines off the tokens, `linesFrom` counts
them in the source.
-/

namespace StudyPlan

open Segment

theorem Literal.isWordPart_symbol (d : Delimiter) : isWordPart d.symbol = false := by
  cases d <;> decide

theorem Literal.isWordPart_of_isBlank {c : Char} (h : isBlank c = true) :
    isWordPart c = false := by
  simp only [isBlank, Bool.or_eq_true, beq_iff_eq, or_assoc] at h
  rcases h with rfl | rfl | rfl | rfl <;> decide

theorem Literal.isDigit_eq_false_of_isWordPart {c : Char} (h : isWordPart c = false) :
    c.isDigit = false := by
  rw [Bool.eq_false_iff] at h ⊢
  exact fun hc => h (isWordPart_iff.2 (.inr hc))

/-! ## The gaps of a layout -/

theorem allStand_blanks_append {gap : List Char} {ss : List Segment}
    (hgap : ∀ c ∈ gap, isBlank c = true) (hss : AllStand ss) :
    AllStand (gap.map .blank ++ ss) := by
  induction gap with
  | nil => exact hss
  | cons c gap ih =>
    rw [List.forall_mem_cons] at hgap
    exact ⟨.blank hgap.1, ih hgap.2⟩

theorem flatMap_text_blanks (gap : List Char) :
    (gap.map Segment.blank).flatMap Segment.text = gap := by
  induction gap with
  | nil => rfl
  | cons c gap ih =>
    rw [List.map_cons, List.flatMap_cons, ih]
    rfl

namespace Layout

variable (l : Layout)

/-- What is written in front of a delimiter ends there. -/
theorem isWordPart_head_pad (n : Nat) (d : Delimiter) (ss : List Segment) :
    ∀ c ∈ ((l.pad n (.delimiter d :: ss)).flatMap Segment.text).head?,
      Literal.isWordPart c = false := by
  intro c hc
  rw [pad, List.flatMap_append, flatMap_text_blanks, List.flatMap_cons] at hc
  cases hgap : l.gap n with
  | nil =>
    rw [hgap] at hc
    obtain rfl := Option.some.inj hc
    exact Literal.isWordPart_symbol d
  | cons b gap =>
    rw [hgap] at hc
    obtain rfl := Option.some.inj hc
    refine Literal.isWordPart_of_isBlank (l.isBlank_gap n b ?_)
    rw [hgap]
    exact List.mem_cons_self ..

/-- **Neat segments stand, whatever the gaps between them.** -/
theorem allStand_pad {opened left : List Delimiter} {ss : List Segment}
    (h : Neat opened ss left) (n : Nat) : AllStand (l.pad n ss) := by
  induction h generalizing n with
  | nil =>
    have hstand : AllStand ((l.gap n).map .blank ++ []) :=
      allStand_blanks_append (l.isBlank_gap n) trivial
    rwa [List.append_nil] at hstand
  | opening _ _ ih | closing _ _ ih | separator _ _ _ ih =>
    exact allStand_blanks_append (l.isBlank_gap n) ⟨.delimiter _ _, ih (n + 1)⟩
  | quoted hq hbody _ ih =>
    exact allStand_blanks_append (l.isBlank_gap n) ⟨.quoted hq hbody, ih (n + 1)⟩
  | number hne hdigits _ ih =>
    refine allStand_blanks_append (l.isBlank_gap n) ⟨.number hne hdigits fun c hc => ?_, ih _⟩
    exact Literal.isDigit_eq_false_of_isWordPart (l.isWordPart_head_pad _ _ _ c hc)
  | @word letters d opened left ss hw _ ih =>
    rcases letters with _ | ⟨c, cs⟩
    · cases hw
    · rw [isWord, Bool.and_eq_true, List.all_eq_true] at hw
      exact allStand_blanks_append (l.isBlank_gap n)
        ⟨.word hw.1 hw.2 (l.isWordPart_head_pad _ _ _), ih _⟩

/-! ## No faults -/

theorem faultsFrom_blanks_append (nesting : Nesting) (p : Position) (gap : List Char)
    (ss : List Segment) :
    Lexing.faultsFrom nesting (place p (gap.map .blank ++ ss)) =
      Lexing.faultsFrom nesting (place (p.advance gap) ss) := by
  induction gap generalizing p with
  | nil => rfl
  | cons c gap ih => exact ih (p.step c)

/-- **Neat segments have no faults, inside whatever brackets they close.** -/
theorem faultsFrom_pad {opened left : List Delimiter} {ss : List Segment}
    (h : Neat opened ss left) (hleft : left = []) {nesting : Nesting}
    (hopened : nesting.map Opening.bracket = opened) (n : Nat) (p : Position) :
    Lexing.faultsFrom nesting (place p (l.pad n ss)) = [] := by
  induction h generalizing nesting n p with
  | nil =>
    obtain rfl : nesting = [] := List.map_eq_nil_iff.1 (hopened.trans hleft)
    have hnone := faultsFrom_blanks_append [] p (l.gap n) []
    rw [List.append_nil] at hnone
    exact hnone
  | opening ho _ ih =>
    rw [pad, faultsFrom_blanks_append, place, Lexing.faultsFrom, Lexing.meet, if_pos ho]
    exact ih hleft (congrArg _ hopened) _ _
  | @closing o c _ _ _ hp _ ih =>
    obtain ⟨b, nesting, rfl⟩ : ∃ b m, nesting = b :: m := by
      rcases nesting with _ | ⟨b, m⟩
      · cases hopened
      · exact ⟨b, m, rfl⟩
    obtain ⟨rfl, hopened'⟩ := List.cons.inj hopened
    have ho := Delimiter.not_isOpening_of_partner hp
    have hc : c.isClosing = true := Delimiter.isClosing_iff_exists_partner.2 ⟨_, hp⟩
    rw [pad, faultsFrom_blanks_append, place, Lexing.faultsFrom, Lexing.meet, if_neg ho,
      if_pos hc, Nesting.close, if_pos hp]
    exact ih hleft hopened' _ _
  | separator ho hc _ ih =>
    rw [pad, faultsFrom_blanks_append, place, Lexing.faultsFrom, Lexing.meet, ho, hc]
    exact ih hleft hopened _ _
  | quoted _ _ _ ih | number _ _ _ ih | word _ _ ih =>
    rw [pad, faultsFrom_blanks_append, place, Lexing.faultsFrom]
    exact ih hleft hopened _ _

end Layout

/-! ## The tokens -/

/-- The token is one of this segment, wherever it stands. -/
def Says (t : Token) (s : Segment) : Prop :=
  ∃ p, s.token? p = some t

theorem Says.delimiter {t : Token} {d : Delimiter} (h : Says t (.delimiter d)) :
    t.kind = .delimiter d := by
  obtain ⟨p, h⟩ := h
  cases h
  rfl

theorem Says.quoted {t : Token} {mark : Char} {s : String}
    (h : Says t (.quoted mark s.toList)) : t.kind = .quoted ∧ t.text = s := by
  obtain ⟨p, h⟩ := h
  cases h
  exact ⟨rfl, String.ofList_toList⟩

theorem Says.number {t : Token} {s : String} (h : Says t (.number s.toList)) :
    t.kind = .number ∧ t.text = s := by
  obtain ⟨p, h⟩ := h
  cases h
  exact ⟨rfl, String.ofList_toList⟩

theorem Says.word {t : Token} {s : String} (h : Says t (.word s.toList)) :
    t.kind = .ofWord s ∧ t.text = s := by
  obtain ⟨p, h⟩ := h
  cases h
  exact ⟨congrArg Kind.ofWord String.ofList_toList, String.ofList_toList⟩

theorem tokensOf_blanks_append (p : Position) (gap : List Char) (ss : List Segment) :
    tokensOf (place p (gap.map .blank ++ ss)) = tokensOf (place (p.advance gap) ss) := by
  induction gap generalizing p with
  | nil => rfl
  | cons c gap ih => exact ih (p.step c)

/-- **The tokens of a written plan say its lexemes.** -/
theorem Layout.forall₂_says (l : Layout) {opened left : List Delimiter} {ss : List Segment}
    (h : Neat opened ss left) (n : Nat) (p : Position) :
    List.Forall₂ Says (tokensOf (place p (l.pad n ss))) ss := by
  induction h generalizing n p with
  | nil =>
    have hnone := tokensOf_blanks_append p (l.gap n) []
    rw [List.append_nil] at hnone
    rw [pad, hnone]
    exact .nil
  | opening _ _ ih | closing _ _ ih | separator _ _ _ ih | quoted _ _ _ ih | number _ _ _ ih
  | word _ _ ih =>
    rw [pad, tokensOf_blanks_append]
    exact .cons ⟨_, rfl⟩ (ih _ _)

/-! ## The lines of semesters -/

/-- Does the segment spell the word that heads a semester? -/
def Segment.isSemestre : Segment → Bool
  | .word letters => Kind.ofWord (String.ofList letters) = .keyword .semestre
  | _ => false

/-- The lines on which semesters begin in these segments, when the characters `before`
stand before them.  A line is one more than the newlines before it. -/
def linesFrom (before : List Char) : List Segment → List Nat
  | [] => []
  | s :: ss =>
    (if s.isSemestre then [before.count '\n' + 1] else []) ++ linesFrom (before ++ s.text) ss

/-- The lines of the tokens that head semesters. -/
def semestreLines (ts : List Token) : List Nat :=
  (ts.filter fun t => t.kind = .keyword .semestre).map Token.line

theorem semestreLines_append (ts ts' : List Token) :
    semestreLines (ts ++ ts') = semestreLines ts ++ semestreLines ts' := by
  rw [semestreLines, List.filter_append, List.map_append]
  rfl

theorem Position.line_advance (p : Position) (cs : List Char) :
    (p.advance cs).line = p.line + cs.count '\n' := by
  induction cs generalizing p with
  | nil => rfl
  | cons c cs ih =>
    rw [advance_cons, ih, step, List.count_cons]
    by_cases hc : c = '\n'
    · simp [hc]
      omega
    · simp [hc]

theorem isSemestre_of_token?_eq_some {s : Segment} {p : Position} {t : Token}
    (h : s.token? p = some t) : s.isSemestre = decide (t.kind = .keyword .semestre) := by
  cases s <;> cases h <;> rfl

/-- The tokens have the lines that are counted in the source. -/
theorem semestreLines_tokensOf (before : List Char) (ss : List Segment) :
    semestreLines (tokensOf (place (Position.start.advance before) ss)) =
      linesFrom before ss := by
  induction ss generalizing before with
  | nil => rfl
  | cons s ss ih =>
    have ih := ih (before ++ s.text)
    rw [Position.advance_append] at ih
    rw [place, linesFrom, ← ih, tokensOf, List.filterMap_cons]
    cases ht : s.token? (Position.start.advance before) with
    | none =>
      have hs : s.isSemestre = false := by
        cases s <;> first | rfl | cases ht
      simp [hs, tokensOf]
    | some t =>
      have hline : t.line = before.count '\n' + 1 := by
        have hp : t.line = (Position.start.advance before).line := by
          cases s <;> cases ht <;> rfl
        rw [hp, Position.line_advance, Nat.add_comm]
        rfl
      rw [isSemestre_of_token?_eq_some ht]
      by_cases hk : t.kind = .keyword .semestre
      · simp [semestreLines, hk, hline, tokensOf]
      · simp [semestreLines, hk, tokensOf]

end StudyPlan
