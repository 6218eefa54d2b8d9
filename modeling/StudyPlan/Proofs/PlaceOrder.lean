import Mathlib.Data.Prod.Lex
import StudyPlan.Proofs.Matching

/-!
# The order of what is found in a source

Tokens and faults are reported with a line and a column, and these are ordered like the
text: first by the line, then by the column.  Reading a character always leads to a later
place, whether the line or the column grows (`Position.lineColumn_lt_step`).  So what is
found on the way, at most one thing in each segment and always at the start of it, is found
at later and later places (`Rising`).

## The fault that looks back

One fault is not found on the way.  That a bracket is never closed is known when the source
ends, and it is reported at the place of the bracket.  It still lies before the end, as all
brackets do that are open (`Lexing.lineColumn_lt_of_mem_nestingAfter`), but the faults in
front of it in the list may lie behind it in the source.  It is the last fault of the list,
and a text that is not terminated is the last but for it, since such a text swallows the
rest of the source.
-/

namespace StudyPlan

open Segment

/-! ## Lines and columns -/

/-- The line and the column of a place, ordered by the line first. -/
def Position.lineColumn (p : Position) : ℕ ×ₗ ℕ :=
  toLex (p.line, p.column)

/-- The line and the column where a token starts. -/
def Token.lineColumn (t : Token) : ℕ ×ₗ ℕ :=
  toLex (t.line, t.column)

/-- The line and the column where a fault is reported. -/
def Fault.lineColumn (f : Fault) : ℕ ×ₗ ℕ :=
  toLex (f.line, f.column)

/-- The line and the column where an open bracket stands. -/
def Opening.lineColumn (o : Opening) : ℕ ×ₗ ℕ :=
  toLex (o.line, o.column)

namespace Position

/-- A newline ends the line, and any other character makes it longer. -/
theorem lineColumn_lt_step (p : Position) (c : Char) : p.lineColumn < (p.step c).lineColumn := by
  rw [lineColumn, lineColumn, Prod.Lex.toLex_lt_toLex, step]
  split
  · exact .inl (Nat.lt_succ_self p.line)
  · exact .inr ⟨rfl, Nat.lt_succ_self p.column⟩

theorem lineColumn_le_advance (p : Position) (cs : List Char) :
    p.lineColumn ≤ (p.advance cs).lineColumn := by
  induction cs generalizing p with
  | nil => exact le_rfl
  | cons c cs ih => exact (p.lineColumn_lt_step c).le.trans (ih _)

/-- A text that is not empty leads to a later place. -/
theorem lineColumn_lt_advance (p : Position) {cs : List Char} (hcs : cs ≠ []) :
    p.lineColumn < (p.advance cs).lineColumn := by
  obtain ⟨c, cs, rfl⟩ := List.exists_cons_of_ne_nil hcs
  exact (p.lineColumn_lt_step c).trans_le ((p.step c).lineColumn_le_advance cs)

end Position

/-! ## What is found on the way -/

/-- Places from `low` on and before `high`, each one behind those before it. -/
structure Rising (low high : ℕ ×ₗ ℕ) (places : List (ℕ ×ₗ ℕ)) : Prop where
  sorted : places.Pairwise (· < ·)
  low_le : ∀ x ∈ places, low ≤ x
  lt_high : ∀ x ∈ places, x < high

namespace Rising

variable {low mid high : ℕ ×ₗ ℕ} {places : List (ℕ ×ₗ ℕ)}

theorem nil (low high : ℕ ×ₗ ℕ) : Rising low high [] :=
  ⟨.nil, nofun, nofun⟩

/-- At most one more place, in front of all the others. -/
theorem cons? (h : Rising mid high places) (hlow : low < mid) (hmid : mid ≤ high)
    {x? : Option (ℕ ×ₗ ℕ)} (hx : ∀ x ∈ x?, x = low) :
    Rising low high (x?.toList ++ places) := by
  have hle : ∀ x ∈ places, low ≤ x := fun x hx => hlow.le.trans (h.low_le x hx)
  cases x? with
  | none => exact ⟨h.sorted, hle, h.lt_high⟩
  | some x =>
    obtain rfl := hx x rfl
    refine ⟨.cons (fun y hy => hlow.trans_le (h.low_le y hy)) h.sorted, ?_, ?_⟩
    · exact List.forall_mem_cons.2 ⟨le_rfl, hle⟩
    · exact List.forall_mem_cons.2 ⟨hlow.trans_le hmid, h.lt_high⟩

/-- The place where the way ends is the last one. -/
theorem concat_high (h : Rising low high places) : (places ++ [high]).Pairwise (· < ·) :=
  List.pairwise_append.2 ⟨h.sorted, List.pairwise_singleton .., fun x hx y hy => by
    obtain rfl := List.mem_singleton.1 hy
    exact h.lt_high x hx⟩

end Rising

/-- A token starts where its segment does. -/
theorem Segment.lineColumn_of_mem_token? {p : Position} {s : Segment} {t : Token}
    (h : t ∈ s.token? p) : t.lineColumn = p.lineColumn := by
  cases s <;> cases h <;> rfl

/-- The tokens of segments start at later and later places. -/
theorem Segment.rising_tokensOf (p : Position) {ss : List Segment} (hss : AllStand ss) :
    Rising p.lineColumn (p.advance (ss.flatMap text)).lineColumn
      ((tokensOf (place p ss)).map Token.lineColumn) := by
  induction ss generalizing p with
  | nil => exact .nil _ _
  | cons s ss ih =>
    have htokens : (tokensOf (place p (s :: ss))).map Token.lineColumn =
        ((s.token? p).map Token.lineColumn).toList ++
          (tokensOf (place (p.advance s.text) ss)).map Token.lineColumn := by
      rw [place, tokensOf, List.filterMap_cons]
      cases s.token? p <;> rfl
    rw [htokens, List.flatMap_cons, Position.advance_append]
    refine (ih (p.advance s.text) hss.2).cons? (p.lineColumn_lt_advance hss.1.text_ne_nil)
      (Position.lineColumn_le_advance ..) fun x hx => ?_
    obtain ⟨t, ht, rfl⟩ := Option.map_eq_some_iff.1 hx
    exact lineColumn_of_mem_token? ht

namespace Lexing

variable {n n' : Nesting} {p : Position} {s : Segment}

/-- A fault that is met is reported where its segment starts. -/
theorem Met.lineColumn {f? : Option Fault} {f : Fault} (h : Met p n s n' f?) (hf : f ∈ f?) :
    f.lineColumn = p.lineColumn := by
  cases h with
  | plain => cases s <;> cases hf <;> rfl
  | opened | closed => cases hf
  | unexpected | mismatched =>
    obtain rfl := Option.some.inj hf
    rfl

/-- The faults of segments are met at later and later places. -/
theorem rising_faultsMet (n : Nesting) (p : Position) {ss : List Segment} (hss : AllStand ss) :
    Rising p.lineColumn (p.advance (ss.flatMap text)).lineColumn
      ((faultsMet n (place p ss)).map Fault.lineColumn) := by
  induction ss generalizing n p with
  | nil => exact .nil _ _
  | cons s ss ih =>
    rw [place, faultsMet, List.map_append, ← Option.toList_map, List.flatMap_cons,
      Position.advance_append]
    refine (ih _ (p.advance s.text) hss.2).cons? (p.lineColumn_lt_advance hss.1.text_ne_nil)
      (Position.lineColumn_le_advance ..) fun x hx => ?_
    obtain ⟨f, hf, rfl⟩ := Option.map_eq_some_iff.1 hx
    exact (met_meet n p s).lineColumn hf

/-! ## Brackets and texts that are not ended -/

/-- A bracket that is open behind a segment stands there or was open before it. -/
theorem Met.mem_nesting {f? : Option Fault} {o : Opening} (h : Met p n s n' f?) (ho : o ∈ n') :
    o ∈ n ∨ o.lineColumn = p.lineColumn := by
  cases h with
  | plain | unexpected | mismatched => exact .inl ho
  | closed => exact .inl (List.mem_cons_of_mem _ ho)
  | opened =>
    rcases List.mem_cons.1 ho with rfl | ho
    · exact .inr rfl
    · exact .inl ho

/-- The brackets that are open stand before the place that is reached. -/
theorem lineColumn_lt_of_mem_nestingAfter {ss : List Segment} (hss : AllStand ss)
    (hn : ∀ o ∈ n, o.lineColumn < p.lineColumn) :
    ∀ o ∈ nestingAfter n (place p ss),
      o.lineColumn < (p.advance (ss.flatMap text)).lineColumn := by
  induction ss generalizing n p with
  | nil => exact hn
  | cons s ss ih =>
    rw [List.flatMap_cons, Position.advance_append]
    refine ih hss.2 fun o ho => ?_
    have hstep := p.lineColumn_lt_advance hss.1.text_ne_nil
    rcases (met_meet n p s).mem_nesting ho with ho | ho
    · exact (hn o ho).trans hstep
    · exact ho ▸ hstep

/-- Only an unterminated text is at fault for not being terminated. -/
theorem Met.eq_unterminated {f? : Option Fault} {f : Fault} (h : Met p n s n' f?) (hf : f ∈ f?)
    (hend : f.isUnterminated = true) : ∃ mark body, s = .unterminated mark body := by
  cases h with
  | plain =>
    cases s with
    | unterminated mark body => exact ⟨mark, body, rfl⟩
    | stray =>
      obtain rfl := Option.some.inj hf
      simp [Fault.isUnterminated] at hend
    | blank | delimiter | number | word | quoted => cases hf
  | opened | closed => cases hf
  | unexpected | mismatched =>
    obtain rfl := Option.some.inj hf
    simp [Fault.isUnterminated] at hend

/-- Behind an unterminated text no fault is met. -/
theorem eq_nil_of_faultsMet_eq {ss : List Segment} (hss : AllStand ss) {before after : List Fault}
    {f : Fault} (h : faultsMet n (place p ss) = before ++ f :: after)
    (hend : f.isUnterminated = true) : after = [] := by
  induction ss generalizing n p before with
  | nil => simp [place, faultsMet] at h
  | cons s ss ih =>
    have hmet := met_meet n p s
    rw [place, faultsMet] at h
    cases hf : (meet n p s).2 with
    | none =>
      rw [hf] at h
      exact ih hss.2 h
    | some f' =>
      rw [hf] at h
      rcases before with _ | ⟨g, before⟩
      · -- the segment at fault is unterminated, so no segment stands behind it
        obtain ⟨rfl, hafter⟩ := List.cons.inj h
        obtain ⟨mark, body, rfl⟩ := hmet.eq_unterminated hf hend
        obtain rfl := Cut.eq_nil_of_unterminated hss.1 hss.2
        exact hafter.symm
      · exact ih hss.2 (List.cons.inj h).2

end Lexing

/-! ## A whole source -/

/-- What stands in a list with at most one more entry at its end. -/
theorem eq_append_cons_or_last {α : Type} {xs before after : List α} {x? : Option α} {y : α}
    (h : xs ++ x?.toList = before ++ y :: after) :
    (∃ after', xs = before ++ y :: after' ∧ after = after' ++ x?.toList) ∨
      (x? = some y ∧ after = []) := by
  cases x? with
  | none => exact .inl ⟨after, by simpa using h, (List.append_nil _).symm⟩
  | some x =>
    rcases List.eq_nil_or_concat after with rfl | ⟨after, z, rfl⟩
    · obtain ⟨-, hx⟩ := List.append_inj' h rfl
      exact .inr ⟨congrArg some (List.singleton_inj.1 hx), rfl⟩
    · have h : xs ++ [x] = (before ++ y :: after) ++ [z] := by simpa using h
      obtain ⟨hxs, hx⟩ := List.append_inj' h rfl
      exact .inl ⟨after, hxs, by simpa using hx.symm⟩

/-- The tokens and the faults are reported in the order of the text. -/
structure Lexing.Ordered (l : Lexing) : Prop where
  /-- Each token starts behind those before it, the end of the source included. -/
  tokens : l.tokens.Pairwise fun t u => t.lineColumn < u.lineColumn
  /-- Each fault lies behind those before it, but for a bracket that is never closed. -/
  faults : (l.faults.filter fun f => !f.isNeverClosed).Pairwise
    fun f g => f.lineColumn < g.lineColumn
  one_neverClosed : l.faults.countP Fault.isNeverClosed ≤ 1
  /-- A bracket that is never closed is the last fault. -/
  neverClosed_last : ∀ before f after, l.faults = before ++ f :: after →
    f.isNeverClosed = true → after = []
  one_unterminated : l.faults.countP Fault.isUnterminated ≤ 1
  /-- Only a bracket that is never closed may follow a text that is not terminated. -/
  unterminated_last : ∀ before f after, l.faults = before ++ f :: after →
    f.isUnterminated = true → ∀ g ∈ after, g.isNeverClosed = true
  /-- All faults lie before the end of the source. -/
  before_finish : ∃ tokens finish, l.tokens = tokens ++ [finish] ∧ finish.isFinish = true ∧
    ∀ f ∈ l.faults, f.lineColumn < finish.lineColumn

/-- What is reported at the end is an open bracket, at the place where it stands. -/
theorem Nesting.exists_opening_of_mem_atEnd {n : Nesting} {f : Fault} (h : f ∈ n.atEnd) :
    ∃ o ∈ n, f = ⟨.neverClosed o.bracket, o.line, o.column⟩ := by
  rcases n with _ | ⟨o, n⟩
  · cases h
  · exact ⟨o, List.mem_cons_self, (Option.some.inj h).symm⟩

theorem Nesting.isNeverClosed_of_mem_atEnd {n : Nesting} {f : Fault} (h : f ∈ n.atEnd) :
    f.isNeverClosed = true := by
  obtain ⟨o, -, rfl⟩ := exists_opening_of_mem_atEnd h
  rfl

/-- A fault that is met is no bracket that is never closed. -/
theorem Lexing.isNeverClosed_of_mem_faultsMet {n : Nesting} {placed : List (Position × Segment)}
    {f : Fault} (h : f ∈ faultsMet n placed) : f.isNeverClosed = false :=
  Bool.eq_false_iff.2 (List.countP_eq_zero.1 (conserved n placed).2.2 f h)

theorem countP_isUnterminated_faults (source : String) :
    (lex source).faults.countP Fault.isUnterminated ≤ 1 := by
  obtain ⟨before, -, h⟩ := (Cut.explains_ofSegments source).unterminated
  rw [List.countP_eq_length_filter, h]
  split
  · exact Nat.zero_le 1
  · exact le_rfl

/-- Each token starts behind those before it, and the end of the source behind them all. -/
theorem pairwise_lineColumn_lex (source : String) :
    (lex source).tokens.Pairwise fun t u => t.lineColumn < u.lineColumn := by
  have htokens := (rising_tokensOf .start (allStand_split source.toList)).concat_high
  rw [flatMap_text_split] at htokens
  have hmap : (lex source).tokens.map Token.lineColumn = _ := List.map_append
  exact List.pairwise_map.1 (hmap ▸ htokens)

/-- **Tokens and faults are in the order of the text.** -/
theorem found_in_order (source : String) : (lex source).Ordered := by
  have hstand := allStand_split source.toList
  have hmet := Lexing.rising_faultsMet [] .start hstand
  have hopen := Lexing.lineColumn_lt_of_mem_nestingAfter (n := []) (p := .start) hstand nofun
  have hfaults := faults_lex source
  obtain ⟨left, -, -, hnever⟩ := conserved_lex source
  rw [flatMap_text_split] at hmet hopen
  constructor
  case tokens => exact pairwise_lineColumn_lex source
  case faults =>
    rw [hfaults, List.filter_append, List.filter_eq_self.2, List.filter_eq_nil_iff.2,
      List.append_nil]
    · exact List.pairwise_map.1 hmet.sorted
    · intro f hf
      simp [Nesting.isNeverClosed_of_mem_atEnd (Option.mem_toList.1 hf)]
    · intro f hf
      simp [Lexing.isNeverClosed_of_mem_faultsMet hf]
  case one_neverClosed => exact hnever ▸ Nat.min_le_right left 1
  case neverClosed_last =>
    intro before f after h hf
    rcases eq_append_cons_or_last (hfaults.symm.trans h) with ⟨after', hmem, -⟩ | ⟨-, rfl⟩
    · -- a fault that is met is never of this sort
      have hf' : f ∈ before ++ f :: after' := by simp
      rw [Lexing.isNeverClosed_of_mem_faultsMet (hmem ▸ hf')] at hf
      cases hf
    · rfl
  case one_unterminated => exact countP_isUnterminated_faults source
  case unterminated_last =>
    intro before f after h hf g hg
    rcases eq_append_cons_or_last (hfaults.symm.trans h) with ⟨after', hmem, rfl⟩ | ⟨-, rfl⟩
    · obtain rfl := Lexing.eq_nil_of_faultsMet_eq hstand hmem hf
      exact Nesting.isNeverClosed_of_mem_atEnd (Option.mem_toList.1 hg)
    · cases hg
  case before_finish =>
    refine ⟨_, _, rfl, rfl, fun f hf => ?_⟩
    rw [hfaults, List.mem_append] at hf
    rcases hf with hf | hf
    · exact hmet.lt_high _ (List.mem_map_of_mem hf)
    · obtain ⟨o, ho, rfl⟩ := Nesting.exists_opening_of_mem_atEnd (Option.mem_toList.1 hf)
      exact hopen o ho

end StudyPlan
