import Mathlib.Data.List.Forall2
import StudyPlan.Proofs.Segmentation

/-!
# Nothing of a source is lost

Tokens alone do not tell what a source looked like: blanks leave no token, stray
characters leave a fault, and quoted texts lose their marks.  Yet tokens and faults
together account for every character.  A `Cut` divides a source into gaps and the
lexemes between them, with a tail that is there only when a quoted text was never
closed, and `Cut.Explains` says how tokens and faults come from it.

## Places

What is known of a place is stated with the exact characters before it: the position
reached from the start of the source over these characters, and no other.  So the
functions below that list the lexemes and the faults of a cut carry the characters
`before` along.  The running offset of the scan, which no token shows, is covered by
`Lexing.offset_of_place`.
-/

namespace StudyPlan

/-- A fault noticed behind the characters `before` of a source. -/
def Fault.behind (before : List Char) (cause : Cause) : Fault :=
  ⟨cause, (Position.start.advance before).line, (Position.start.advance before).column⟩

/-- A source cut into gaps and lexemes.  The last gap is followed by the tail. -/
inductive Cut where
  | last (gap tail : List Char)
  | lexeme (gap text : List Char) (rest : Cut)
  deriving DecidableEq, Repr

namespace Cut

open Segment

/-- All the characters of a cut, in order. -/
def text : Cut → List Char
  | last gap tail => gap ++ tail
  | lexeme gap text rest => gap ++ (text ++ rest.text)

/-- The gaps of a cut. -/
def gaps : Cut → List (List Char)
  | last gap _ => [gap]
  | lexeme gap _ rest => gap :: rest.gaps

/-- What stands behind the last gap. -/
def tail : Cut → List Char
  | last _ tail => tail
  | lexeme _ _ rest => rest.tail

/-- The lexemes of a cut, each with the characters before it and behind it, when
`before` stands before the cut. -/
def lexemesFrom (before : List Char) : Cut → List (List Char × List Char × List Char)
  | last _ _ => []
  | lexeme gap text rest =>
    (before ++ gap, text, rest.text) :: rest.lexemesFrom (before ++ gap ++ text)

/-- One fault for each stray character of a gap that stands behind `before`. -/
def straysIn (before : List Char) : List Char → List Fault
  | [] => []
  | c :: gap =>
    if isStray c then .behind before (.strayCharacter c) :: straysIn (before ++ [c]) gap
    else straysIn (before ++ [c]) gap

/-- One fault for each stray character of the gaps of a cut that stands behind
`before`. -/
def straysFrom (before : List Char) : Cut → List Fault
  | last gap _ => straysIn before gap
  | lexeme gap text rest => straysIn before gap ++ rest.straysFrom (before ++ gap ++ text)

end Cut

/-- What a token says, wherever it stands. -/
def Token.said (t : Token) : Kind × String :=
  (t.kind, t.text)

/-- How a token of a given kind and text is written. -/
inductive Spells : Kind → List Char → List Char → Prop
  | delimiter (d : Delimiter) : Spells (.delimiter d) [d.symbol] [d.symbol]
  | number {digits : List Char} :
      digits ≠ [] → (∀ c ∈ digits, c.isDigit = true) → Spells .number digits digits
  | word {c : Char} {cs : List Char} :
      Literal.isLetter c = true → (∀ x ∈ cs, Literal.isWordPart x = true) →
        Spells (.ofWord (String.ofList (c :: cs))) (c :: cs) (c :: cs)
  | quoted {mark : Char} {body : List Char} :
      Literal.isQuote mark = true → mark ∉ body → Spells .quoted body (mark :: body ++ [mark])

/-- A kind that words have. -/
def Kind.isWord : Kind → Bool
  | .keyword _ | .identifier | .boolean => true
  | _ => false

theorem Kind.ofWord_ne {k : Kind} (hk : k.isWord = false) (word : String) :
    Kind.ofWord word ≠ k := by
  rintro rfl
  unfold Kind.ofWord at hk
  split at hk
  · cases hk
  · split at hk <;> cases hk

/-- The end of a source is not written. -/
theorem Spells.ne_finish {k : Kind} {text lexeme : List Char} (h : Spells k text lexeme) :
    k ≠ .finish := by
  cases h with
  | delimiter | number | quoted => nofun
  | word => exact Kind.ofWord_ne rfl _

/-- The token stands for a lexeme with the characters `before` before it and `after`
behind it. -/
structure Token.StandsFor (t : Token) (before lexeme after : List Char) : Prop where
  spelled : Spells t.kind t.text.toList lexeme
  line : t.line = (Position.start.advance before).line
  column : t.column = (Position.start.advance before).column
  /-- A number is as long as can be. -/
  number_ends : t.kind = .number → ∀ c ∈ after.head?, c.isDigit = false
  /-- A word is as long as can be. -/
  word_ends : t.kind.isWord = true → ∀ c ∈ after.head?, Literal.isWordPart c = false

/-- Is this the fault of a stray character? -/
def Fault.isStray (f : Fault) : Bool :=
  match f.cause with
  | .strayCharacter _ => true
  | _ => false

/-- Is this the fault of an unterminated text? -/
def Fault.isUnterminated (f : Fault) : Bool :=
  f.cause = .unterminatedText

/-- The tokens and faults of a source are those of this cut of it. -/
structure Cut.Explains (c : Cut) (source : String) : Prop where
  /-- The cut is one of this source. -/
  text : c.text = source.toList
  /-- There is a token for each lexeme, in order, and then the only end of the source. -/
  tokens : ∃ tokens,
    (lex source).tokens = tokens ++ [.finish (Position.start.advance source.toList)] ∧
      (∀ t ∈ tokens, t.isFinish = false) ∧
      List.Forall₂ (fun t x => t.StandsFor x.1 x.2.1 x.2.2) tokens (c.lexemesFrom [])
  /-- Gaps hold blanks and stray characters. -/
  gaps : ∀ gap ∈ c.gaps, ∀ ch ∈ gap, Segment.isBlank ch = true ∨ Segment.isStray ch = true
  /-- There is a fault for each stray character, in order. -/
  strays : (lex source).faults.filter Fault.isStray = c.straysFrom []
  /-- If there is a tail, it is a quote without a second one of its kind. -/
  tail : c.tail = [] ∨
    ∃ mark body, c.tail = mark :: body ∧ Literal.isQuote mark = true ∧ mark ∉ body
  /-- There is a fault for the tail, at its start, exactly if there is a tail. -/
  unterminated : ∃ before, source.toList = before ++ c.tail ∧
    (lex source).faults.filter Fault.isUnterminated =
      if c.tail = [] then [] else [.behind before .unterminatedText]

/-! ## Faults that depend on no bracket -/

/-- Is a bracket the cause? -/
def Cause.isBracket : Cause → Bool
  | .unexpectedClosing _ | .mismatchedClosing _ _ | .neverClosed _ => true
  | .strayCharacter _ | .unterminatedText => false

theorem Fault.isStray_eq_false_of_isBracket {f : Fault} (h : f.cause.isBracket = true) :
    f.isStray = false := by
  obtain ⟨cause, line, column⟩ := f
  cases cause <;> first | rfl | cases h

theorem Fault.isUnterminated_eq_false_of_isBracket {f : Fault} (h : f.cause.isBracket = true) :
    f.isUnterminated = false := by
  obtain ⟨cause, line, column⟩ := f
  cases cause <;> first | rfl | cases h

namespace Lexing

open Segment

/-- The fault that a segment is by itself. -/
def ownFault? (p : Position) : Segment → Option Fault
  | .stray c => some ⟨.strayCharacter c, p.line, p.column⟩
  | .unterminated _ _ => some ⟨.unterminatedText, p.line, p.column⟩
  | _ => none

theorem isBracket_of_close {n : Nesting} {d : Delimiter} {p : Position} {f : Fault}
    (h : f ∈ (n.close d p).2) : f.cause.isBracket = true := by
  rcases n with _ | ⟨o, n⟩
  · obtain rfl := Option.some.inj h
    rfl
  · rw [Nesting.close] at h
    split at h
    · cases h
    · obtain rfl := Option.some.inj h
      rfl

/-- Apart from the faults of brackets, the faults that are met are those that the
segments are by themselves. -/
theorem filter_meet {q : Fault → Bool} (hq : ∀ f, f.cause.isBracket = true → q f = false)
    (n : Nesting) (p : Position) (s : Segment) :
    (meet n p s).2.toList.filter q = (ownFault? p s).toList.filter q := by
  cases s with
  | delimiter d =>
    refine List.filter_eq_nil_iff.2 fun f hf => ?_
    rw [Option.mem_toList, meet] at hf
    have hbracket : f.cause.isBracket = true := by
      split at hf
      · cases hf
      · split at hf
        · exact isBracket_of_close hf
        · cases hf
    simp [hq f hbracket]
  | blank | stray | number | word | quoted | unterminated => rfl

theorem filter_faultsFrom {q : Fault → Bool} (hq : ∀ f, f.cause.isBracket = true → q f = false)
    (n : Nesting) (placed : List (Position × Segment)) :
    (faultsFrom n placed).filter q =
      (placed.filterMap fun ps => ownFault? ps.1 ps.2).filter q := by
  induction placed generalizing n with
  | nil =>
    rcases n with _ | ⟨o, n⟩
    · rfl
    · have hf : q ⟨.neverClosed o.bracket, o.line, o.column⟩ = false := hq _ rfl
      simp [faultsFrom, Nesting.atEnd, hf]
  | cons ps placed ih =>
    rw [faultsFrom, List.filter_append, filter_meet hq, ih, List.filterMap_cons]
    cases ownFault? ps.1 ps.2 with
    | none => rfl
    | some f => exact (List.filter_append [f] _).symm

end Lexing

/-! ## The cut that segments make -/

namespace Cut

open Segment

/-- The cut with one more character at the front of its first gap. -/
def pushGap (c : Char) : Cut → Cut
  | last gap tail => last (c :: gap) tail
  | lexeme gap text rest => lexeme (c :: gap) text rest

/-- The cut that segments make. -/
def ofSegments : List Segment → Cut
  | [] => last [] []
  | .blank c :: ss | .stray c :: ss => (ofSegments ss).pushGap c
  | .unterminated mark body :: _ => last [] (mark :: body)
  | .delimiter d :: ss => lexeme [] [d.symbol] (ofSegments ss)
  | .number digits :: ss => lexeme [] digits (ofSegments ss)
  | .word letters :: ss => lexeme [] letters (ofSegments ss)
  | .quoted mark body :: ss => lexeme [] (mark :: body ++ [mark]) (ofSegments ss)

@[simp] theorem text_pushGap (c : Char) (k : Cut) : (k.pushGap c).text = c :: k.text := by
  cases k <;> rfl

@[simp] theorem tail_pushGap (c : Char) (k : Cut) : (k.pushGap c).tail = k.tail := by
  cases k <;> rfl

@[simp] theorem lexemesFrom_pushGap (before : List Char) (c : Char) (k : Cut) :
    (k.pushGap c).lexemesFrom before = k.lexemesFrom (before ++ [c]) := by
  cases k <;> simp [pushGap, lexemesFrom]

theorem straysFrom_pushGap (before : List Char) (c : Char) (k : Cut) :
    (k.pushGap c).straysFrom before =
      if isStray c then .behind before (.strayCharacter c) :: k.straysFrom (before ++ [c])
      else k.straysFrom (before ++ [c]) := by
  cases k with
  | last gap tail => rfl
  | lexeme gap text rest =>
    simp only [pushGap, straysFrom, straysIn]
    split
    · simp
    · simp

theorem forall_mem_gaps_pushGap {p : Char → Prop} {c : Char} {k : Cut} (hc : p c)
    (hk : ∀ gap ∈ k.gaps, ∀ ch ∈ gap, p ch) : ∀ gap ∈ (k.pushGap c).gaps, ∀ ch ∈ gap, p ch := by
  cases k with
  | last gap tail =>
    simp only [pushGap, gaps, List.forall_mem_singleton, List.forall_mem_cons] at hk ⊢
    exact ⟨hc, hk⟩
  | lexeme gap text rest =>
    simp only [pushGap, gaps, List.forall_mem_cons] at hk ⊢
    exact ⟨⟨hc, hk.1⟩, hk.2⟩

/-! ### What the cut keeps of its segments -/

theorem eq_nil_of_flatMap_text {ss : List Segment} (h : AllStand ss)
    (hnil : ss.flatMap Segment.text = []) : ss = [] := by
  rcases ss with _ | ⟨s, ss⟩
  · rfl
  · rw [List.flatMap_cons] at hnil
    exact absurd (List.append_eq_nil_iff.1 hnil).1 h.1.text_ne_nil

/-- An unterminated text is the last segment. -/
theorem eq_nil_of_unterminated {mark : Char} {body : List Char} {ss : List Segment}
    (hs : (unterminated mark body).Stands (ss.flatMap Segment.text)) (hss : AllStand ss) :
    ss = [] := by
  generalize hrest : ss.flatMap Segment.text = rest at hs
  cases hs
  exact eq_nil_of_flatMap_text hss hrest

theorem text_ofSegments {ss : List Segment} (h : AllStand ss) :
    (ofSegments ss).text = ss.flatMap Segment.text := by
  induction ss with
  | nil => rfl
  | cons s ss ih =>
    obtain ⟨hs, hss⟩ := h
    have ih := ih hss
    rw [List.flatMap_cons]
    cases s with
    | blank c | stray c =>
      rw [ofSegments, text_pushGap, ih]
      rfl
    | delimiter | number | word | quoted =>
      rw [ofSegments, Cut.text, ih]
      rfl
    | unterminated mark body =>
      obtain rfl := eq_nil_of_unterminated hs hss
      exact (List.append_nil _).symm

theorem forall_mem_gaps_ofSegments {ss : List Segment} (h : AllStand ss) :
    ∀ gap ∈ (ofSegments ss).gaps, ∀ ch ∈ gap, isBlank ch = true ∨ isStray ch = true := by
  induction ss with
  | nil => simp [ofSegments, gaps]
  | cons s ss ih =>
    obtain ⟨hs, hss⟩ := h
    have ih := ih hss
    cases s with
    | blank c =>
      cases hs with
      | blank hc => exact forall_mem_gaps_pushGap (.inl hc) ih
    | stray c =>
      cases hs with
      | stray hc => exact forall_mem_gaps_pushGap (.inr hc) ih
    | delimiter | number | word | quoted => simpa [ofSegments, gaps] using ih
    | unterminated => simp [ofSegments, gaps]

theorem tail_ofSegments {ss : List Segment} (h : AllStand ss) :
    (ofSegments ss).tail = [] ∨ ∃ mark body, (ofSegments ss).tail = mark :: body ∧
      Literal.isQuote mark = true ∧ mark ∉ body := by
  induction ss with
  | nil => exact .inl rfl
  | cons s ss ih =>
    obtain ⟨hs, hss⟩ := h
    have ih := ih hss
    cases s with
    | blank | stray => simpa [ofSegments] using ih
    | delimiter | number | word | quoted => simpa [ofSegments, tail] using ih
    | unterminated mark body =>
      generalize ss.flatMap Segment.text = rest at hs
      cases hs with
      | unterminated hq hbody => exact .inr ⟨mark, body, rfl, hq, hbody⟩

/-- The token of a segment stands for the text of the segment. -/
theorem standsFor_of_stands {s : Segment} {before after : List Char} {t : Token}
    (hs : s.Stands after) (ht : s.token? (Position.start.advance before) = some t) :
    t.StandsFor before s.text after := by
  cases hs with
  | blank | stray | unterminated => cases ht
  | delimiter d =>
    cases ht
    refine ⟨?_, rfl, rfl, nofun, nofun⟩
    rw [Token.startingAt, String.toList_ofList]
    exact .delimiter d
  | number hne hdigits hrest =>
    cases ht
    refine ⟨?_, rfl, rfl, fun _ => hrest, nofun⟩
    rw [Token.startingAt, String.toList_ofList]
    exact .number hne hdigits
  | word hc hcs hrest =>
    cases ht
    refine ⟨?_, rfl, rfl, fun hk => absurd hk (Kind.ofWord_ne rfl _), fun _ => hrest⟩
    rw [Token.startingAt, String.toList_ofList]
    exact .word hc hcs
  | quoted hq hbody =>
    cases ht
    refine ⟨?_, rfl, rfl, nofun, nofun⟩
    rw [Token.startingAt, String.toList_ofList]
    exact .quoted hq hbody

/-- The tokens of the segments stand for the lexemes of the cut. -/
theorem forall₂_standsFor {ss : List Segment} (h : AllStand ss) (before : List Char) :
    List.Forall₂ (fun t x => Token.StandsFor t x.1 x.2.1 x.2.2)
      (tokensOf (place (Position.start.advance before) ss))
      ((ofSegments ss).lexemesFrom before) := by
  induction ss generalizing before with
  | nil => exact .nil
  | cons s ss ih =>
    obtain ⟨hs, hss⟩ := h
    have ih := ih hss (before ++ s.text)
    rw [Position.advance_append] at ih
    rw [place, tokensOf, List.filterMap_cons]
    have htext := text_ofSegments hss
    cases s with
    | blank c | stray c =>
      rw [ofSegments, lexemesFrom_pushGap]
      exact ih
    | unterminated mark body =>
      obtain rfl := eq_nil_of_unterminated hs hss
      exact .nil
    | delimiter | number | word | quoted =>
      rw [ofSegments, lexemesFrom, List.append_nil, htext]
      exact .cons (standsFor_of_stands hs rfl) ih

/-- The stray characters of the segments are those of the gaps. -/
theorem filter_isStray_ownFaults {ss : List Segment} (h : AllStand ss) (before : List Char) :
    ((place (Position.start.advance before) ss).filterMap
        fun ps => Lexing.ownFault? ps.1 ps.2).filter Fault.isStray =
      (ofSegments ss).straysFrom before := by
  induction ss generalizing before with
  | nil => rfl
  | cons s ss ih =>
    obtain ⟨hs, hss⟩ := h
    have ih := ih hss (before ++ s.text)
    rw [Position.advance_append] at ih
    rw [place, List.filterMap_cons]
    cases s with
    | blank c =>
      have hc : isStray c = false := by
        cases hs with
        | blank hc => simp [isStray, hc]
      rw [ofSegments, straysFrom_pushGap, if_neg (by simp [hc])]
      exact ih
    | stray c =>
      have hc : isStray c = true := by
        cases hs with
        | stray hc => exact hc
      rw [ofSegments, straysFrom_pushGap, if_pos hc]
      exact congrArg _ ih
    | unterminated mark body =>
      obtain rfl := eq_nil_of_unterminated hs hss
      rfl
    | delimiter | number | word | quoted =>
      rw [ofSegments, straysFrom, List.append_nil]
      exact ih

/-- The unterminated text among the segments is the tail. -/
theorem filter_isUnterminated_ownFaults {ss : List Segment} (h : AllStand ss)
    (before : List Char) : ∃ body, ss.flatMap Segment.text = body ++ (ofSegments ss).tail ∧
      ((place (Position.start.advance before) ss).filterMap
          fun ps => Lexing.ownFault? ps.1 ps.2).filter Fault.isUnterminated =
        if (ofSegments ss).tail = [] then [] else [.behind (before ++ body) .unterminatedText] := by
  induction ss generalizing before with
  | nil => exact ⟨[], rfl, rfl⟩
  | cons s ss ih =>
    obtain ⟨hs, hss⟩ := h
    obtain ⟨body, hbody, ih⟩ := ih hss (before ++ s.text)
    rw [Position.advance_append, List.append_assoc] at ih
    rw [place, List.filterMap_cons, List.flatMap_cons]
    cases s with
    | unterminated mark inner =>
      obtain rfl := eq_nil_of_unterminated hs hss
      exact ⟨[], by simp [ofSegments, tail, Segment.text], by
        simp [ofSegments, tail, place, Lexing.ownFault?, Fault.isUnterminated, Fault.behind]⟩
    | blank c | stray c =>
      rw [ofSegments, tail_pushGap, hbody]
      exact ⟨_, (List.append_assoc _ _ _).symm, ih⟩
    | delimiter | number | word | quoted =>
      rw [ofSegments, tail, hbody]
      exact ⟨_, (List.append_assoc _ _ _).symm, ih⟩

/-- The cut that the segments of a source make explains its tokens and faults. -/
theorem explains_ofSegments (source : String) :
    (ofSegments (split source.toList)).Explains source := by
  have hstand := allStand_split source.toList
  have htext := flatMap_text_split source.toList
  have htokens := forall₂_standsFor hstand []
  have hfinish := (List.forall₂_and_left (p := fun t : Token => t.isFinish = false) _ _).1
    (htokens.imp fun t _ h => ⟨decide_eq_false h.spelled.ne_finish, h⟩)
  refine ⟨?_, ⟨_, rfl, hfinish.1, htokens⟩, ?_, ?_, ?_, ?_⟩
  · rw [text_ofSegments hstand, htext]
  · exact forall_mem_gaps_ofSegments hstand
  · rw [lex, Lexing.ofChars, Lexing.filter_faultsFrom fun _ => Fault.isStray_eq_false_of_isBracket]
    exact filter_isStray_ownFaults hstand []
  · exact tail_ofSegments hstand
  · obtain ⟨body, hbody, hfaults⟩ := filter_isUnterminated_ownFaults hstand []
    rw [htext] at hbody
    rw [lex, Lexing.ofChars,
      Lexing.filter_faultsFrom fun _ => Fault.isUnterminated_eq_false_of_isBracket]
    exact ⟨body, hbody, hfaults⟩

/-- A lexeme stands in the text of its cut between the characters before it and behind it. -/
theorem text_of_mem_lexemesFrom {before : List Char} {c : Cut}
    {x : List Char × List Char × List Char} (h : x ∈ c.lexemesFrom before) :
    before ++ c.text = x.1 ++ (x.2.1 ++ x.2.2) := by
  induction c generalizing before with
  | last gap tail => cases h
  | lexeme gap text rest ih =>
    rcases List.mem_cons.1 h with rfl | h
    · simp [Cut.text]
    · rw [← ih h]
      simp [Cut.text]

end Cut

/-- Every token but the end stands for a lexeme somewhere in the source. -/
theorem exists_standsFor_of_mem_lex {source : String} {t : Token} (ht : t ∈ (lex source).tokens)
    (hfinish : t.isFinish = false) :
    ∃ before lexeme after, source.toList = before ++ (lexeme ++ after) ∧
      t.StandsFor before lexeme after := by
  have hexplains := Cut.explains_ofSegments source
  obtain ⟨tokens, htokens, -, hstand⟩ := hexplains.tokens
  rw [htokens, List.mem_append, List.mem_singleton] at ht
  rcases ht with ht | rfl
  · obtain ⟨i, hi, rfl⟩ := List.getElem_of_mem ht
    have hi' := hstand.length_eq ▸ hi
    exact ⟨_, _, _, hexplains.text.symm.trans
      (Cut.text_of_mem_lexemesFrom (List.getElem_mem hi')), hstand.get hi hi'⟩
  · cases hfinish

/-! ## The scan keeps its place -/

/-- The place at which the scan of a source meets a segment is the place behind the
characters before it, and its offset is the number of bytes of these. -/
theorem Lexing.offset_of_place {source : String} {p : Position} {s : Segment}
    {passed ahead : List (Position × Segment)}
    (h : Segment.place .start (Segment.split source.toList) = passed ++ (p, s) :: ahead) :
    p = Position.start.advance (Segment.textOf passed) ∧
      p.offset = (String.ofList (Segment.textOf passed)).utf8ByteSize ∧
      source.toList = Segment.textOf passed ++ (s.text ++ Segment.textOf ahead) := by
  have hp := Segment.eq_advance_of_place_eq h
  refine ⟨hp, ?_, ?_⟩
  · rw [hp, Position.offset_advance]
    exact Nat.zero_add _
  · have htext := Segment.textOf_place .start (Segment.split source.toList)
    rw [Segment.flatMap_text_split, h] at htext
    rw [← htext, Segment.textOf, List.flatMap_append, List.flatMap_cons]
    rfl

/-- **Reading a source loses nothing.**  The source is a cut of gaps and lexemes that
explains all its tokens and its faults, and wherever the scan stands, its offset is the
number of bytes that it has passed. -/
theorem lexing_is_lossless (source : String) :
    (∃ c : Cut, c.Explains source) ∧
      (∀ passed p s ahead,
        Segment.place .start (Segment.split source.toList) = passed ++ (p, s) :: ahead →
          p = Position.start.advance (Segment.textOf passed) ∧
            p.offset = (String.ofList (Segment.textOf passed)).utf8ByteSize ∧
            source.toList = Segment.textOf passed ++ (s.text ++ Segment.textOf ahead)) ∧
      (Position.start.advance source.toList).offset = source.utf8ByteSize := by
  refine ⟨⟨_, Cut.explains_ofSegments source⟩, fun _ _ _ _ h => Lexing.offset_of_place h, ?_⟩
  rw [Position.offset_advance, String.ofList_toList]
  exact Nat.zero_add _

end StudyPlan
