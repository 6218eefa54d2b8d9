import StudyPlan.Source.Lexing

/-!
# Where the segments of a source end

A source can be cut in only one way.  `Segment.Stands s rest` says that the segment
`s` is well formed and may stand in front of the characters `rest`: a number in front
of anything but a digit, a word in front of anything but a letter, a digit or an
underscore, an unterminated text in front of nothing.  The first segment of a source
is the one that stands in front of what is left (`Segment.first_eq_iff`), and the cut
of a source is the only list of segments in which each one stands in front of the
others (`Segment.split_eq_iff`).

Both directions are of use.  From left to right they tell what is known of the cut of
an arbitrary source.  From right to left they tell how a text that was put together
from segments is cut.
-/

namespace StudyPlan
namespace Literal

/-! ## Sorts of characters -/

theorem isWordPart_iff {c : Char} :
    isWordPart c = true ↔ isLetter c = true ∨ c.isDigit = true := by
  simp only [isLetter, isWordPart, Char.isAlphanum, Bool.or_eq_true]
  grind

/-- No letter is a digit. -/
theorem isDigit_eq_false_of_isLetter {c : Char} (h : isLetter c = true) :
    c.isDigit = false := by
  rw [isLetter, Bool.or_eq_true, beq_iff_eq] at h
  rcases h with h | rfl
  · change (decide ('A'.val ≤ c.val ∧ c.val ≤ 'Z'.val) ||
      decide ('a'.val ≤ c.val) && decide (c.val ≤ 'z'.val)) = true at h
    simp only [Bool.or_eq_true, Bool.and_eq_true, decide_eq_true_eq,
      UInt32.le_iff_toNat_le] at h
    simp only [Char.isDigit, Bool.and_eq_false_iff, decide_eq_false_iff_not, ge_iff_le,
      UInt32.le_iff_toNat_le]
    have h9 : '9'.val.toNat = 57 := rfl
    have hA : 'A'.val.toNat = 65 := rfl
    have ha : 'a'.val.toNat = 97 := rfl
    omega
  · decide

/-- A quote is no blank, no delimiter and no part of a word. -/
theorem of_isQuote {c : Char} (h : isQuote c = true) :
    Segment.isBlank c = false ∧ Delimiter.ofChar? c = none ∧ isWordPart c = false := by
  simp only [isQuote, Bool.or_eq_true, beq_iff_eq] at h
  rcases h with rfl | rfl <;> decide

/-- A delimiter is no blank. -/
theorem isBlank_symbol (d : Delimiter) : Segment.isBlank d.symbol = false := by
  cases d <;> decide

/-- A part of a word is no blank, no delimiter and no quote. -/
theorem of_isWordPart {c : Char} (h : isWordPart c = true) :
    Segment.isBlank c = false ∧ Delimiter.ofChar? c = none ∧ isQuote c = false := by
  refine ⟨?_, ?_, ?_⟩
  · cases hb : Segment.isBlank c with
    | false => rfl
    | true =>
      simp only [Segment.isBlank, Bool.or_eq_true, beq_iff_eq] at hb
      rcases hb with ((rfl | rfl) | rfl) | rfl <;> exact absurd h (by decide)
  · cases hd : Delimiter.ofChar? c with
    | none => rfl
    | some d =>
      obtain rfl := Delimiter.ofChar?_eq_some_iff.1 hd
      cases d <;> exact absurd h (by decide)
  · cases hq : isQuote c with
    | false => rfl
    | true => exact absurd h (by simp [(of_isQuote hq).2.2])

/-! ## What the readers of literals read -/

/-- The longest front of a list that satisfies `p`, and what follows it. -/
theorem takeWhile_dropWhile_iff {p : Char → Bool} {cs front rest : List Char} :
    cs.takeWhile p = front ∧ cs.dropWhile p = rest ↔
      cs = front ++ rest ∧ (∀ c ∈ front, p c = true) ∧ ∀ c ∈ rest.head?, p c = false := by
  constructor
  · rintro ⟨rfl, rfl⟩
    refine ⟨List.takeWhile_append_dropWhile.symm, ?_, ?_⟩
    · exact fun c hc => List.all_eq_true.1 List.all_takeWhile c hc
    · intro c hc
      have h := List.head?_dropWhile_not p cs
      rw [Option.mem_def.1 hc] at h
      exact h
  · rintro ⟨rfl, hfront, hrest⟩
    rw [List.takeWhile_append_of_pos hfront, List.dropWhile_append_of_pos hfront]
    rcases rest with _ | ⟨c, rest⟩
    · simp
    · simp [hrest c rfl]

theorem number_eq_ok_iff {cs digits rest : List Char} :
    number cs = .ok (digits, rest) ↔ digits ≠ [] ∧ cs = digits ++ rest ∧
      (∀ c ∈ digits, c.isDigit = true) ∧ ∀ c ∈ rest.head?, c.isDigit = false := by
  rw [← takeWhile_dropWhile_iff]
  unfold number
  split
  · next h =>
    constructor
    · intro h'
      cases h'
    · rintro ⟨hne, hdigits, -⟩
      exact absurd (hdigits.symm.trans h) hne
  · next digits' hne =>
    constructor
    · intro h
      cases h
      exact ⟨hne, rfl, rfl⟩
    · rintro ⟨-, rfl, rfl⟩
      rfl

theorem isDigit_of_number_eq_error {c : Char} {cs : List Char} {e : Mismatch}
    (h : number (c :: cs) = .error e) : c.isDigit = false := by
  unfold number at h
  split at h
  · next hn =>
    cases hc : c.isDigit with
    | false => rfl
    | true => simp [hc] at hn
  · cases h

theorem word_cons_of_isLetter {c : Char} (h : isLetter c = true) (cs : List Char) :
    word (c :: cs) = .ok (c :: cs.takeWhile isWordPart, cs.dropWhile isWordPart) := by
  rw [word, if_pos h]

theorem isLetter_of_word_eq_error {c : Char} {cs : List Char} {e : Mismatch}
    (h : word (c :: cs) = .error e) : isLetter c = false := by
  cases hc : isLetter c with
  | false => rfl
  | true =>
    rw [word_cons_of_isLetter hc] at h
    cases h

/-- A quoted text ends at the first mark of its own kind. -/
theorem quoted_eq_ok_iff {q : Char} {cs body rest : List Char} :
    quoted q (q :: cs) = .ok (body, rest) ↔ q ∉ body ∧ cs = body ++ q :: rest := by
  have hspan : cs.takeWhile (· ≠ q) = body ∧ cs.dropWhile (· ≠ q) = q :: rest ↔
      q ∉ body ∧ cs = body ++ q :: rest := by
    rw [takeWhile_dropWhile_iff]
    constructor
    · rintro ⟨hcs, hbody, -⟩
      exact ⟨fun hq => by simpa using hbody q hq, hcs⟩
    · rintro ⟨hq, hcs⟩
      refine ⟨hcs, fun c hc => ?_, by simp⟩
      have hne : c ≠ q := fun h => hq (h ▸ hc)
      simpa using hne
  rw [← hspan, quoted, if_pos rfl]
  cases hd : cs.dropWhile (· ≠ q) with
  | nil => simp
  | cons d rest' =>
    -- the dropping stopped at the mark
    have hdq : d = q := by
      have h := List.head?_dropWhile_not (· ≠ q) cs
      rw [hd] at h
      simpa using h
    subst hdq
    simp

/-- A text without another mark of its own kind is not terminated. -/
theorem exists_quoted_eq_error_iff {q : Char} {cs : List Char} :
    (∃ e, quoted q (q :: cs) = .error e) ↔ q ∉ cs := by
  rw [quoted, if_pos rfl]
  cases hd : cs.dropWhile (· ≠ q) with
  | nil =>
    obtain ⟨hcs, hall, -⟩ := takeWhile_dropWhile_iff.1 ⟨rfl, hd⟩
    refine iff_of_true ⟨_, rfl⟩ fun hq => ?_
    rw [List.append_nil] at hcs
    simpa using hall q (hcs ▸ hq)
  | cons d rest' =>
    have hq : q ∈ cs := by
      have h := List.head?_dropWhile_not (· ≠ q) cs
      rw [hd] at h
      have hdq : d = q := by simpa using h
      have hmem : d ∈ cs.dropWhile (· ≠ q) := by
        rw [hd]
        exact List.mem_cons_self ..
      exact hdq ▸ (List.dropWhile_sublist _).subset hmem
    simp [hq]

end Literal

namespace Segment

open Literal

/-- A character that begins no segment of the language. -/
def isStray (c : Char) : Bool :=
  !(isBlank c || (Delimiter.ofChar? c).isSome || isQuote c || isWordPart c)

/-- The segment is well formed and may stand in front of these characters. -/
inductive Stands : Segment → List Char → Prop
  | blank {c : Char} {rest : List Char} : isBlank c = true → Stands (.blank c) rest
  | stray {c : Char} {rest : List Char} : isStray c = true → Stands (.stray c) rest
  | delimiter (d : Delimiter) (rest : List Char) : Stands (.delimiter d) rest
  | number {digits rest : List Char} :
      digits ≠ [] → (∀ c ∈ digits, c.isDigit = true) →
        (∀ c ∈ rest.head?, c.isDigit = false) → Stands (.number digits) rest
  | word {c : Char} {cs rest : List Char} :
      isLetter c = true → (∀ x ∈ cs, isWordPart x = true) →
        (∀ x ∈ rest.head?, isWordPart x = false) → Stands (.word (c :: cs)) rest
  | quoted {mark : Char} {body rest : List Char} :
      isQuote mark = true → mark ∉ body → Stands (.quoted mark body) rest
  | unterminated {mark : Char} {body : List Char} :
      isQuote mark = true → mark ∉ body → Stands (.unterminated mark body) []

/-! ## The first segment stands in front of what is left -/

theorem stands_first (c : Char) (cs : List Char) : (first c cs).1.Stands (first c cs).2 := by
  unfold first
  split
  · next hb => exact .blank hb
  · next hb =>
    split
    · exact .delimiter _ _
    · next hd =>
      split
      · next hq =>
        split
        · next body rest h => exact .quoted hq (quoted_eq_ok_iff.1 h).1
        · next e h => exact .unterminated hq (exists_quoted_eq_error_iff.1 ⟨e, h⟩)
      · next hq =>
        split
        · next digits rest h =>
          obtain ⟨hne, -, hdigits, hrest⟩ := number_eq_ok_iff.1 h
          exact .number hne hdigits hrest
        · next e hnumber =>
          split
          · next letters rest h =>
            cases hl : isLetter c with
            | true =>
              rw [word_cons_of_isLetter hl] at h
              obtain ⟨-, hcs, hrest⟩ := takeWhile_dropWhile_iff.1 ⟨rfl, rfl⟩
              cases h
              exact .word hl hcs hrest
            | false => simp [Literal.word, hl] at h
          · next e' hword =>
            have hpart : isWordPart c = false := by
              rw [Bool.eq_false_iff, ne_eq, isWordPart_iff]
              simp [isLetter_of_word_eq_error hword, isDigit_of_number_eq_error hnumber]
            refine .stray ?_
            simp only [isStray, hpart, hq, hd, Bool.eq_false_iff.2 hb]
            rfl

/-- **The first segment of a source is the one that stands in front of what is left.** -/
theorem first_eq_iff {c : Char} {cs rest : List Char} {s : Segment} :
    first c cs = (s, rest) ↔ s.Stands rest ∧ s.text ++ rest = c :: cs := by
  constructor
  · intro h
    have hs := stands_first c cs
    have ht := text_first_append c cs
    rw [h] at hs ht
    exact ⟨hs, ht⟩
  · rintro ⟨hs, ht⟩
    cases hs with
    | blank hb =>
      obtain ⟨rfl, rfl⟩ : _ = c ∧ rest = cs := by simpa [text] using ht
      rw [first, if_pos hb]
    | delimiter d =>
      obtain ⟨rfl, rfl⟩ : d.symbol = c ∧ rest = cs := by simpa [text] using ht
      simp [first, isBlank_symbol]
    | @quoted mark body _ hq hbody =>
      obtain ⟨rfl, rfl⟩ : mark = c ∧ body ++ mark :: rest = cs := by simpa [text] using ht
      obtain ⟨hblank, hdelim, -⟩ := of_isQuote hq
      simp [first, hblank, hdelim, hq, quoted_eq_ok_iff.2 ⟨hbody, rfl⟩]
    | @unterminated mark body hq hbody =>
      obtain ⟨rfl, rfl⟩ : mark = c ∧ body = cs := by simpa [text] using ht
      obtain ⟨hblank, hdelim, -⟩ := of_isQuote hq
      obtain ⟨e, he⟩ := exists_quoted_eq_error_iff.2 hbody
      simp [first, hblank, hdelim, hq, he]
    | @number digits _ hne hdigits hrest =>
      have hc : c.isDigit = true := by
        rcases digits with _ | ⟨d, digits⟩
        · exact absurd rfl hne
        · obtain ⟨rfl, -⟩ := List.cons.inj ht
          exact hdigits _ (List.mem_cons_self ..)
      obtain ⟨hblank, hdelim, hquote⟩ := of_isWordPart (isWordPart_iff.2 (.inr hc))
      have hnumber := number_eq_ok_iff.2 ⟨hne, ht.symm, hdigits, hrest⟩
      simp [first, hblank, hdelim, hquote, hnumber]
    | @word l ls _ hl hls hrest =>
      obtain ⟨rfl, rfl⟩ : l = c ∧ ls ++ rest = cs := by simpa [text] using ht
      obtain ⟨hblank, hdelim, hquote⟩ := of_isWordPart (isWordPart_iff.2 (.inl hl))
      obtain ⟨hfront, hback⟩ := takeWhile_dropWhile_iff.2 ⟨rfl, hls, hrest⟩
      have hword := word_cons_of_isLetter hl (ls ++ rest)
      rw [hfront, hback] at hword
      simp [first, hblank, hdelim, hquote, hword, Literal.number,
        isDigit_eq_false_of_isLetter hl]
    | @stray x _ hx =>
      obtain ⟨rfl, rfl⟩ : x = c ∧ rest = cs := by simpa [text] using ht
      simp only [isStray, Bool.not_eq_true', Bool.or_eq_false_iff] at hx
      obtain ⟨⟨⟨hblank, hdelim⟩, hquote⟩, hpart⟩ := hx
      have hletter : isLetter x = false ∧ x.isDigit = false := by
        rw [Bool.eq_false_iff, ne_eq, isWordPart_iff] at hpart
        simpa using hpart
      simp_all [first, Literal.number, Literal.word]

/-! ## The whole cut -/

theorem Stands.text_ne_nil {s : Segment} {rest : List Char} (h : s.Stands rest) :
    s.text ≠ [] := by
  cases h with
  | number hne => exact hne
  | blank | stray | delimiter | word | quoted | unterminated => exact List.cons_ne_nil _ _

/-- Each of the segments stands in front of the others. -/
def AllStand : List Segment → Prop
  | [] => True
  | s :: ss => s.Stands (ss.flatMap text) ∧ AllStand ss

theorem allStand_split (cs : List Char) : AllStand (split cs) := by
  induction cs using split.induct with
  | case1 => simp [AllStand]
  | case2 c cs ih =>
    rw [split_cons]
    refine ⟨?_, ih⟩
    rw [flatMap_text_split]
    exact stands_first c cs

/-- A text put together from segments that stand is cut into these segments. -/
theorem split_flatMap_text {ss : List Segment} (h : AllStand ss) :
    split (ss.flatMap text) = ss := by
  induction ss with
  | nil => simp
  | cons s ss ih =>
    obtain ⟨hs, hss⟩ := h
    rw [List.flatMap_cons]
    obtain ⟨c, cs, hc⟩ := List.exists_cons_of_ne_nil (List.append_ne_nil_of_left_ne_nil
      hs.text_ne_nil (ss.flatMap text))
    rw [hc, split_cons, first_eq_iff.2 ⟨hs, hc⟩, ih hss]

/-- **The cut of a source is the only list of segments that stand and make it up.** -/
theorem split_eq_iff {cs : List Char} {ss : List Segment} :
    split cs = ss ↔ AllStand ss ∧ ss.flatMap text = cs := by
  constructor
  · rintro rfl
    exact ⟨allStand_split cs, flatMap_text_split cs⟩
  · rintro ⟨h, rfl⟩
    exact split_flatMap_text h

/-! ## Places -/

/-- The tokens of placed segments. -/
def tokensOf (placed : List (Position × Segment)) : List Token :=
  placed.filterMap fun ps => ps.2.token? ps.1

/-- The text of placed segments. -/
def textOf (placed : List (Position × Segment)) : List Char :=
  placed.flatMap fun ps => ps.2.text

theorem textOf_place (p : Position) (ss : List Segment) :
    textOf (place p ss) = ss.flatMap text := by
  induction ss generalizing p with
  | nil => rfl
  | cons s ss ih =>
    rw [place, textOf, List.flatMap_cons, List.flatMap_cons]
    exact congrArg (s.text ++ ·) (ih _)

/-- A segment stands at the place reached by the segments before it. -/
theorem eq_advance_of_place_eq {p q : Position} {ss : List Segment}
    {passed ahead : List (Position × Segment)} {s : Segment}
    (h : place p ss = passed ++ (q, s) :: ahead) : q = p.advance (textOf passed) := by
  induction ss generalizing p passed with
  | nil => simp [place] at h
  | cons s' ss ih =>
    rcases passed with _ | ⟨ps, passed⟩
    · rw [place, List.nil_append, List.cons.injEq] at h
      exact (congrArg Prod.fst h.1).symm
    · rw [place, List.cons_append, List.cons.injEq] at h
      obtain ⟨rfl, h⟩ := h
      rw [ih h, textOf, textOf, List.flatMap_cons, Position.advance_append]

end Segment

/-- The tokens of a source are those of its segments, and then the mark of its end. -/
theorem tokens_lex (source : String) :
    (lex source).tokens =
      Segment.tokensOf (Segment.place .start (Segment.split source.toList)) ++
        [.finish (Position.start.advance source.toList)] :=
  rfl

/-! ## The measures of a place -/

theorem Position.offset_advance (p : Position) (cs : List Char) :
    (p.advance cs).offset = p.offset + (String.ofList cs).utf8ByteSize := by
  induction cs generalizing p with
  | nil => simp
  | cons c cs ih =>
    have hstep : (p.step c).offset = p.offset + c.utf8Size := by
      unfold Position.step
      split <;> rfl
    have hcons : String.ofList (c :: cs) = String.singleton c ++ String.ofList cs := by
      rw [String.singleton_eq_ofList, ← String.ofList_append, List.singleton_append]
    rw [Position.advance_cons, ih, hstep, hcons, String.utf8ByteSize_append,
      String.utf8ByteSize_singleton, Nat.add_assoc]

end StudyPlan
