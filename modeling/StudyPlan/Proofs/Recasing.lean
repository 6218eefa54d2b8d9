import StudyPlan.Failure
import StudyPlan.Proofs.Acceptance
import StudyPlan.Proofs.Enclosure
import StudyPlan.Proofs.Resemblance

/-!
# Words have no case

The letters of words may be written in upper or in lower case, each of them as one likes.
A source that differs from another one in nothing else is the same plan, or wrong in the
same way and at the same place.

## Where letters may change

Only the letters of words may.  What stands between quotes is kept as it is written, and
case matters there.  Which characters belong to words is a question about the cut of the
source (`InWord`), and it would be of little use if the answer depended on the case of the
letters; but a source is cut at the same places whatever the case of its words
(`split_eq_of_recased`).

## From segments to plans

Segments at the same places stand for tokens at the same places.  Their kinds agree, since
the kind of a word has no case, and so do the faults, in which words have no part.  What
is left is to see that the grammar does not look at the case of a word either, and that is
what `Proofs.Resemblance` is about.
-/

namespace StudyPlan

/-! ## Letters -/

/-- The two are the same letter of ASCII, each in a case of its own. -/
def SameLetter (c c' : Char) : Prop :=
  c.isAlpha = true ∧ c'.isAlpha = true ∧ c.toLower = c'.toLower

instance (c c' : Char) : Decidable (SameLetter c c') := by
  unfold SameLetter
  infer_instance

/-- The same character, up to the case of a letter. -/
def SameUpToCase (c c' : Char) : Prop :=
  c = c' ∨ SameLetter c c'

theorem isLetter_of_isAlpha {c : Char} (h : c.isAlpha = true) : Literal.isLetter c = true := by
  simp [Literal.isLetter, h]

theorem isWordPart_of_isAlpha {c : Char} (h : c.isAlpha = true) :
    Literal.isWordPart c = true :=
  Literal.isWordPart_iff.2 (.inl (isLetter_of_isAlpha h))

theorem isDigit_eq_false_of_isAlpha {c : Char} (h : c.isAlpha = true) : c.isDigit = false :=
  Literal.isDigit_eq_false_of_isLetter (isLetter_of_isAlpha h)

theorem utf8Size_of_isAlpha {c : Char} (h : c.isAlpha = true) : c.utf8Size = 1 := by
  rw [Char.utf8Size_eq_one_iff]
  rcases Bool.or_eq_true_iff.1 h with hupper | hlower
  · exact UInt32.le_trans (of_decide_eq_true hupper).2 (by decide)
  · exact UInt32.le_trans (of_decide_eq_true (Bool.and_eq_true_iff.1 hlower).2) (by decide)

namespace SameUpToCase

variable {c c' : Char}

theorem toLower_eq (h : SameUpToCase c c') : c.toLower = c'.toLower := by
  rcases h with rfl | ⟨-, -, h⟩
  · rfl
  · exact h

theorem isLetter_eq (h : SameUpToCase c c') : Literal.isLetter c = Literal.isLetter c' := by
  rcases h with rfl | ⟨h, h', -⟩
  · rfl
  · rw [isLetter_of_isAlpha h, isLetter_of_isAlpha h']

theorem isWordPart_eq (h : SameUpToCase c c') : Literal.isWordPart c = Literal.isWordPart c' := by
  rcases h with rfl | ⟨h, h', -⟩
  · rfl
  · rw [isWordPart_of_isAlpha h, isWordPart_of_isAlpha h']

theorem isDigit_eq (h : SameUpToCase c c') : c.isDigit = c'.isDigit := by
  rcases h with rfl | ⟨h, h', -⟩
  · rfl
  · rw [isDigit_eq_false_of_isAlpha h, isDigit_eq_false_of_isAlpha h']

/-- Letters are as wide in the one case as in the other, and none ends a line. -/
theorem step_eq (h : SameUpToCase c c') (p : Position) : p.step c = p.step c' := by
  rcases h with rfl | ⟨h, h', -⟩
  · rfl
  · have hne : ∀ {d : Char}, d.isAlpha = true → d ≠ '\n' := by
      rintro d hd rfl
      exact absurd hd (by decide)
    rw [Position.step, Position.step, if_neg (hne h), if_neg (hne h'), utf8Size_of_isAlpha h,
      utf8Size_of_isAlpha h']

end SameUpToCase

/-- Two texts that agree up to the case of their letters. -/
abbrev SameText : List Char → List Char → Prop :=
  List.Forall₂ SameUpToCase

namespace SameText

variable {cs cs' : List Char}

theorem map_toLower_eq (h : SameText cs cs') : cs.map Char.toLower = cs'.map Char.toLower := by
  induction h with
  | nil => rfl
  | cons hc _ ih => rw [List.map_cons, List.map_cons, hc.toLower_eq, ih]

theorem sameWord (h : SameText cs cs') :
    sameWord (String.ofList cs) (String.ofList cs') = true := by
  rw [sameWord_iff, String.toList_ofList, String.toList_ofList, h.map_toLower_eq]

theorem advance_eq (h : SameText cs cs') (p : Position) : p.advance cs = p.advance cs' := by
  induction h generalizing p with
  | nil => rfl
  | cons hc _ ih => rw [Position.advance_cons, Position.advance_cons, hc.step_eq, ih]

/-- What no character at the front of the one text is, none at the front of the other is. -/
theorem head?_eq_false {P : Char → Bool} (hP : ∀ {c c'}, SameUpToCase c c' → P c = P c')
    (h : SameText cs cs') (hcs : ∀ c ∈ cs.head?, P c = false) : ∀ c ∈ cs'.head?, P c = false := by
  cases h with
  | nil => exact hcs
  | @cons c c' cs cs' hc _ =>
    rintro _ ⟨⟩
    rw [← hP hc]
    exact hcs c rfl

theorem forall_mem {P : Char → Bool} (hP : ∀ {c c'}, SameUpToCase c c' → P c = P c')
    (h : SameText cs cs') (hcs : ∀ c ∈ cs, P c = true) : ∀ c ∈ cs', P c = true := by
  induction h with
  | nil => exact hcs
  | cons hc _ ih =>
    rw [List.forall_mem_cons] at hcs ⊢
    exact ⟨hP hc ▸ hcs.1, ih hcs.2⟩

end SameText

/-! ## Words -/

theorem sameWord_comm (a b : String) : sameWord a b = sameWord b a := by
  rw [sameWord, sameWord, Bool.beq_comm]

theorem Kind.ofWord_congr {word word' : String} (h : sameWord word word' = true) :
    ofWord word = ofWord word' := by
  have hword : Keyword.ofWord? word = Keyword.ofWord? word' := by
    rw [Keyword.ofWord?, Keyword.ofWord?]
    refine congrArg (fun p => Keyword.all.find? p) (funext fun k => ?_)
    rw [sameWord_comm _ word, sameWord_comm _ word', sameWord_congr h]
  have htruth : truthValue? word = truthValue? word' := by
    rw [truthValue?, truthValue?, sameWord_congr h, sameWord_congr h]
  rw [ofWord, ofWord, hword, htruth]

namespace Segment

open Literal

/-- Is the segment a word? -/
def spellsWord : Segment → Bool
  | word _ => true
  | _ => false

/-- The segment to which the character with the number `i` belongs. -/
def covering? : List Segment → Nat → Option Segment
  | [], _ => none
  | s :: ss, i => if i < s.text.length then some s else covering? ss (i - s.text.length)

theorem covering?_of_lt {s : Segment} {i : Nat} (h : i < s.text.length) (ss : List Segment) :
    covering? (s :: ss) i = some s := if_pos h

theorem covering?_add (s : Segment) (ss : List Segment) (i : Nat) :
    covering? (s :: ss) (s.text.length + i) = covering? ss i := by
  rw [covering?, if_neg (by omega), Nat.add_sub_cancel_left]

/-- Two segments that differ at most in the case of a word. -/
inductive Recased : Segment → Segment → Prop
  | same (s : Segment) : Recased s s
  | word {letters letters' : List Char} :
      SameText letters letters' → Recased (.word letters) (.word letters')

theorem Recased.sameText {s s' : Segment} (h : s.Recased s') : SameText s.text s'.text := by
  cases h with
  | same => exact List.forall₂_same.2 fun _ _ => .inl rfl
  | word h => exact h

theorem sameText_flatMap {ss ss' : List Segment} (h : List.Forall₂ Recased ss ss') :
    SameText (ss.flatMap text) (ss'.flatMap text) := by
  induction h with
  | nil => exact .nil
  | cons hs _ ih =>
    rw [List.flatMap_cons, List.flatMap_cons]
    exact List.rel_append hs.sameText ih

/-- A recased segment stands in front of a recased text. -/
theorem Stands.of_recased {s s' : Segment} {rest rest' : List Char} (h : s.Stands rest)
    (hs : s.Recased s') (hrest : SameText rest rest') : s'.Stands rest' := by
  cases hs with
  | same =>
    cases h with
    | blank hc => exact .blank hc
    | stray hc => exact .stray hc
    | delimiter d => exact .delimiter d _
    | number hne hdigits hend =>
      exact .number hne hdigits (hrest.head?_eq_false SameUpToCase.isDigit_eq hend)
    | word hc hcs hend =>
      exact .word hc hcs (hrest.head?_eq_false SameUpToCase.isWordPart_eq hend)
    | quoted hq hbody => exact .quoted hq hbody
    | unterminated hq hbody =>
      cases hrest
      exact .unterminated hq hbody
  | word hletters =>
    cases h with
    | word hc hcs hend =>
      -- the first letter of a word must not be a digit, so it is looked at on its own
      cases hletters with
      | cons hcc' hcscs' =>
        have hcs' := SameText.forall_mem SameUpToCase.isWordPart_eq hcscs' hcs
        exact .word (hcc'.isLetter_eq ▸ hc) hcs'
          (hrest.head?_eq_false SameUpToCase.isWordPart_eq hend)

theorem allStand_of_recased {ss ss' : List Segment} (h : List.Forall₂ Recased ss ss')
    (hss : AllStand ss) : AllStand ss' := by
  induction h with
  | nil => exact hss
  | cons hs hsss ih => exact ⟨hss.1.of_recased hs (sameText_flatMap hsss), ih hss.2⟩

/-- A text that agrees with the text of a segment up to the case of letters, and all the
way if the segment is no word, is the text of a recased segment. -/
theorem exists_recased_of_text {s : Segment} {front : List Char}
    (h : List.Forall₂ (fun c c' => c = c' ∨ SameLetter c c' ∧ s.spellsWord = true) s.text front) :
    ∃ s', Recased s s' ∧ s'.text = front := by
  cases hs : s.spellsWord with
  | true =>
    cases s with
    | word letters => exact ⟨.word front, .word (h.imp fun _ _ hc => hc.imp_right (·.1)), rfl⟩
    | blank | stray | delimiter | number | quoted | unterminated => cases hs
  | false =>
    have heq : s.text = front := by
      rw [← List.forall₂_eq_eq_eq]
      refine h.imp fun c c' hc => ?_
      rcases hc with hc | ⟨-, hword⟩
      · exact hc
      · rw [hs] at hword
        cases hword
    exact ⟨s, .same s, heq⟩

/-- A text that agrees with the text of some segments, up to the case of letters of words,
is made up of recased segments. -/
theorem exists_recased_of_flatMap_text {ss : List Segment} {cs' : List Char}
    (hlength : (ss.flatMap text).length = cs'.length)
    (hchar : ∀ i, ∀ c ∈ (ss.flatMap text)[i]?, ∀ c' ∈ cs'[i]?,
      c = c' ∨ SameLetter c c' ∧ (covering? ss i).any spellsWord = true) :
    ∃ ss', List.Forall₂ Recased ss ss' ∧ ss'.flatMap text = cs' := by
  induction ss generalizing cs' with
  | nil => exact ⟨[], .nil, (List.eq_nil_of_length_eq_zero hlength.symm).symm⟩
  | cons s ss ih =>
    rw [List.flatMap_cons, List.length_append] at hlength
    rw [List.flatMap_cons] at hchar
    -- the characters of `cs'` that stand where the first segment stands
    have hfront : List.Forall₂ (fun c c' => c = c' ∨ SameLetter c c' ∧ s.spellsWord = true) s.text
        (cs'.take s.text.length) := by
      rw [List.forall₂_iff_get]
      refine ⟨by rw [List.length_take]; omega, fun i hi hi' => ?_⟩
      have hc := hchar i s.text[i] (by simp [List.getElem?_append_left hi])
        (cs'.take s.text.length)[i] (by simp)
      rwa [covering?_of_lt hi] at hc
    have hback : ∀ i, ∀ c ∈ (ss.flatMap text)[i]?, ∀ c' ∈ (cs'.drop s.text.length)[i]?,
        c = c' ∨ SameLetter c c' ∧ (covering? ss i).any spellsWord = true := by
      intro i c hc c' hc'
      rw [List.getElem?_drop] at hc'
      have hi := hchar (s.text.length + i) c (by simpa [List.getElem?_append_right] using hc) c' hc'
      rwa [covering?_add] at hi
    obtain ⟨s', hs, htext⟩ := exists_recased_of_text hfront
    obtain ⟨ss', hss, htexts⟩ := ih (by rw [List.length_drop]; omega) hback
    refine ⟨s' :: ss', .cons hs hss, ?_⟩
    rw [List.flatMap_cons, htext, htexts, List.take_append_drop]

end Segment

/-! ## Sources -/

/-- The character with the number `i` belongs to a word of the source. -/
def InWord (source : String) (i : Nat) : Prop :=
  (Segment.covering? (Segment.split source.toList) i).any Segment.spellsWord = true

instance (source : String) (i : Nat) : Decidable (InWord source i) :=
  inferInstanceAs (Decidable (_ = true))

/-- The second source is the first one with letters of words in another case. -/
structure Recased (s s' : String) : Prop where
  length : s.toList.length = s'.toList.length
  char : ∀ i, ∀ c ∈ s.toList[i]?, ∀ c' ∈ s'.toList[i]?,
    c = c' ∨ SameLetter c c' ∧ InWord s i

/-- Recased sources are cut at the same places. -/
theorem Recased.split {s s' : String} (h : Recased s s') :
    List.Forall₂ Segment.Recased (Segment.split s.toList) (Segment.split s'.toList) := by
  have htext := Segment.flatMap_text_split s.toList
  obtain ⟨ss', hss', htext'⟩ : ∃ ss', List.Forall₂ Segment.Recased (Segment.split s.toList) ss' ∧
      ss'.flatMap Segment.text = s'.toList := by
    apply Segment.exists_recased_of_flatMap_text
    · rw [htext]
      exact h.length
    · rw [htext]
      exact h.char
  have hstand := Segment.allStand_of_recased hss' (Segment.allStand_split s.toList)
  rwa [Segment.split_eq_iff.2 ⟨hstand, htext'⟩]

/-- Two tokens that differ at most in the case of a word. -/
structure Token.Recased (t t' : Token) : Prop where
  kind : t.kind = t'.kind
  line : t.line = t'.line
  column : t.column = t'.column
  text : t.text = t'.text ∨ t.kind.isWord = true ∧ sameWord t.text t'.text = true

theorem Token.Recased.refl (t : Token) : t.Recased t :=
  ⟨rfl, rfl, rfl, .inl rfl⟩

theorem Kind.isWord_ofWord (word : String) : (ofWord word).isWord = true := by
  unfold ofWord
  split
  · rfl
  · split <;> rfl

open Segment in
theorem forall₂_token_recased {ss ss' : List Segment} (h : List.Forall₂ Segment.Recased ss ss')
    (p : Position) :
    List.Forall₂ Token.Recased (tokensOf (place p ss)) (tokensOf (place p ss')) := by
  induction h generalizing p with
  | nil => exact .nil
  | @cons s s' ss ss' hs _ ih =>
    have ih := ih (p.advance s.text)
    rw [place, place, tokensOf, tokensOf, List.filterMap_cons, List.filterMap_cons,
      ← hs.sameText.advance_eq]
    cases hs with
    | same =>
      cases s.token? p with
      | none => exact ih
      | some t => exact .cons (.refl t) ih
    | word hletters =>
      have hword := hletters.sameWord
      exact .cons ⟨Kind.ofWord_congr hword, rfl, rfl, .inr ⟨Kind.isWord_ofWord _, hword⟩⟩ ih

open Segment in
/-- Words are no faults, and they leave the brackets alone. -/
theorem faultsFrom_eq_of_recased {ss ss' : List Segment}
    (h : List.Forall₂ Segment.Recased ss ss') (n : Nesting) (p : Position) :
    Lexing.faultsFrom n (place p ss) = Lexing.faultsFrom n (place p ss') := by
  induction h generalizing n p with
  | nil => rfl
  | @cons s s' ss ss' hs _ ih =>
    have hmeet : Lexing.meet n p s = Lexing.meet n p s' := by
      cases hs with
      | same => rfl
      | word => rfl
    rw [place, place, Lexing.faultsFrom, Lexing.faultsFrom, hmeet, ih, hs.sameText.advance_eq]

/-- The tokens of recased sources stand at the same places, and the faults are the same. -/
theorem Recased.lex {s s' : String} (h : Recased s s') :
    List.Forall₂ Token.Recased (lex s).tokens (lex s').tokens ∧
      (lex s).faults = (lex s').faults := by
  have hend : Position.start.advance s.toList = Position.start.advance s'.toList := by
    have htext := (Segment.sameText_flatMap h.split).advance_eq .start
    rwa [Segment.flatMap_text_split, Segment.flatMap_text_split] at htext
  constructor
  · refine List.rel_append (forall₂_token_recased h.split .start) ?_
    rw [hend]
    exact .cons (.refl _) .nil
  · exact faultsFrom_eq_of_recased h.split [] .start

/-! ## Plans -/

theorem interchangeable_recased : Interchangeable Token.Recased where
  kind h := h.kind
  text h hword := by
    rcases h.text with htext | ⟨hkind, -⟩
    · exact htext
    · rw [hword] at hkind
      cases hkind
  word h := by
    rcases h.text with htext | ⟨-, hword⟩
    · rw [htext, sameWord_iff]
    · exact hword

/-- Two syntax errors that differ at most in the case of a word that was found. -/
inductive SyntaxError.Recased : SyntaxError → SyntaxError → Prop
  | unexpected (wanted : Expectation) {found found' : Token} :
      found.Recased found' → Recased (.unexpected wanted found) (.unexpected wanted found')
  | endOfTokens (wanted : Expectation) : Recased (.endOfTokens wanted) (.endOfTokens wanted)
  | outOfRange (text : String) (line : Nat) :
      Recased (.outOfRange text line) (.outOfRange text line)

theorem SyntaxError.Resembles.recased {e e' : SyntaxError}
    (h : e.Resembles Token.Recased e') : e.Recased e' := by
  cases h with
  | unexpected wanted ht => exact .unexpected wanted ht
  | endOfTokens wanted => exact .endOfTokens wanted
  | outOfRange ht hk =>
    rw [ht.line, interchangeable_recased.text ht (by rw [hk]; rfl)]
    exact .outOfRange _ _

/-- Two outcomes of reading a source that differ at most in the case of a word that was
found where something else was wanted. -/
inductive Curriculum.SameOutcome :
    Except Failure Curriculum → Except Failure Curriculum → Prop
  | read (c : Curriculum) : SameOutcome (.ok c) (.ok c)
  | lexical (faults : List Fault) :
      SameOutcome (.error (.lexical faults)) (.error (.lexical faults))
  | grammar {e e' : SyntaxError} :
      e.Recased e' → SameOutcome (.error (.grammar e)) (.error (.grammar e'))

theorem eq_of_lineOf_recased (line line' : Nat) (h : LineOf Token.Recased line line') :
    line = line' := by
  obtain ⟨t, t', ht, rfl, rfl⟩ := h
  exact ht.line

/-- **Words have no case.**  The tokens of recased sources stand at the same places and
agree up to the case of words, the faults are the same, and so is the plan or what is wrong
with it. -/
theorem case_of_words_is_free {s s' : String} (h : Recased s s') :
    List.Forall₂ Token.Recased (lex s).tokens (lex s').tokens ∧
      (lex s).faults = (lex s').faults ∧
      Curriculum.SameOutcome (Curriculum.ofSource s) (Curriculum.ofSource s') := by
  obtain ⟨htokens, hfaults⟩ := h.lex
  refine ⟨htokens, hfaults, ?_⟩
  have hclean : (lex s).isClean = (lex s').isClean := by
    rw [Lexing.isClean, Lexing.isClean, hfaults]
  rw [Curriculum.ofSource, Curriculum.ofSource, ← hclean, ← hfaults]
  split
  · have hparallel := Parser.respects_entries interchangeable_recased _ _ htokens
    generalize hr : (Parser.entries (lex s).tokens).result = r at hparallel
    generalize hr' : (Parser.entries (lex s').tokens).result = r' at hparallel
    cases hparallel with
    | read hes _ =>
      obtain rfl := eq_of_forall₂_resembles eq_of_lineOf_recased hes
      rw [result_ofTokens_eq_ok_iff.2 ⟨_, _, hr, rfl⟩, result_ofTokens_eq_ok_iff.2 ⟨_, _, hr', rfl⟩]
      exact .read _
    | fail he =>
      rw [result_ofTokens_eq_error_iff.2 hr, result_ofTokens_eq_error_iff.2 hr']
      exact .grammar he.recased
  · exact .lexical _

/-- A plan in the usual spelling, with a text in quotes and a word in a wrong place. -/
def plainWords : String :=
  "Semestre: 1 \x7bCurso: 7 \x7bArea: 'A'; Obligatorio: true;\x7d\x7d Semestre Curso"

/-- The same plan in another spelling. -/
def mixedWords : String :=
  "semestre: 1 \x7bcURSO: 7 \x7bAREA: 'A'; obligatorio: TRUE;\x7d\x7d sEMESTRE CURSO"

theorem case_of_words_is_free_mixedWords :
    Recased plainWords mixedWords ∧
      Curriculum.SameOutcome (Curriculum.ofSource plainWords) (Curriculum.ofSource mixedWords) := by
  have hlength : plainWords.toList.length = mixedWords.toList.length := by decide +kernel
  have hchar : ∀ i < plainWords.toList.length, plainWords.toList[i]?.all fun c =>
      mixedWords.toList[i]?.all fun c' => c = c' ∨ SameLetter c c' ∧ InWord plainWords i := by
    decide +kernel
  have h : Recased plainWords mixedWords := by
    refine ⟨hlength, fun i c hc c' hc' => ?_⟩
    have hi := hchar i (List.getElem?_eq_some_iff.1 hc).1
    rw [Option.mem_def] at hc hc'
    simpa [hc, hc'] using hi
  exact ⟨h, (case_of_words_is_free h).2.2⟩

end StudyPlan
