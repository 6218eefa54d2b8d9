import Mathlib.Tactic.Choose
import StudyPlan.Proofs.Matching
import StudyPlan.Proofs.Relexing

/-!
# Tokens that are spelled out are read back

The tokens of a source, written one after the other with a space in between, make up another
source.  The layout of the old source is gone, and so is all that was wrong with its characters;
yet the tokens of the new source say what the old ones said (`lex_spellOut`).

## Spelling a token

Most tokens are their text.  Only a quoted text needs marks around it, and there may be any that
do not occur in the text itself; that there are such marks is known because the text was read
between marks once.  What is written in this way is a segment that may stand in front of a space
(`Spells.exists_segment`), and so the new source is cut into what it was put together from.

## Faults of brackets

Characters out of place are not written again, and neither is a text without its second mark.
Brackets are, and their faults with them.  These faults are told by the brackets alone, whatever
else stands in between and wherever they stand (`bracketFaultNames_congr`).
-/

namespace StudyPlan

open Segment

/-! ## What is said -/

/-- What a segment says, if it says anything. -/
def Segment.said? (s : Segment) : Option (Kind × String) :=
  (s.token? .start).map Token.said

theorem Segment.map_said_token? (s : Segment) (p : Position) :
    (s.token? p).map Token.said = s.said? := by
  cases s <;> rfl

theorem Segment.map_snd_place (p : Position) (ss : List Segment) :
    (place p ss).map Prod.snd = ss := by
  induction ss generalizing p with
  | nil => rfl
  | cons s ss ih => exact congrArg (s :: ·) (ih _)

theorem map_said_tokensOf (placed : List (Position × Segment)) :
    (tokensOf placed).map Token.said = (placed.map Prod.snd).filterMap said? := by
  rw [tokensOf, List.map_filterMap, List.filterMap_map]
  exact congrArg (placed.filterMap ·) (funext fun ps => map_said_token? ps.2 ps.1)

/-- The tokens of a source say what its segments say, and then that it ends. -/
theorem map_said_lex (source : String) :
    (lex source).tokens.map Token.said =
      (split source.toList).filterMap said? ++ [(.finish, "")] := by
  rw [tokens_lex, List.map_append, map_said_tokensOf, map_snd_place]
  rfl

/-! ## Faults of brackets -/

namespace Lexing

/-- The names of the faults that brackets are, in order. -/
def bracketFaultNames (l : Lexing) : List String :=
  (l.faults.filter fun f => f.cause.isBracket).map fun f => f.cause.name

/-- Inside the same brackets a segment leaves the same brackets and has the same fault, wherever
it stands. -/
theorem meet_congr {n n' : Nesting} (h : n.map Opening.bracket = n'.map Opening.bracket)
    (p q : Position) (s : Segment) :
    (meet n p s).1.map Opening.bracket = (meet n' q s).1.map Opening.bracket ∧
      (meet n p s).2.map (·.cause.name) = (meet n' q s).2.map (·.cause.name) := by
  cases s with
  | blank | number | word | quoted | stray | unterminated => exact ⟨h, rfl⟩
  | delimiter d =>
    rw [meet, meet]
    split
    · exact ⟨congrArg (d :: ·) h, rfl⟩
    · split
      · rcases n with _ | ⟨o, n⟩ <;> rcases n' with _ | ⟨o', n'⟩
        · exact ⟨rfl, rfl⟩
        · cases h
        · cases h
        · obtain ⟨hbracket, houter⟩ := List.cons.inj h
          rw [Nesting.close, Nesting.close, hbracket]
          split
          · exact ⟨houter, rfl⟩
          · exact ⟨h, rfl⟩
      · exact ⟨h, rfl⟩

theorem map_name_faultsFrom_congr {n n' : Nesting}
    (h : n.map Opening.bracket = n'.map Opening.bracket)
    {placed placed' : List (Position × Segment)}
    (hplaced : placed.map Prod.snd = placed'.map Prod.snd) :
    (faultsFrom n placed).map (·.cause.name) = (faultsFrom n' placed').map (·.cause.name) := by
  induction placed generalizing n n' placed' with
  | nil =>
    obtain rfl := List.map_eq_nil_iff.1 hplaced.symm
    rcases n with _ | ⟨o, n⟩ <;> rcases n' with _ | ⟨o', n'⟩ <;> first | rfl | cases h
  | cons ps placed ih =>
    obtain ⟨p, s⟩ := ps
    obtain ⟨⟨q, s'⟩, placed', rfl, rfl, hrest⟩ := List.map_eq_cons_iff.1 hplaced.symm
    obtain ⟨hnesting, hfault⟩ := meet_congr h p q s'
    have hfaults := congrArg Option.toList hfault
    rw [Option.toList_map, Option.toList_map] at hfaults
    rw [faultsFrom, faultsFrom, List.map_append, List.map_append, ih hnesting hrest.symm]
    exact congrArg (· ++ _) hfaults

/-- A bracket is the cause of what it is wrong with; what is no bracket is no fault of a bracket
and changes nothing. -/
theorem Met.filter_isBracket {n n' : Nesting} {p : Position} {s : Segment} {f? : Option Fault}
    (h : Met p n s n' f?) :
    (s.bracket?.isSome = true → f?.toList.filter (fun f => f.cause.isBracket) = f?.toList) ∧
      (s.bracket? = none → n' = n ∧ f?.toList.filter (fun f => f.cause.isBracket) = []) := by
  cases h with
  | plain hs =>
    refine ⟨fun h => by simp [hs] at h, fun _ => ⟨rfl, List.filter_eq_nil_iff.2 fun f hf => ?_⟩⟩
    exact Bool.eq_false_iff.1 (isBracket_ownFault? (Option.mem_toList.1 hf))
  | opened ho => exact ⟨fun _ => rfl, fun h => by simp [bracket?_delimiter (.inl ho)] at h⟩
  | closed hp =>
    exact ⟨fun _ => rfl, fun h => by simp [bracket?_delimiter (.inr hp.isClosing)] at h⟩
  | unexpected hc | mismatched hc =>
    exact ⟨fun _ => rfl, fun h => by simp [bracket?_delimiter (.inr hc)] at h⟩

/-- The faults of brackets are those of the placed brackets alone. -/
theorem filter_isBracket_faultsFrom (n : Nesting) (placed : List (Position × Segment)) :
    (faultsFrom n placed).filter (fun f => f.cause.isBracket) =
      faultsFrom n (placed.filter fun ps => ps.2.bracket?.isSome) := by
  induction placed generalizing n with
  | nil => rcases n with _ | ⟨o, n⟩ <;> rfl
  | cons ps placed ih =>
    obtain ⟨p, s⟩ := ps
    obtain ⟨hbracket, hplain⟩ := (met_meet n p s).filter_isBracket
    rw [faultsFrom, List.filter_append, ih, List.filter_cons]
    cases hs : s.bracket? with
    | none =>
      obtain ⟨hnesting, hfault⟩ := hplain hs
      rw [hnesting, hfault]
      rfl
    | some d =>
      rw [hbracket (by rw [hs]; rfl)]
      rfl

theorem map_snd_filter_bracket? (placed : List (Position × Segment)) :
    (placed.filter fun ps => ps.2.bracket?.isSome).map Prod.snd =
      (bracketsOf placed).map .delimiter := by
  induction placed with
  | nil => rfl
  | cons ps placed ih =>
    obtain ⟨p, s⟩ := ps
    rw [bracketsOf_cons, List.filter_cons]
    cases hs : s.bracket? with
    | none => exact ih
    | some d =>
      obtain rfl := eq_delimiter_of_bracket? hs
      exact congrArg (_ :: ·) ih

/-- **The brackets of a source tell which faults of brackets it has.** -/
theorem bracketFaultNames_congr {source source' : String}
    (h : (lex source).brackets = (lex source').brackets) :
    (lex source).bracketFaultNames = (lex source').bracketFaultNames := by
  rw [brackets_lex, brackets_lex] at h
  have hfilter (source : String) :=
    filter_isBracket_faultsFrom [] (place .start (split source.toList))
  rw [bracketFaultNames, bracketFaultNames, lex, lex, ofChars, ofChars]
  dsimp only
  rw [hfilter, hfilter]
  refine map_name_faultsFrom_congr rfl ?_
  rw [map_snd_filter_bracket?, map_snd_filter_bracket?, h]

end Lexing

/-- What the tokens say tells which brackets are among them. -/
theorem Lexing.brackets_congr {l l' : Lexing}
    (h : l.tokens.map Token.said = l'.tokens.map Token.said) : l.brackets = l'.brackets := by
  have hsaid (l : Lexing) : l.brackets =
      (l.tokens.map Token.said).filterMap fun said => Token.bracket? ⟨said.1, said.2, 0, 0⟩ := by
    rw [List.filterMap_map]
    rfl
  rw [hsaid, h, ← hsaid]

/-! ## Segments with blanks in between -/

theorem forall_mem_intersperse {α : Type} {P : α → Prop} {sep : α} {xs : List α} (hsep : P sep)
    (h : ∀ x ∈ xs, P x) : ∀ x ∈ xs.intersperse sep, P x := by
  fun_induction List.intersperse sep xs with
  | case1 => exact h
  | case2 => exact h
  | case3 x xs _ ih =>
    rw [List.forall_mem_cons] at h
    exact List.forall_mem_cons.2 ⟨h.1, List.forall_mem_cons.2 ⟨hsep, ih h.2⟩⟩

/-- A separator that is mapped to nothing leaves no trace. -/
theorem filterMap_intersperse {α β : Type} {f : α → Option β} {sep : α} (hsep : f sep = none)
    (xs : List α) : (xs.intersperse sep).filterMap f = xs.filterMap f := by
  fun_induction List.intersperse sep xs with
  | case1 => rfl
  | case2 => rfl
  | case3 x xs _ ih =>
    rw [List.filterMap_cons, List.filterMap_cons, hsep, ih, ← List.filterMap_cons]

theorem flatMap_intersperse {α β : Type} (f : α → List β) (sep : α) (xs : List α) :
    (xs.intersperse sep).flatMap f = (f sep).intercalate (xs.map f) := by
  fun_induction List.intersperse sep xs with
  | case1 => rfl
  | case2 x => rw [List.map_singleton, List.flatMap_singleton, List.intercalate_singleton]
  | case3 x xs hne ih =>
    rw [List.flatMap_cons, List.flatMap_cons, ih, List.map_cons,
      List.intercalate_cons_of_ne_nil fun hnil => hne (List.map_eq_nil_iff.1 hnil),
      List.append_assoc]

/-- Segments that may stand in front of a blank may stand with blanks in between. -/
theorem allStand_intersperse {b : Char} (hb : isBlank b = true) {ss : List Segment}
    (h : ∀ s ∈ ss, ∀ rest : List Char,
      (∀ c ∈ rest.head?, Literal.isWordPart c = false) → s.Stands rest) :
    AllStand (ss.intersperse (.blank b)) := by
  fun_induction List.intersperse (Segment.blank b) ss with
  | case1 => trivial
  | case2 s => exact ⟨h s (List.mem_singleton_self s) [] nofun, trivial⟩
  | case3 s ss _ ih =>
    rw [List.forall_mem_cons] at h
    refine ⟨h.1 _ ?_, .blank hb, ih h.2⟩
    rintro c ⟨⟩
    exact Literal.isWordPart_of_isBlank hb

/-! ## Spelling tokens -/

/-- How a token is written, texts with `mark` before and behind them. -/
def Token.spelling (mark : Char) (t : Token) : String :=
  if t.kind = .quoted then mark.toString ++ t.text ++ mark.toString else t.text

/-- The mark is a quotation mark that can stand around the text of the token, if it is to be
written with marks at all. -/
def Token.Marks (mark : Char) (t : Token) : Prop :=
  t.kind = .quoted → Literal.isQuote mark = true ∧ mark ∉ t.text.toList

instance (mark : Char) (t : Token) : Decidable (t.Marks mark) :=
  inferInstanceAs (Decidable (_ → _))

/-- The tokens that stand for something in a source, written with single spaces between them. -/
def spellOut (mark : Token → Char) (ts : List Token) : String :=
  " ".intercalate ((ts.filter fun t => !t.isFinish).map fun t => t.spelling (mark t))

/-- What a token is spelled like is a segment that says the same, and may stand in front of
anything that does not go on with a word. -/
theorem Spells.exists_segment {k : Kind} {text lexeme : List Char} (h : Spells k text lexeme) :
    ∃ s : Segment, s.text = lexeme ∧ s.said? = some (k, String.ofList text) ∧
      ∀ rest, (∀ c ∈ rest.head?, Literal.isWordPart c = false) → s.Stands rest := by
  cases h with
  | delimiter d => exact ⟨.delimiter d, rfl, rfl, fun rest _ => .delimiter d rest⟩
  | number hne hdigits =>
    exact ⟨.number _, rfl, rfl, fun rest hrest =>
      .number hne hdigits fun c hc => Literal.isDigit_eq_false_of_isWordPart (hrest c hc)⟩
  | word hc hcs => exact ⟨.word _, rfl, rfl, fun rest hrest => .word hc hcs hrest⟩
  | quoted hq hbody => exact ⟨.quoted _ _, rfl, rfl, fun rest _ => .quoted hq hbody⟩

/-- Only quoted texts are spelled with anything around them. -/
theorem Spells.lexeme_eq {k : Kind} {text lexeme : List Char} (h : Spells k text lexeme)
    (hk : k ≠ .quoted) : lexeme = text := by
  cases h with
  | delimiter | number | word => rfl
  | quoted => exact absurd rfl hk

/-- There is a quotation mark for a text that was read between quotation marks. -/
theorem Spells.exists_mark {k : Kind} {text lexeme : List Char} (h : Spells k text lexeme)
    (hk : k = .quoted) : ∃ mark, Literal.isQuote mark = true ∧ mark ∉ text := by
  cases h with
  | delimiter | number => cases hk
  | word => exact absurd hk (Kind.ofWord_ne rfl _)
  | quoted hq hbody => exact ⟨_, hq, hbody⟩

/-- A token that is spelled in some way is spelled with other marks, too. -/
theorem Spells.respell {t : Token} {lexeme : List Char} (h : Spells t.kind t.text.toList lexeme)
    {mark : Char} (hmark : t.Marks mark) :
    Spells t.kind t.text.toList (t.spelling mark).toList := by
  by_cases hk : t.kind = .quoted
  · obtain ⟨hq, hbody⟩ := hmark hk
    have hspelling : (t.spelling mark).toList = mark :: t.text.toList ++ [mark] := by
      simp [Token.spelling, hk]
    rw [hspelling, hk]
    exact .quoted hq hbody
  · obtain rfl := h.lexeme_eq hk
    rwa [Token.spelling, if_neg hk]

/-- The tokens of a source that stand for something are spelled in some way. -/
theorem exists_spells_of_mem_lex {source : String} {t : Token} (ht : t ∈ (lex source).tokens)
    (hfinish : t.isFinish = false) : ∃ lexeme, Spells t.kind t.text.toList lexeme := by
  obtain ⟨_, lexeme, _, -, hstand⟩ := exists_standsFor_of_mem_lex ht hfinish
  exact ⟨lexeme, hstand.spelled⟩

/-! ## Reading again -/

/-- What the tokens of a source say besides the end. -/
theorem map_said_filter_lex (source : String) :
    (lex source).tokens.map Token.said =
      ((lex source).tokens.filter fun t => !t.isFinish).map Token.said ++ [(.finish, "")] := by
  obtain ⟨tokens, htokens, hfinish, -⟩ := (Cut.explains_ofSegments source).tokens
  have hkept : tokens.filter (fun t => !t.isFinish) = tokens :=
    List.filter_eq_self.2 fun t ht => by rw [hfinish t ht]; rfl
  rw [htokens, List.map_append, List.filter_append, hkept,
    List.filter_eq_nil_iff.2 (by simp [Token.isFinish, Token.finish, Token.startingAt]),
    List.append_nil]
  rfl

/-- The tokens that are written are read as segments with a blank between each two of them. -/
theorem exists_split_spellOut {source : String} {mark : Token → Char}
    (hmark : ∀ t ∈ (lex source).tokens, t.Marks (mark t)) :
    ∃ segment : Token → Segment,
      split (spellOut mark (lex source).tokens).toList =
          (((lex source).tokens.filter fun t => !t.isFinish).map segment).intersperse
            (.blank ' ') ∧
        ∀ t ∈ (lex source).tokens.filter (fun t => !t.isFinish),
          (segment t).said? = some t.said := by
  have hsegment : ∀ t ∈ (lex source).tokens.filter (fun t => !t.isFinish),
      ∃ s : Segment, s.text = (t.spelling (mark t)).toList ∧ s.said? = some t.said ∧
        ∀ rest, (∀ c ∈ rest.head?, Literal.isWordPart c = false) → s.Stands rest := by
    intro t ht
    rw [List.mem_filter, Bool.not_eq_true'] at ht
    obtain ⟨lexeme, hspells⟩ := exists_spells_of_mem_lex ht.1 ht.2
    obtain ⟨s, htext, hsaid, hstands⟩ := (hspells.respell (hmark t ht.1)).exists_segment
    rw [String.ofList_toList] at hsaid
    exact ⟨s, htext, hsaid, hstands⟩
  have : Nonempty Segment := ⟨.blank ' '⟩
  choose! segment htext hsaid hstands using hsegment
  refine ⟨segment, split_eq_iff.2 ⟨?_, ?_⟩, hsaid⟩
  · exact allStand_intersperse rfl (List.forall_mem_map.2 hstands)
  · rw [flatMap_intersperse, spellOut, String.toList_intercalate, List.map_map, List.map_map]
    exact congrArg _ (List.map_congr_left htext)

/-- What says something is no fault by itself. -/
theorem Segment.ownFault?_eq_none {s : Segment} (h : s.said?.isSome = true) (p : Position) :
    Lexing.ownFault? p s = none := by
  cases s <;> first | rfl | cases h

/-- Where no segment is a fault by itself, only brackets are faults. -/
theorem isBracket_of_ownFaults {source : String}
    (h : ∀ s ∈ split source.toList, ∀ p, Lexing.ownFault? p s = none) :
    ∀ f ∈ (lex source).faults, f.cause.isBracket = true := by
  have hown : ((place .start (split source.toList)).filterMap fun ps =>
      Lexing.ownFault? ps.1 ps.2) = [] := by
    rw [List.filterMap_eq_nil_iff]
    intro ps hps
    refine h ps.2 ?_ ps.1
    rw [← map_snd_place .start (split source.toList)]
    exact List.mem_map_of_mem hps
  have hothers := Lexing.filter_faultsFrom (q := fun f => !f.cause.isBracket)
    (fun f hf => by rw [hf]; rfl) [] (place .start (split source.toList))
  rw [hown, List.filter_nil, List.filter_eq_nil_iff] at hothers
  intro f hf
  simpa using hothers f hf

/-- **Tokens that are spelled out are read back.**  Each quoted text of a source can be written
between marks.  Whichever marks are chosen, the tokens say the same when they are read again; no
character is out of place and no text unterminated then, and the faults of brackets are of the
same sorts as before. -/
theorem lex_spellOut (source : String) :
    (∀ t ∈ (lex source).tokens, ∃ mark, t.Marks mark) ∧
      ∀ mark : Token → Char, (∀ t ∈ (lex source).tokens, t.Marks (mark t)) →
        (lex (spellOut mark (lex source).tokens)).tokens.map Token.said =
            (lex source).tokens.map Token.said ∧
          (∀ f ∈ (lex (spellOut mark (lex source).tokens)).faults,
            f.isStray = false ∧ f.isUnterminated = false) ∧
          (lex (spellOut mark (lex source).tokens)).bracketFaultNames =
            (lex source).bracketFaultNames := by
  constructor
  · intro t ht
    by_cases hk : t.kind = .quoted
    · obtain ⟨lexeme, hspells⟩ := exists_spells_of_mem_lex ht (by simp [Token.isFinish, hk])
      obtain ⟨mark, hmark⟩ := hspells.exists_mark hk
      exact ⟨mark, fun _ => hmark⟩
    · exact ⟨'"', fun h => absurd h hk⟩
  · intro mark hmark
    obtain ⟨segment, hsplit, hsaid⟩ := exists_split_spellOut hmark
    have htokens : (lex (spellOut mark (lex source).tokens)).tokens.map Token.said =
        (lex source).tokens.map Token.said := by
      rw [map_said_lex, hsplit, filterMap_intersperse rfl, List.filterMap_map,
        map_said_filter_lex source, ← List.filterMap_eq_map]
      exact congrArg (· ++ _) (List.filterMap_congr hsaid)
    have hbrackets := Lexing.bracketFaultNames_congr (Lexing.brackets_congr htokens)
    refine ⟨htokens, fun f hf => ?_, hbrackets⟩
    have hbracket : f.cause.isBracket = true := by
      refine isBracket_of_ownFaults ?_ f hf
      rw [hsplit]
      refine forall_mem_intersperse (fun _ => rfl) (List.forall_mem_map.2 fun t ht => ?_)
      exact ownFault?_eq_none (by rw [hsaid t ht]; rfl)
    exact ⟨Fault.isStray_eq_false_of_isBracket hbracket,
      Fault.isUnterminated_eq_false_of_isBracket hbracket⟩

/-- Nothing is right here: a stray character, closing brackets too many and of the wrong pair,
texts with one of the marks in them, numbers and words without anything in between, and an open
bracket in front of a text that does not end. -/
def patchwork : String :=
  "#Carrera:\"it's\"\x7d[12aB3)'say \"a\"'tRuE;''(\"open"

/-- The tokens of this source spelled out, with double marks where they are possible. -/
def patchworkSpelled : String :=
  spellOut (fun t => Layout.plain.mark t.text) (lex patchwork).tokens

theorem lex_spellOut_patchwork :
    patchworkSpelled =
        "Carrera : \"it's\" \x7d [ 12 aB3 ) 'say \"a\"' tRuE ; \"\" (" ∧
      (lex patchwork).faults.length = 5 ∧
      (lex patchworkSpelled).tokens.map Token.said = (lex patchwork).tokens.map Token.said ∧
      (∀ f ∈ (lex patchworkSpelled).faults, f.isStray = false ∧ f.isUnterminated = false) ∧
      (lex patchworkSpelled).bracketFaultNames = (lex patchwork).bracketFaultNames ∧
      (lex patchwork).bracketFaultNames =
        ["UnexpectedClosing", "MismatchedClosing", "UnclosedOpening"] := by
  obtain ⟨htokens, hcharacters, hbrackets⟩ :=
    (lex_spellOut patchwork).2 (fun t => Layout.plain.mark t.text) (by decide +kernel)
  exact ⟨by decide +kernel, by decide +kernel, htokens, hcharacters, hbrackets, by decide +kernel⟩

end StudyPlan
