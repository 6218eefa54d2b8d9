import Mathlib.Data.List.Induction
import StudyPlan.Proofs.Acceptance
import StudyPlan.Proofs.Enclosure

/-!
# Errors are noticed at once

A token list is given up at the first token that cannot be right, and at that token.  The
tokens before it leave the matter open: they make a plan, or they would if they went on.
The tokens behind it are of no consequence.

## 1.  One token more

All of this is said by comparing what a parser makes of some tokens with what it makes of
the same tokens and one more (`Extends`).  There are three possibilities.

* The parser had read what it wanted, and still reads it.  The new token is left.
* A token was to blame, and still is.
* The parser had looked at all the tokens, either to read them or to ask for more.  Then
  the new token is looked at too; if it is to blame for anything, it is the first one.

A parser for which one of the three holds wherever one more token comes is `Prompt`.

## 2.  Why there is no fourth possibility

A parser that read a value and left tokens may not change its mind when more come.
Looking at the token behind the title of a program is the only look ahead in the language,
and where there is no such token yet, all tokens have been looked at.  It is also why
`Prompt` asks for something at the empty list (`Prompt.quiet`): a parser that follows
another one may find nothing left, and then it must wait and not complain.

## 3.  What is wanted at the end

Only `lead` would ask for a token without saying which, and it is never at the end.
-/

namespace StudyPlan
namespace SyntaxError

/-- Is a token to blame?  Otherwise the tokens have just ended too early. -/
def isFinal : SyntaxError → Bool
  | endOfTokens _ => false
  | unexpected _ _ | outOfRange _ _ => true

/-- The error is about this token. -/
def Blames : SyntaxError → Token → Prop
  | unexpected _ found, t => found = t
  | outOfRange text line, t => t.kind = .number ∧ t.text = text ∧ t.line = line
  | endOfTokens _, _ => False

end SyntaxError

/-- No token is to blame, as far as the tokens go. -/
def Undecided {α : Type} (r : Except SyntaxError α) : Prop :=
  ∀ e, r = .error e → e.isFinal = false

namespace Parser

open StudyPlan.Derivation

variable {α β σ : Type}

/-! ## One token more -/

/-- All tokens were looked at: they were read to the last one, or another one was
wanted. -/
def Exhausted : Except SyntaxError (α × List Token) → Prop
  | .ok (_, rest) => rest = []
  | .error e => e.isFinal = false

/-- What the token `t` behind the others may make of the outcome `r`. -/
inductive Extends (t : Token) :
    Except SyntaxError (α × List Token) → Except SyntaxError (α × List Token) → Prop
  | left (a : α) (rest : List Token) : Extends t (.ok (a, rest)) (.ok (a, rest ++ [t]))
  | final {e : SyntaxError} : e.isFinal = true → Extends t (.error e) (.error e)
  | more {r r' : Except SyntaxError (α × List Token)} :
      Exhausted r → Exhausted r' → Extends t r r'
  | blamed {r : Except SyntaxError (α × List Token)} {e : SyntaxError} :
      Exhausted r → e.Blames t → Extends t r (.error e)

/-- One more token never changes what the parser had settled, and it never goes
unnoticed when nothing was settled. -/
structure Prompt (p : Parser α) : Prop where
  /-- Where there is no token, none is to blame. -/
  quiet : Exhausted (p []).result
  extend : ∀ ts t, Extends t (p ts).result (p (ts ++ [t])).result

theorem Exhausted.undecided {r : Except SyntaxError (α × List Token)} (h : Exhausted r) :
    Undecided r := by
  rintro e rfl
  exact h

/-- Behind a parser that has looked at all tokens, the next one finds none. -/
theorem Exhausted.bind {p : Parser α} {f : α → Parser β} {ts : List Token}
    (h : Exhausted (p ts).result) (hf : ∀ a, Exhausted (f a []).result) :
    Exhausted ((p >>= f) ts).result := by
  rw [bind_apply]
  rcases hr : p ts with ⟨log, e | ⟨a, rest⟩⟩
  · rwa [hr] at h
  · rw [hr] at h
    obtain rfl : rest = [] := h
    exact hf a

/-- What one more token makes of a sequence.  Of the second parser it only matters what
it does where the first one left the token. -/
theorem Extends.bind {p : Parser α} {f : α → Parser β} {ts : List Token} {t : Token}
    (h : Extends t (p ts).result (p (ts ++ [t])).result) (hquiet : ∀ a, Exhausted (f a []).result)
    (hf : ∀ a rest, (p ts).result = .ok (a, rest) →
      Extends t (f a rest).result (f a (rest ++ [t])).result) :
    Extends t ((p >>= f) ts).result ((p >>= f) (ts ++ [t])).result := by
  generalize hr : (p ts).result = r at h
  generalize hr' : (p (ts ++ [t])).result = r' at h
  cases h with
  | left a rest =>
    rw [result_bind_of_ok hr, result_bind_of_ok hr']
    exact hf a rest hr
  | final he =>
    rw [result_bind_of_error hr, result_bind_of_error hr']
    exact .final he
  | more hx hx' =>
    subst hr hr'
    exact .more (hx.bind hquiet) (hx'.bind hquiet)
  | blamed hx hb =>
    subst hr
    rw [result_bind_of_error hr']
    exact .blamed (hx.bind hquiet) hb

/-! ## Sequences and single tokens -/

theorem prompt_pure (a : α) : Prompt (pure a : Parser α) where
  quiet := rfl
  extend ts _ := .left a ts

theorem prompt_emit (e : Event) : Prompt (emit e) where
  quiet := rfl
  extend ts _ := .left () ts

theorem prompt_emitAll (es : List Event) : Prompt (emitAll es) where
  quiet := rfl
  extend ts _ := .left () ts

theorem Prompt.bind {p : Parser α} {f : α → Parser β} (hp : Prompt p) (hf : ∀ a, Prompt (f a)) :
    Prompt (p >>= f) where
  quiet := hp.quiet.bind fun a => (hf a).quiet
  extend ts t := (hp.extend ts t).bind (fun a => (hf a).quiet) fun a rest _ =>
    (hf a).extend rest t

/-- A parser that reads the next token or does not like it, and looks no further. -/
theorem prompt_of_next {p : Parser α} (hnil : Exhausted (p []).result)
    (hcons : ∀ t, (∃ a, ∀ ts, (p (t :: ts)).result = .ok (a, ts)) ∨
      ∃ e, (e.isFinal = true → e.Blames t) ∧ ∀ ts, (p (t :: ts)).result = .error e) :
    Prompt p where
  quiet := hnil
  extend := by
    rintro (_ | ⟨u, ts⟩) t
    · rw [List.nil_append]
      rcases hcons t with ⟨a, h⟩ | ⟨e, hblames, h⟩
      · rw [h []]
        exact .more hnil rfl
      · rw [h []]
        cases he : e.isFinal with
        | true => exact .blamed hnil (hblames he)
        | false => exact .more hnil he
    · rw [List.cons_append]
      rcases hcons u with ⟨a, h⟩ | ⟨e, -, h⟩
      · rw [h, h]
        exact .left a ts
      · rw [h, h]
        cases he : e.isFinal with
        | true => exact .final he
        | false => exact .more he he

theorem prompt_lead : Prompt lead :=
  prompt_of_next rfl fun t => .inl ⟨t, fun _ => rfl⟩

theorem prompt_token (kind : Kind) (wanted : Expectation) : Prompt (token kind wanted) := by
  refine prompt_of_next rfl fun t => ?_
  cases hf : t.isFinish with
  | true => exact .inr ⟨.endOfTokens wanted, nofun, fun ts => by simp [token, hf]⟩
  | false =>
    by_cases hk : t.kind = kind
    · exact .inl ⟨t, fun ts => by simp [token, hf, hk]⟩
    · exact .inr ⟨.unexpected wanted t, fun _ => rfl, fun ts => by simp [token, hf, hk]⟩

theorem prompt_delimiter (d : Delimiter) (wanted : Expectation) : Prompt (delimiter d wanted) :=
  prompt_token _ _

theorem prompt_quoted (wanted : Expectation) : Prompt (quoted wanted) :=
  (prompt_token _ _).bind fun _ => prompt_pure _

theorem prompt_numeral (wanted : Expectation) : Prompt (numeral wanted) :=
  (prompt_token _ _).bind fun _ => prompt_pure _

theorem prompt_boolean (wanted : Expectation) : Prompt (boolean wanted) :=
  (prompt_token _ _).bind fun _ => prompt_pure _

/-- A number that is out of range is given up by a parser of its own, which blames no
token by itself.  It has to be seen together with the token before it. -/
theorem prompt_number (wanted : Expectation) : Prompt (number wanted) := by
  refine prompt_of_next rfl fun t => ?_
  cases hf : t.isFinish with
  | true =>
    exact .inr ⟨.endOfTokens wanted, nofun, fun ts => by simp [number, bind_apply, token, hf]⟩
  | false =>
    by_cases hk : t.kind = .number
    · cases hv : Numeral.toUInt32? t.text with
      | some n => exact .inl ⟨n, fun ts => by simp [number, bind_apply, token, hf, hk, hv]⟩
      | none =>
        exact .inr ⟨.outOfRange t.text t.line, fun _ => ⟨hk, rfl, rfl⟩,
          fun ts => by simp [number, bind_apply, token, hf, hk, hv]⟩
    · exact .inr ⟨.unexpected wanted t, fun _ => rfl,
        fun ts => by simp [number, bind_apply, token, hf, hk]⟩

/-! ## Bodies -/

theorem Exhausted.map {r : Except SyntaxError (α × List Token)} (h : Exhausted r) (f : α → β) :
    Exhausted (r.map fun (a, rest) => (f a, rest)) := by
  rcases r with e | ⟨a, rest⟩ <;> exact h

theorem Extends.map {t : Token} {r r' : Except SyntaxError (α × List Token)}
    (h : Extends t r r') (f : α → β) :
    Extends t (r.map fun (a, rest) => (f a, rest)) (r'.map fun (a, rest) => (f a, rest)) := by
  cases h with
  | left a rest => exact .left (f a) rest
  | final he => exact .final he
  | more hx hx' => exact .more (hx.map f) (hx'.map f)
  | blamed hx hb => exact .blamed (hx.map f) hb

variable {name : String} {table : Token → Action σ} {ending : Ending} {enter : σ → Parser α}
  {Part : List Token → α → List Token → Prop} {Passed : Token → Prop}

theorem exhausted_bodyEnd_nil :
    Exhausted (bodyEnd name ending [] : Logged SyntaxError (List α × List Token)).result := by
  cases ending <;> rfl

/-- At a mark of the end it makes no difference what comes behind the mark. -/
theorem extends_bodyEnd (ts : List Token) (t : Token) :
    Extends t (bodyEnd name ending ts : Logged SyntaxError (List α × List Token)).result
      (bodyEnd name ending (ts ++ [t])).result := by
  cases ending with
  | anywhere => exact .left [] ts
  | closedBy d => exact .more rfl rfl

/-- What a prompt parser makes of a single token, when it does not leave it. -/
theorem Prompt.single {p : Parser α} (hp : Prompt p) {t : Token}
    (hread : ∀ a rest, (p [t]).result = .ok (a, rest) → rest = []) :
    Exhausted (p [t]).result ∨ ∃ e, e.Blames t ∧ (p [t]).result = .error e := by
  have hquiet := hp.quiet
  have h := hp.extend [] t
  rw [List.nil_append] at h
  generalize (p []).result = r at h hquiet
  generalize (p [t]).result = r' at h hread
  cases h with
  | left a rest => exact .inl (hread a _ rfl)
  | final he => exact .inl hquiet
  | more _ hx => exact .inl hx
  | blamed _ hb => exact .inr ⟨_, hb, rfl⟩

/-- A body is prompt when its parts are. -/
theorem prompt_body (hfit : Fits table enter Part Passed) (henter : ∀ what, Prompt (enter what)) :
    Prompt (body name table ending enter) := by
  have hquiet : Exhausted (body name table ending enter []).result := by
    rw [body_nil]
    exact exhausted_bodyEnd_nil
  refine ⟨hquiet, fun ts u => ?_⟩
  induction ts using body_rounds hfit with
  | nil =>
    -- the new token is the first one, and the body has yet to look at it
    rw [List.nil_append]
    cases hu : u.isFinish with
    | true =>
      rw [body_nil, body_finish hu]
      exact extends_bodyEnd [] u
    | false =>
      cases htable : table u with
      | close =>
        rw [body_close hu htable]
        exact .more hquiet rfl
      | skip =>
        rw [body_skip hu htable]
        exact .more hquiet hquiet
      | enter what =>
        rw [body_enter hfit hu htable]
        have hread : ∀ a rest, (enter what [u]).result = .ok (a, rest) → rest = [] :=
          fun a rest h => List.suffix_nil.1 (hfit.suffix hu htable h)
        rcases (henter what).single hread with hx | ⟨e, hb, he⟩
        · exact .more hquiet (hx.bind fun a => hquiet.map (a :: ·))
        · rw [result_bind_of_error he]
          exact .blamed hquiet hb
  | finish t ts ht =>
    rw [List.cons_append, body_finish ht, body_finish ht]
    exact extends_bodyEnd (t :: ts) u
  | close t ts ht hclose =>
    rw [List.cons_append, body_close ht hclose, body_close ht hclose]
    exact .left [] ts
  | skip t ts ht hskip ih =>
    rw [List.cons_append, body_skip ht hskip, body_skip ht hskip]
    exact ih
  | part t ts what ht hwhat ih =>
    rw [List.cons_append, body_enter hfit ht hwhat, body_enter hfit ht hwhat]
    exact ((henter what).extend (t :: ts) u).bind (fun a => hquiet.map (a :: ·))
      fun a rest h => (ih a rest h).map (a :: ·)

/-! ## Constructs -/

theorem prompt_prerequisites : Prompt prerequisites :=
  (prompt_delimiter _ _).bind fun _ =>
    prompt_body (fits_prerequisites _) fun _ => prompt_numeral _

theorem prompt_fieldEnd (f : Field) : Prompt (fieldEnd f) := prompt_delimiter _ _

theorem prompt_fieldValue (f : Field) (line : Nat) : Prompt (fieldValue f line) := by
  cases f with
  | name | code | description | area =>
    exact (prompt_quoted _).bind fun _ => (prompt_fieldEnd _).bind fun _ => prompt_pure _
  | credits =>
    exact (prompt_number _).bind fun _ => (prompt_fieldEnd _).bind fun _ => prompt_pure _
  | mandatory =>
    exact (prompt_boolean _).bind fun _ => (prompt_fieldEnd _).bind fun _ => prompt_pure _
  | prerequisites => exact prompt_prerequisites.bind fun _ => prompt_pure _

theorem prompt_field (f : Field) : Prompt (field f) :=
  prompt_lead.bind fun _ => (prompt_delimiter _ _).bind fun _ => prompt_fieldValue _ _

theorem prompt_course (n : UInt32) : Prompt (course n) :=
  prompt_lead.bind fun _ => (prompt_delimiter _ _).bind fun _ =>
    (prompt_numeral _).bind fun _ => (prompt_delimiter _ _).bind fun _ =>
    (prompt_emit _).bind fun _ => (prompt_body fits_course prompt_field).bind fun _ =>
    (prompt_emitAll _).bind fun _ => (prompt_emit _).bind fun _ => prompt_pure _

theorem prompt_semester : Prompt semester :=
  prompt_lead.bind fun _ => (prompt_delimiter _ _).bind fun _ =>
    (prompt_number _).bind fun _ => (prompt_delimiter _ _).bind fun _ =>
    (prompt_emit _).bind fun _ =>
    (prompt_body (fits_semester _) fun _ => prompt_course _).bind fun _ =>
    (prompt_emit _).bind fun _ => prompt_pure _

/-- Behind a title a bracket may still come, so a title at the end of the tokens settles
nothing. -/
theorem prompt_programBody : Prompt programBody := by
  have hbody : Prompt (body "the program" Table.program .anywhere fun _ => semester) :=
    prompt_body fits_program fun _ => prompt_semester
  refine ⟨rfl, ?_⟩
  rintro (_ | ⟨u, ts⟩) t
  · rw [List.nil_append]
    by_cases hk : t.isDelimiter .openBracket = true
    · rw [programBody, programBody, if_pos hk]
      exact .more rfl hbody.quiet
    · rw [programBody, programBody, if_neg hk]
      exact .left [] []
  · rw [List.cons_append]
    by_cases hk : u.isDelimiter .openBracket = true
    · rw [programBody, programBody, if_pos hk, if_pos hk]
      exact hbody.extend ts t
    · rw [programBody, programBody, if_neg hk, if_neg hk]
      exact .left [] (u :: ts)

theorem prompt_program : Prompt program :=
  prompt_lead.bind fun _ => (prompt_delimiter _ _).bind fun _ =>
    (prompt_quoted _).bind fun _ => (prompt_emit _).bind fun _ =>
    prompt_programBody.bind fun _ => prompt_pure _

theorem prompt_entry (what : TopLevel) : Prompt (entry what) := by
  cases what with
  | program => exact prompt_program.bind fun _ => prompt_pure _
  | semester => exact prompt_semester.bind fun _ => prompt_pure _

theorem prompt_entries : Prompt entries := prompt_body fits_plan prompt_entry

/-! ## Many tokens more -/

/-- Where a token is to blame, nothing that follows can help. -/
theorem Prompt.error_append {p : Parser α} (hp : Prompt p) {ts : List Token} {e : SyntaxError}
    (he : e.isFinal = true) (h : (p ts).result = .error e) (later : List Token) :
    (p (ts ++ later)).result = .error e := by
  induction later using List.reverseRecOn with
  | nil => rwa [List.append_nil]
  | append_singleton later t ih =>
    have hstep := hp.extend (ts ++ later) t
    rw [ih, List.append_assoc] at hstep
    generalize (p (ts ++ (later ++ [t]))).result = r' at hstep ⊢
    cases hstep with
    | final => rfl
    | more hx | blamed hx =>
      rw [Exhausted, he] at hx
      cases hx

/-- As long as no token is to blame, none was to blame earlier. -/
theorem Prompt.undecided_of_isPrefix {p : Parser α} (hp : Prompt p) {us ts : List Token}
    (hfront : us <+: ts) (h : Undecided (p ts).result) : Undecided (p us).result := by
  obtain ⟨later, rfl⟩ := hfront
  intro e he
  by_contra hfinal
  have hfinal : e.isFinal = true := by simpa using hfinal
  have hlater := h e (hp.error_append hfinal he later)
  rw [hfinal] at hlater
  cases hlater

/-- A token that is to blame is the first one that is. -/
theorem Prompt.exists_blamed {p : Parser α} (hp : Prompt p) {ts : List Token} {e : SyntaxError}
    (he : e.isFinal = true) (h : (p ts).result = .error e) :
    ∃ before t later, ts = before ++ t :: later ∧ e.Blames t ∧
      Undecided (p before).result ∧ (p (before ++ [t])).result = .error e := by
  induction ts using List.reverseRecOn with
  | nil =>
    have hquiet := hp.quiet
    rw [h, Exhausted, he] at hquiet
    cases hquiet
  | append_singleton ts t ih =>
    have hstep := hp.extend ts t
    rw [h] at hstep
    generalize hr : (p ts).result = r at hstep
    cases hstep with
    | final =>
      obtain ⟨before, u, later, rfl, hrest⟩ := ih hr
      exact ⟨before, u, later ++ [t], by simp, hrest⟩
    | more _ hx =>
      rw [Exhausted, he] at hx
      cases hx
    | blamed hx hb =>
      refine ⟨ts, t, [], rfl, hb, ?_, h⟩
      rw [hr]
      exact hx.undecided

end Parser

/-! ## What is wanted at the end -/

/-- What was wanted is said, and not only that something was. -/
def Expectation.IsSpecific (wanted : Expectation) : Prop :=
  wanted.message ≠ "Expected a token"

instance (wanted : Expectation) : Decidable wanted.IsSpecific :=
  inferInstanceAs (Decidable (_ ≠ _))

theorem expected_quote_ne (s : String) : "Expected '" ++ s ≠ "Expected a token" := by
  intro h
  have hmark := congrArg (fun s => s.toList[9]?) h
  rw [String.toList_append, List.getElem?_append_left (by decide)] at hmark
  revert hmark
  decide

theorem Expectation.isSpecific_symbolAfter (d : Delimiter) (place : String) :
    (symbolAfter d place).IsSpecific := by
  rw [IsSpecific, message]
  simp only [String.append_assoc]
  exact expected_quote_ne _

theorem Expectation.isSpecific_closing (d : Delimiter) (construct : String) :
    (closing d construct).IsSpecific := by
  rw [IsSpecific, message]
  simp only [String.append_assoc]
  exact expected_quote_ne _

theorem Expectation.isSpecific_item_value (f : Field) : (item f.value).IsSpecific := by
  cases f <;> decide

/-- If the tokens have ended too early, the error says what was wanted, and a number that it says
is out of range is so. -/
def SyntaxError.IsSpecific : SyntaxError → Prop
  | endOfTokens wanted => wanted.IsSpecific
  | unexpected _ _ => True
  | outOfRange text _ => Numeral.toUInt32? text = none

namespace Parser

open Expectation StudyPlan.Derivation

variable {α β σ : Type}

/-- Every error of the parser is to the point. -/
def Specific (p : Parser α) : Prop :=
  Meets (fun _ => True) p (fun _ _ => True) SyntaxError.IsSpecific

/-- Every error of the parser is to the point, where there is a token ahead. -/
def SpecificAhead (p : Parser α) : Prop :=
  Meets (Behind fun _ => True) p (fun _ _ => True) SyntaxError.IsSpecific

theorem specific_pure (a : α) : Specific (pure a : Parser α) := meets_pure _ fun _ h => h

theorem specific_emit (e : Event) : Specific (emit e) := meets_emit e

theorem specific_emitAll (es : List Event) : Specific (emitAll es) := meets_emitAll es

theorem Specific.bind {p : Parser α} {f : α → Parser β} (hp : Specific p)
    (hf : ∀ a, Specific (f a)) : Specific (p >>= f) :=
  Meets.bind hp hf

theorem specificAhead_lead_bind {f : Token → Parser α} (hf : ∀ t, Specific (f t)) :
    SpecificAhead (lead >>= f) :=
  meets_lead.bind hf

theorem specific_token (kind : Kind) {wanted : Expectation} (h : wanted.IsSpecific) :
    Specific (token kind wanted) :=
  meets_token (fun _ _ h _ _ => h) (fun _ _ h _ _ => h) fun _ _ _ => h

theorem specific_number {wanted : Expectation} (h : wanted.IsSpecific) :
    Specific (number wanted) := by
  refine (specific_token _ h).bind fun t => ?_
  split
  · exact specific_pure _
  · next hnone => exact meets_fail hnone

theorem specific_body {name : String} {table : Token → Action σ} {ending : Ending}
    {enter : σ → Parser α} {Part : List Token → α → List Token → Prop} {Passed : Token → Prop}
    (hfit : Fits table enter Part Passed) (henter : ∀ what, SpecificAhead (enter what)) :
    Specific (body name table ending enter) := by
  refine Meets.body hfit ?_ (fun _ _ _ _ h => h) (fun _ _ _ _ h => h) ?_
  · intro ts _ _
    cases ending with
    | anywhere => trivial
    | closedBy d => exact isSpecific_closing d name
  · intro t ts what _ _ _
    exact (henter what).mono (fun _ h => ⟨t, ts, h, trivial⟩) (fun _ _ h => h) fun _ h => h

theorem Specific.ahead {p : Parser α} (h : Specific p) : SpecificAhead p :=
  h.mono (fun _ _ => trivial) (fun _ _ h => h) fun _ h => h

theorem specific_prerequisites : Specific prerequisites := by
  refine (specific_token _ (isSpecific_symbolAfter _ _)).bind fun _ => ?_
  refine specific_body (fits_prerequisites _) fun _ => ?_
  exact ((specific_token _ (by decide)).bind fun _ => specific_pure _).ahead

theorem specific_fieldEnd (f : Field) : Specific (fieldEnd f) :=
  specific_token _ (isSpecific_symbolAfter _ _)

theorem specific_fieldValue (f : Field) (line : Nat) : Specific (fieldValue f line) := by
  have hvalue := isSpecific_item_value f
  cases f with
  | name | code | description | area | mandatory =>
    exact ((specific_token _ hvalue).bind fun _ => specific_pure _).bind fun _ =>
      (specific_fieldEnd _).bind fun _ => specific_pure _
  | credits =>
    exact (specific_number hvalue).bind fun _ => (specific_fieldEnd _).bind fun _ =>
      specific_pure _
  | prerequisites => exact specific_prerequisites.bind fun _ => specific_pure _

theorem specificAhead_field (f : Field) : SpecificAhead (field f) :=
  specificAhead_lead_bind fun _ => (specific_token _ (isSpecific_symbolAfter _ _)).bind fun _ =>
    specific_fieldValue _ _

theorem specificAhead_course (n : UInt32) : SpecificAhead (course n) := by
  refine specificAhead_lead_bind fun _ => ?_
  refine (specific_token _ (isSpecific_symbolAfter _ _)).bind fun _ => ?_
  refine ((specific_token _ (by decide)).bind fun _ => specific_pure _).bind fun code => ?_
  refine (specific_token _ (isSpecific_symbolAfter _ _)).bind fun _ => ?_
  refine (specific_emit _).bind fun _ => ?_
  refine (specific_body fits_course specificAhead_field).bind fun _ => ?_
  exact (specific_emitAll _).bind fun _ => (specific_emit _).bind fun _ => specific_pure _

theorem specificAhead_semester : SpecificAhead semester := by
  refine specificAhead_lead_bind fun _ => ?_
  refine (specific_token _ (isSpecific_symbolAfter _ _)).bind fun _ => ?_
  refine (specific_number (by decide)).bind fun n => ?_
  refine (specific_token _ (isSpecific_symbolAfter _ _)).bind fun _ => ?_
  refine (specific_emit _).bind fun _ => ?_
  refine (specific_body (fits_semester n) fun _ => specificAhead_course n).bind fun _ => ?_
  exact (specific_emit _).bind fun _ => specific_pure _

theorem specific_programBody : Specific programBody := by
  rintro (_ | ⟨t, ts⟩) -
  · trivial
  · by_cases hk : t.isDelimiter .openBracket = true
    · rw [programBody, if_pos hk]
      exact specific_body fits_program (fun _ => specificAhead_semester) ts trivial
    · rw [programBody, if_neg hk]
      trivial

theorem specificAhead_program : SpecificAhead program := by
  refine specificAhead_lead_bind fun _ => ?_
  refine (specific_token _ (isSpecific_symbolAfter _ _)).bind fun _ => ?_
  refine ((specific_token _ (by decide)).bind fun _ => specific_pure _).bind fun _ => ?_
  exact (specific_emit _).bind fun _ => specific_programBody.bind fun _ => specific_pure _

theorem specificAhead_entry (what : TopLevel) : SpecificAhead (entry what) := by
  cases what with
  | program => exact Meets.bind specificAhead_program fun _ => specific_pure _
  | semester => exact Meets.bind specificAhead_semester fun _ => specific_pure _

theorem specific_entries : Specific entries := specific_body fits_plan specificAhead_entry

end Parser

/-! ## Whole token lists -/

theorem undecided_ofTokens_iff {ts : List Token} :
    Undecided (Curriculum.ofTokens ts).result ↔ Undecided (Parser.entries ts).result := by
  simp only [Undecided, result_ofTokens_eq_error_iff]

/-- What the tokens up to the mark of the end begin with, all tokens begin with. -/
theorem take_of_upToFinish_eq {ts before later : List Token} {t : Token}
    (h : upToFinish ts = before ++ t :: later) :
    ts.take (before.length + 1) = before ++ [t] ∧ ∀ u ∈ before ++ [t], u.isFinish = false := by
  constructor
  · obtain ⟨hidden, hhidden⟩ : upToFinish ts <+: ts := List.takeWhile_prefix _
    rw [← hhidden, h, List.append_assoc, List.take_length_add_append]
    rfl
  · intro u hu
    have hmem : u ∈ upToFinish ts := by
      rw [h, List.append_cons]
      exact List.mem_append_left later hu
    simpa using List.all_eq_true.1 List.all_takeWhile u hmem

/-- **The first token that cannot be right decides.**  It is the token that the error
names, it stands before any mark of the end, nothing behind it has any influence on the
error, and the tokens before it leave the matter open.  The tokens of a list that leaves
the matter open have left it open all along.  And where the tokens end too early, the
error says what was wanted. -/
theorem first_error_is_local (ts : List Token) :
    (∀ e, (Curriculum.ofTokens ts).result = .error e → e.isFinal = true →
      ∃ k t, ts[k]? = some t ∧ e.Blames t ∧ (∀ u ∈ ts.take (k + 1), u.isFinish = false) ∧
        (∀ ts' : List Token, (∀ i ≤ k, ts'[i]? = ts[i]?) →
          (Curriculum.ofTokens ts').result = .error e) ∧
        Undecided (Curriculum.ofTokens (ts.take k)).result) ∧
    (Undecided (Curriculum.ofTokens ts).result →
      ∀ us, us <+: ts → Undecided (Curriculum.ofTokens us).result) ∧
    ∀ wanted, (Curriculum.ofTokens ts).result = .error (.endOfTokens wanted) →
      wanted.message ≠ "Expected a token" := by
  refine ⟨?_, ?_, ?_⟩
  · intro e h he
    rw [← ofTokens_upToFinish, result_ofTokens_eq_error_iff] at h
    obtain ⟨before, t, later, hts, hb, hopen, herror⟩ := Parser.prompt_entries.exists_blamed he h
    obtain ⟨htake, hfinish⟩ := take_of_upToFinish_eq hts
    refine ⟨before.length, t, ?_, hb, htake ▸ hfinish, ?_, ?_⟩
    · rw [← List.getElem?_take_of_lt (Nat.lt_succ_self _), htake]
      simp
    · intro ts' hagree
      -- the other list begins with the same tokens
      have htake' : ts'.take (before.length + 1) = before ++ [t] := by
        rw [← htake]
        refine List.ext_getElem? fun i => ?_
        rw [List.getElem?_take, List.getElem?_take]
        split
        · exact hagree i (by omega)
        · rfl
      rw [result_ofTokens_eq_error_iff, ← List.take_append_drop (before.length + 1) ts', htake']
      exact Parser.prompt_entries.error_append he herror _
    · have hbefore : ts.take before.length = before := by
        have htaken := congrArg (List.take before.length) htake
        rwa [List.take_take, Nat.min_eq_left (Nat.le_succ _), List.take_left'] at htaken
        rfl
      rwa [hbefore, undecided_ofTokens_iff]
  · intro h us hus
    rw [undecided_ofTokens_iff] at h ⊢
    exact Parser.prompt_entries.undecided_of_isPrefix hus h
  · intro wanted h
    exact Parser.specific_entries.of_error trivial (result_ofTokens_eq_error_iff.1 h)

/-- A plan whose second construct lacks its colon, with more that is wrong behind it. -/
def missingColon : String :=
  "Carrera: 'X' Semestre 1 \x7b Curso: \x7d Semestre: 4294967296"

/-- A plan that ends in the middle of a course. -/
def cutCourse : String :=
  "Semestre: 1 \x7b Curso: 7 \x7b Nombre:"

theorem first_error_is_local_missingColon :
    (∃ (k : Nat) (t : Token), (lex missingColon).tokens[k]? = some t ∧ t.text = "1" ∧
      ∀ ts' : List Token, (∀ i ≤ k, ts'[i]? = (lex missingColon).tokens[i]?) →
        (Curriculum.ofTokens ts').result =
          .error (.unexpected (.symbolAfter .colon "SEMESTRE") t)) ∧
      (∀ us, us <+: (lex cutCourse).tokens → Undecided (Curriculum.ofTokens us).result) ∧
      (Expectation.item Field.name.value).message ≠ "Expected a token" := by
  have herror : (Curriculum.ofTokens (lex missingColon).tokens).result =
      .error (.unexpected (.symbolAfter .colon "SEMESTRE") ⟨.number, "1", 1, 23⟩) := by
    decide +kernel
  have hcut : (Curriculum.ofTokens (lex cutCourse).tokens).result =
      .error (.endOfTokens (.item Field.name.value)) := by
    decide +kernel
  refine ⟨?_, ?_, ?_⟩
  · obtain ⟨k, t, hk, rfl, -, hagree, -⟩ :=
      (first_error_is_local (lex missingColon).tokens).1 _ herror rfl
    exact ⟨k, _, hk, rfl, hagree⟩
  · refine (first_error_is_local (lex cutCourse).tokens).2.1 ?_
    rw [hcut]
    rintro _ ⟨⟩
    rfl
  · exact (first_error_is_local (lex cutCourse).tokens).2.2 _ hcut

end StudyPlan
