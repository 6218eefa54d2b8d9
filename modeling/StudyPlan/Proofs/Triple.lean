import StudyPlan.Proofs.Exactness

/-!
# Before and behind a parser

`Meets P p Q E` says what is known of the tokens around a parser: where `P` holds of
the tokens ahead, either a value is read and `Q` holds of it and of the tokens
behind, or the parser gives up with an error of which `E` holds.  A statement about
a construct is put together from one such triple for each token it reads, so that it
follows the parser line by line.

For bodies there is the usual loop rule (`Meets.body`): an invariant of the tokens
that survives a token stepped over and a part read.  It asks for `Fits`, which tells
that a part leaves no more than what stood behind its head.
-/

namespace StudyPlan
namespace Parser

open StudyPlan.Derivation

variable {α β σ : Type}

/-- `Q` holds of the value read and of the tokens left, or `E` holds of the error. -/
def Outcome (Q : α → List Token → Prop) (E : SyntaxError → Prop) :
    Except SyntaxError (α × List Token) → Prop
  | .ok (a, rest) => Q a rest
  | .error e => E e

/-- Where `P` holds of the tokens ahead, a value is read with `Q` of it and the tokens
behind, or there is an error with `E`. -/
def Meets (P : List Token → Prop) (p : Parser α) (Q : α → List Token → Prop)
    (E : SyntaxError → Prop) : Prop :=
  ∀ ts, P ts → Outcome Q E (p ts).result

/-- `P` holds behind the first token. -/
def Behind (P : List Token → Prop) (ts : List Token) : Prop :=
  ∃ t rest, ts = t :: rest ∧ P rest

variable {P P' : List Token → Prop} {Q Q' : α → List Token → Prop} {E E' : SyntaxError → Prop}

theorem Meets.of_ok {p : Parser α} (h : Meets P p Q E) {ts rest : List Token} {a : α}
    (hP : P ts) (hr : (p ts).result = .ok (a, rest)) : Q a rest := by
  have houtcome := h ts hP
  rwa [hr] at houtcome

theorem Meets.of_error {p : Parser α} (h : Meets P p Q E) {ts : List Token} {e : SyntaxError}
    (hP : P ts) (hr : (p ts).result = .error e) : E e := by
  have houtcome := h ts hP
  rwa [hr] at houtcome

theorem Meets.mono {p : Parser α} (h : Meets P p Q E) (hP : ∀ ts, P' ts → P ts)
    (hQ : ∀ a rest, Q a rest → Q' a rest) (hE : ∀ e, E e → E' e) : Meets P' p Q' E' := by
  intro ts hts
  rcases hr : (p ts).result with e | ⟨a, rest⟩
  · exact hE e (h.of_error (hP ts hts) hr)
  · exact hQ a rest (h.of_ok (hP ts hts) hr)

theorem Meets.bind {R : β → List Token → Prop} {p : Parser β} {f : β → Parser α}
    (hp : Meets P p R E) (hf : ∀ b, Meets (R b) (f b) Q E) : Meets P (p >>= f) Q E := by
  intro ts hts
  rw [bind_apply]
  rcases hr : p ts with ⟨log, e | ⟨b, rest⟩⟩
  · exact hp.of_error hts (by rw [hr])
  · exact hf b rest (hp.of_ok hts (by rw [hr]))

theorem meets_pure (a : α) (h : ∀ ts, P ts → Q a ts) : Meets P (pure a) Q E := h

theorem meets_fail {e : SyntaxError} (h : E e) : Meets P (fail e) Q E := fun _ _ => h

theorem meets_emit (e : Event) : Meets P (emit e) (fun _ => P) E := fun _ h => h

theorem meets_emitAll (es : List Event) : Meets P (emitAll es) (fun _ => P) E := fun _ h => h

theorem meets_lead : Meets (Behind P) lead (fun _ => P) E := by
  rintro _ ⟨t, rest, rfl, h⟩
  exact h

/-- The triple of a single token: what it leaves, and its two errors. -/
theorem meets_token {kind : Kind} {wanted : Expectation} {Q : Token → List Token → Prop}
    (hok : ∀ t rest, P (t :: rest) → t.isFinish = false → t.kind = kind → Q t rest)
    (hother : ∀ t rest, P (t :: rest) → t.isFinish = false → t.kind ≠ kind →
      E (.unexpected wanted t))
    (hend : ∀ ts, P ts → next? ts = none → E (.endOfTokens wanted)) :
    Meets P (token kind wanted) Q E := by
  rintro (_ | ⟨t, ts⟩) hP
  · exact hend [] hP rfl
  · cases hf : t.isFinish with
    | true => simpa [token, hf, Outcome] using hend _ hP (if_pos hf)
    | false =>
      by_cases hk : t.kind = kind
      · simpa [token, hf, hk, Outcome] using hok t ts hP hf hk
      · simpa [token, hf, hk, Outcome] using hother t ts hP hf hk

/-- The loop rule of a body, for an invariant `I` of the tokens ahead. -/
theorem Meets.body {name : String} {table : Token → Action σ} {ending : Ending}
    {enter : σ → Parser α} {Part : List Token → α → List Token → Prop} {Passed : Token → Prop}
    (hfit : Fits table enter Part Passed) {I Q : List Token → Prop}
    (hend : ∀ ts, I ts → next? ts = none →
      Outcome (fun _ => Q) E (bodyEnd name ending ts : Logged _ (List α × _)).result)
    (hclose : ∀ t ts, t.isFinish = false → table t = .close → I (t :: ts) → Q ts)
    (hskip : ∀ t ts, t.isFinish = false → table t = .skip → I (t :: ts) → I ts)
    (henter : ∀ t ts what, t.isFinish = false → table t = .enter what → I (t :: ts) →
      Meets (· = t :: ts) (enter what) (fun _ => I) E) :
    Meets I (body name table ending enter) (fun _ => Q) E := by
  intro ts hI
  fun_induction Parser.body name table ending enter ts with
  | case1 => exact hend [] hI rfl
  | case2 t ts hf => exact hend (t :: ts) hI (if_pos hf)
  | case3 t ts hf hc => exact hclose t ts (by simpa using hf) hc hI
  | case4 t ts hf hs ih => exact ih (hskip t ts (by simpa using hf) hs hI)
  | case5 t ts hf what hwhat log e he =>
    exact (henter t ts what (by simpa using hf) hwhat hI).of_error rfl (by rw [he])
  | case6 t ts hf what hwhat log a rest he ih =>
    have hf' : t.isFinish = false := by simpa using hf
    have hresult : (enter what (t :: ts)).result = .ok (a, rest) := by rw [he]
    have hs := hfit.suffix hf' hwhat hresult
    rw [atMost_of_length_le hs.length_le] at ih ⊢
    have hrest : I rest := (henter t ts what hf' hwhat hI).of_ok rfl hresult
    have h := ih hrest
    rw [Logged.result_after, Logged.result_map]
    rcases hb : (Parser.body name table ending enter rest).result with e | ⟨as, rest'⟩
    · rw [hb] at h
      exact h
    · rw [hb] at h
      exact h

end Parser
end StudyPlan
