import StudyPlan.Grammar.Numeral
import StudyPlan.Grammar.Parser

/-!
# Reading single tokens

The smallest parsers: each reads one token.  A token list ends at the mark of the
end of its source, wherever the mark stands, and the tokens behind it are never
looked at.  The one exception is `lead`, which takes whatever token is there: it
reads the head of a construct, and whoever enters the construct has already looked
at it.
-/

namespace StudyPlan
namespace Parser

/-- The next token, if the tokens have not ended. -/
def next? : List Token → Option Token
  | [] => none
  | t :: _ => if t.isFinish then none else some t

/-- Read the token that heads a construct, whatever it is. -/
def lead : Parser Token
  | [] => ⟨[], .error (.endOfTokens (.item "a token"))⟩
  | t :: ts => ⟨[], .ok (t, ts)⟩

/-- Read a token of the given kind. -/
def token (kind : Kind) (wanted : Expectation) : Parser Token
  | [] => ⟨[], .error (.endOfTokens wanted)⟩
  | t :: ts =>
    if t.isFinish then ⟨[], .error (.endOfTokens wanted)⟩
    else if t.kind = kind then ⟨[], .ok (t, ts)⟩
    else ⟨[], .error (.unexpected wanted t)⟩

/-- Read a delimiter. -/
def delimiter (d : Delimiter) (wanted : Expectation) : Parser Token :=
  token (.delimiter d) wanted

/-- Read a quoted text. -/
def quoted (wanted : Expectation) : Parser String := do
  return (← token .quoted wanted).text

/-- Read a number and keep it as it is written. -/
def numeral (wanted : Expectation) : Parser String := do
  return (← token .number wanted).text

/-- Read a number that fits into 32 bits. -/
def number (wanted : Expectation) : Parser UInt32 := do
  let t ← token .number wanted
  match Numeral.toUInt32? t.text with
  | some n => return n
  | none => fail (.outOfRange t.text t.line)

/-- Read a truth value. -/
def boolean (wanted : Expectation) : Parser Bool := do
  return sameWord (← token .boolean wanted).text "true"

/-! ## When a single token is read -/

@[simp] theorem lead_nil : lead [] = ⟨[], .error (.endOfTokens (.item "a token"))⟩ := rfl

@[simp] theorem lead_cons (t : Token) (ts : List Token) : lead (t :: ts) = ⟨[], .ok (t, ts)⟩ :=
  rfl

/-- A token is read exactly when it comes next, is of the kind wanted, and is not
the end. -/
theorem result_token_eq_ok_iff {kind : Kind} {wanted : Expectation} {ts rest : List Token}
    {t : Token} :
    (token kind wanted ts).result = .ok (t, rest) ↔
      ts = t :: rest ∧ t.kind = kind ∧ t.isFinish = false := by
  rcases ts with _ | ⟨t', ts⟩
  · simp [token]
  · rw [token]
    by_cases hf : t'.isFinish = true
    · rw [if_pos hf]
      constructor
      · intro h
        cases h
      · rintro ⟨h, -, hf'⟩
        cases h
        rw [hf] at hf'
        cases hf'
    · rw [if_neg hf]
      by_cases hk : t'.kind = kind
      · rw [if_pos hk]
        constructor
        · intro h
          cases h
          exact ⟨rfl, hk, by simpa using hf⟩
        · rintro ⟨h, -, -⟩
          cases h
          rfl
      · rw [if_neg hk]
        constructor
        · intro h
          cases h
        · rintro ⟨h, hk', -⟩
          cases h
          exact absurd hk' hk

end Parser
end StudyPlan
