import StudyPlan.Grammar.Terminal

/-!
# Bodies of constructs

The plan as a whole, a program, a semester, a course and a list of prerequisites
all have a body: a run of tokens that is read one token at a time.  A table says
what to do with each token --- enter a smaller construct that begins there, close
the body, or step over the token --- and an `Ending` says whether the tokens may end
before the body is closed.

## Why this ends

A construct is entered on its first token and has to read that token at least.
Every construct of the language does; for one that hands back more than the tokens
behind its first, `body` takes the first token as read.  So each round leaves fewer
tokens than the one before.
-/

namespace StudyPlan

/-- What the table of a body says about a token. -/
inductive Action (σ : Type) where
  /-- Read a construct that begins with this token. -/
  | enter (what : σ)
  /-- The body ends with this token. -/
  | close
  /-- Step over the token. -/
  | skip
  deriving DecidableEq, Repr

/-- Whether the tokens may end before a body is closed. -/
inductive Ending where
  /-- The body may simply end. -/
  | anywhere
  /-- The body has to be closed, by this delimiter. -/
  | closedBy (d : Delimiter)
  deriving DecidableEq, Repr

namespace Parser

variable {α σ : Type}

/-- The end of the tokens inside a body: nothing more is read, if that is allowed. -/
def bodyEnd (name : String) : Ending → Parser (List α)
  | .anywhere => pure []
  | .closedBy d => fail (.endOfTokens (.closing d name))

/-- What is left to read after a construct, given the tokens `ts` behind its first
token. -/
def atMost (ts rest : List Token) : List Token :=
  if rest.length ≤ ts.length then rest else ts

theorem length_atMost_le (ts rest : List Token) : (atMost ts rest).length ≤ ts.length := by
  unfold atMost
  split <;> omega

theorem atMost_of_length_le {ts rest : List Token} (h : rest.length ≤ ts.length) :
    atMost ts rest = rest := if_pos h

/-- Read the body of the construct `name` as `table` says, up to and including the
token that closes it. -/
def body (name : String) (table : Token → Action σ) (ending : Ending)
    (enter : σ → Parser α) : Parser (List α)
  | [] => bodyEnd name ending []
  | t :: ts =>
    if t.isFinish then
      bodyEnd name ending (t :: ts)
    else
      match table t with
      | .close => ⟨[], .ok ([], ts)⟩
      | .skip => (body name table ending enter ts).after [.skipped name t]
      | .enter what =>
        match enter what (t :: ts) with
        | ⟨log, .error e⟩ => ⟨log, .error e⟩
        | ⟨log, .ok (a, rest)⟩ =>
          ((body name table ending enter (atMost ts rest)).map
            fun (as, rest) => (a :: as, rest)).after log
termination_by ts => ts.length
decreasing_by
  · exact Nat.lt_succ_self _
  · exact Nat.lt_succ_of_le (length_atMost_le ts rest)

/-! ## One round of a body -/

section

variable {name : String} {table : Token → Action σ} {ending : Ending} {enter : σ → Parser α}
  {t : Token} {ts : List Token}

@[simp] theorem body_nil : body name table ending enter [] = bodyEnd name ending [] := by
  rw [body]

theorem body_finish (hf : t.isFinish = true) :
    body name table ending enter (t :: ts) = bodyEnd name ending (t :: ts) := by
  rw [body, if_pos hf]

theorem body_close (hf : t.isFinish = false) (h : table t = .close) :
    body name table ending enter (t :: ts) = ⟨[], .ok ([], ts)⟩ := by
  rw [body, hf, h]
  rfl

theorem body_skip (hf : t.isFinish = false) (h : table t = .skip) :
    body name table ending enter (t :: ts) =
      (body name table ending enter ts).after [.skipped name t] := by
  rw [body, hf, h]
  rfl

theorem body_enter_error (hf : t.isFinish = false) {what : σ} (h : table t = .enter what)
    {log : List Event} {e : SyntaxError} (he : enter what (t :: ts) = ⟨log, .error e⟩) :
    body name table ending enter (t :: ts) = ⟨log, .error e⟩ := by
  rw [body, hf, h]
  simp only [Bool.false_eq_true, if_false, he]

theorem body_enter_ok (hf : t.isFinish = false) {what : σ} (h : table t = .enter what)
    {log : List Event} {a : α} {rest : List Token}
    (he : enter what (t :: ts) = ⟨log, .ok (a, rest)⟩) (hle : rest.length ≤ ts.length) :
    body name table ending enter (t :: ts) =
      ((body name table ending enter rest).map fun (as, rest) => (a :: as, rest)).after log := by
  rw [body, hf, h]
  simp only [Bool.false_eq_true, if_false, he, atMost_of_length_le hle]

end

end Parser
end StudyPlan
