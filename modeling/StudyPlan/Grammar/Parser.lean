import StudyPlan.Event
import StudyPlan.Grammar.SyntaxError

/-!
# Parsers

A parser reads a value off the front of a list of tokens and hands back the tokens
it has not read.  It never sees the tokens before, so where in a larger list it is
run cannot matter.  `runAt` is the same thing told with positions: it runs a parser
from a position in a list and says at which position it stopped.

Parsers form a monad: one parser after another, stopping at the first error, with
the events of both in the log.
-/

namespace StudyPlan

/-- A parser of values of type `α`. -/
def Parser (α : Type) : Type :=
  List Token → Logged SyntaxError (α × List Token)

namespace Parser

variable {α β : Type}

/-- Read nothing. -/
protected def pure (a : α) : Parser α := fun ts => ⟨[], .ok (a, ts)⟩

/-- Give up. -/
def fail (e : SyntaxError) : Parser α := fun _ => ⟨[], .error e⟩

/-- Write an event to the log. -/
def emit (e : Event) : Parser Unit := fun ts => ⟨[e], .ok ((), ts)⟩

/-- Write events to the log. -/
def emitAll (es : List Event) : Parser Unit := fun ts => ⟨es, .ok ((), ts)⟩

/-- One parser, and then another one that may depend on its value. -/
protected def bind (p : Parser α) (f : α → Parser β) : Parser β := fun ts =>
  match p ts with
  | ⟨log, .error e⟩ => ⟨log, .error e⟩
  | ⟨log, .ok (a, rest)⟩ => (f a rest).after log

instance : Monad Parser where
  pure := Parser.pure
  bind := Parser.bind

/-- A parser with its value changed by `f`. -/
protected def map (f : α → β) (p : Parser α) : Parser β := fun ts =>
  (p ts).map fun (a, rest) => (f a, rest)

/-! ## What the combinators do to a token list -/

@[simp] theorem pure_apply (a : α) (ts : List Token) :
    (pure a : Parser α) ts = ⟨[], .ok (a, ts)⟩ := rfl

@[simp] theorem fail_apply (e : SyntaxError) (ts : List Token) :
    (fail e : Parser α) ts = ⟨[], .error e⟩ := rfl

@[simp] theorem emit_apply (e : Event) (ts : List Token) :
    emit e ts = ⟨[e], .ok ((), ts)⟩ := rfl

@[simp] theorem emitAll_apply (es : List Event) (ts : List Token) :
    emitAll es ts = ⟨es, .ok ((), ts)⟩ := rfl

theorem bind_apply (p : Parser α) (f : α → Parser β) (ts : List Token) :
    (p >>= f) ts = match p ts with
      | ⟨log, .error e⟩ => ⟨log, .error e⟩
      | ⟨log, .ok (a, rest)⟩ => (f a rest).after log := rfl

/-- A sequence succeeds exactly when its two parts do, one after the other. -/
theorem result_bind_eq_ok_iff {p : Parser α} {f : α → Parser β} {ts : List Token}
    {b : β} {rest : List Token} :
    ((p >>= f) ts).result = .ok (b, rest) ↔
      ∃ a mid, (p ts).result = .ok (a, mid) ∧ (f a mid).result = .ok (b, rest) := by
  rw [bind_apply]
  rcases h : p ts with ⟨log, e | ⟨a, mid⟩⟩
  · simp
  · simp only [Logged.result_after, Except.ok.injEq, Prod.mk.injEq]
    constructor
    · exact fun hf => ⟨a, mid, ⟨rfl, rfl⟩, hf⟩
    · rintro ⟨_, _, ⟨rfl, rfl⟩, hf⟩
      exact hf

/-- Where the first part fails, so does the sequence. -/
theorem result_bind_of_error {p : Parser α} {f : α → Parser β} {ts : List Token}
    {e : SyntaxError} (h : (p ts).result = .error e) : ((p >>= f) ts).result = .error e := by
  rw [bind_apply]
  rcases hr : p ts with ⟨log, e' | ⟨a, rest⟩⟩
  · rw [hr] at h
    exact congrArg Except.error (Except.error.inj h)
  · rw [hr] at h
    cases h

/-- Where the first part succeeds, the second one goes on. -/
theorem result_bind_of_ok {p : Parser α} {f : α → Parser β} {ts rest : List Token} {a : α}
    (h : (p ts).result = .ok (a, rest)) : ((p >>= f) ts).result = (f a rest).result := by
  rw [bind_apply]
  rcases hr : p ts with ⟨log, e' | ⟨a', rest'⟩⟩
  · rw [hr] at h
    cases h
  · rw [hr] at h
    obtain ⟨rfl, rfl⟩ := Prod.mk.inj (Except.ok.inj h)
    rfl

/-! ## Positions -/

/-- Run a parser from position `pos` of a token list, and say where it stopped.
Past the end of the list there are no tokens left, and none can be read. -/
def runAt (p : Parser α) (tokens : List Token) (pos : Nat) : Logged SyntaxError (α × Nat) :=
  let ahead := tokens.drop pos
  (p ahead).map fun (a, rest) => (a, pos + (ahead.length - rest.length))

end Parser
end StudyPlan
