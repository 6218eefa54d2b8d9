/-!
# Delimiters

The ten punctuation marks of the language.  Six of them are brackets and come in
three pairs; the other four separate things.  `partner?` is the whole of what the
bracket check needs to know about a pair.
-/

namespace StudyPlan

/-- A punctuation mark of the language. -/
inductive Delimiter where
  | openBrace
  | closeBrace
  | openBracket
  | closeBracket
  | openParen
  | closeParen
  | comma
  | semicolon
  | colon
  | equals
  deriving DecidableEq, Repr

namespace Delimiter

/-- Every delimiter, each pair of brackets with its opening mark first. -/
def all : List Delimiter :=
  [openBrace, closeBrace, openBracket, closeBracket, openParen, closeParen,
    comma, semicolon, colon, equals]

/-- The character that writes a delimiter. -/
def symbol : Delimiter → Char
  | openBrace => '{'
  | closeBrace => '}'
  | openBracket => '['
  | closeBracket => ']'
  | openParen => '('
  | closeParen => ')'
  | comma => ','
  | semicolon => ';'
  | colon => ':'
  | equals => '='

/-- The delimiter that a character writes, if it writes one. -/
def ofChar? (c : Char) : Option Delimiter :=
  all.find? fun d => d.symbol = c

@[simp] theorem ofChar?_symbol (d : Delimiter) : ofChar? d.symbol = some d := by
  cases d <;> rfl

/-- A character writes at most one delimiter, and it is that delimiter's symbol. -/
theorem ofChar?_eq_some_iff {c : Char} {d : Delimiter} :
    ofChar? c = some d ↔ d.symbol = c := by
  constructor
  · intro h
    simpa using List.find?_some h
  · rintro rfl
    exact ofChar?_symbol d

/-- The name under which a delimiter is listed. -/
def name : Delimiter → String
  | openBrace => "LLAVE_ABIERTA"
  | closeBrace => "LLAVE_CERRADA"
  | openBracket => "CORCHETE_ABIERTO"
  | closeBracket => "CORCHETE_CERRADO"
  | openParen => "PARENTESIS_ABIERTO"
  | closeParen => "PARENTESIS_CERRADO"
  | comma => "COMA"
  | semicolon => "PUNTO_COMA"
  | colon => "DOS_PUNTOS"
  | equals => "IGUAL"

/-- The closing bracket that an opening bracket waits for. -/
def partner? : Delimiter → Option Delimiter
  | openBrace => some closeBrace
  | openBracket => some closeBracket
  | openParen => some closeParen
  | _ => none

/-- Is this the first half of a pair of brackets? -/
def isOpening (d : Delimiter) : Bool :=
  d.partner?.isSome

/-- Is this the second half of a pair of brackets? -/
def isClosing : Delimiter → Bool
  | closeBrace | closeBracket | closeParen => true
  | _ => false

/-- The closing brackets are exactly the partners of opening ones. -/
theorem isClosing_iff_exists_partner {d : Delimiter} :
    d.isClosing = true ↔ ∃ o : Delimiter, o.partner? = some d := by
  constructor
  · cases d <;> simp only [isClosing, Bool.false_eq_true, false_implies, forall_const]
    · exact ⟨openBrace, rfl⟩
    · exact ⟨openBracket, rfl⟩
    · exact ⟨openParen, rfl⟩
  · rintro ⟨o, h⟩
    cases o <;> simp only [partner?, Option.some.injEq, reduceCtorEq] at h <;> subst h <;> rfl

/-- A closing bracket opens nothing. -/
theorem not_isOpening_of_partner {o c : Delimiter} (h : o.partner? = some c) :
    ¬ c.isOpening = true := by
  cases o <;> simp only [partner?, Option.some.injEq, reduceCtorEq] at h <;> subst h <;> decide

end Delimiter
end StudyPlan
