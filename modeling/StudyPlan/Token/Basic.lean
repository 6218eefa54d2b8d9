import StudyPlan.Source.Position
import StudyPlan.Token.Delimiter
import StudyPlan.Token.Keyword

/-!
# Tokens

A token is what the grammar sees of a source: a kind, the text it was written
with, and the place where it starts.  The text of a quoted token is what stands
between the quotes.  A word is a reserved word, a truth value or an identifier,
and its kind is decided by its spelling alone (`Kind.ofWord`).

The end of a source is a token too, so that a token list knows where its source
ended.  The grammar never reads past it.
-/

namespace StudyPlan

/-- What sort of token this is. -/
inductive Kind where
  | keyword (k : Keyword)
  | delimiter (d : Delimiter)
  | identifier
  | quoted
  | number
  | boolean
  | finish
  deriving DecidableEq, Repr

namespace Kind

/-- The name under which a kind is listed. -/
def name : Kind → String
  | keyword k => k.name
  | delimiter d => d.name
  | identifier => "IDENTIFICADOR"
  | quoted => "CADENA"
  | number => "NUMERO"
  | boolean => "BOOLEANO"
  | finish => "EOF"

/-- Every kind. -/
def all : List Kind :=
  Keyword.all.map keyword ++ Delimiter.all.map delimiter ++
    [identifier, quoted, number, boolean, finish]

/-- The kind of a word: a reserved word before a truth value before an
identifier. -/
def ofWord (word : String) : Kind :=
  match Keyword.ofWord? word with
  | some k => keyword k
  | none => if (truthValue? word).isSome then boolean else identifier

end Kind

/-- A token of a source. -/
structure Token where
  kind : Kind
  text : String
  line : Nat
  column : Nat
  deriving DecidableEq, Repr

namespace Token

/-- The token of a given kind and text that starts at `p`. -/
def startingAt (p : Position) (kind : Kind) (text : List Char) : Token :=
  ⟨kind, String.ofList text, p.line, p.column⟩

/-- The token that marks the end of a source. -/
def finish (p : Position) : Token :=
  startingAt p .finish []

/-- Is this the mark of the end of a source? -/
def isFinish (t : Token) : Bool :=
  t.kind = .finish

/-- Is this the delimiter `d`? -/
def isDelimiter (t : Token) (d : Delimiter) : Bool :=
  t.kind = .delimiter d

end Token
end StudyPlan
