/-!
# Reserved words

Ten words head the constructs and fields of a study plan, and two more are the
truth values.  All of them may be written in any mixture of upper and lower case.
Only ASCII letters have a case here, so no other character ever stands in for one
of theirs.
-/

namespace StudyPlan

/-- Two texts that differ at most in the case of ASCII letters. -/
def sameWord (a b : String) : Bool :=
  a.toList.map Char.toLower == b.toList.map Char.toLower

/-- The truth value that a word writes, if it writes one. -/
def truthValue? (word : String) : Option Bool :=
  if sameWord word "true" then some true
  else if sameWord word "false" then some false
  else none

/-- A reserved word that heads a construct or a field. -/
inductive Keyword where
  | carrera
  | semestre
  | curso
  | nombre
  | codigo
  | creditos
  | descripcion
  | obligatorio
  | electivo
  | prerequisito
  deriving DecidableEq, Repr

namespace Keyword

/-- Every reserved word. -/
def all : List Keyword :=
  [carrera, semestre, curso, nombre, codigo, creditos, descripcion, obligatorio,
    electivo, prerequisito]

/-- The reserved word in capitals, as it is listed and quoted in messages. -/
def name : Keyword → String
  | carrera => "CARRERA"
  | semestre => "SEMESTRE"
  | curso => "CURSO"
  | nombre => "NOMBRE"
  | codigo => "CODIGO"
  | creditos => "CREDITOS"
  | descripcion => "DESCRIPCION"
  | obligatorio => "OBLIGATORIO"
  | electivo => "ELECTIVO"
  | prerequisito => "PREREQUISITO"

/-- The reserved word that a word spells, whatever its case. -/
def ofWord? (word : String) : Option Keyword :=
  all.find? fun k => sameWord k.name word

end Keyword
end StudyPlan
