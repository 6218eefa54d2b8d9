/-!
# JSON values and their text

The values that the reports are made of.  Their numbers are natural numbers; that
is all a report ever counts.  The members of an object stand in a definite order,
and the text shows them in that order.

## Two layouts

The same writer produces both layouts.  In the compact layout nothing stands
between the tokens; in the indented one every item and member has a line of its
own, two spaces further in than what encloses it, and an empty array or object
stays on its line.
-/

namespace StudyPlan

/-- A JSON value. -/
inductive Json where
  | null
  | bool (b : Bool)
  | number (n : Nat)
  | string (s : String)
  | array (items : List Json)
  | object (members : List (String × Json))
  deriving Repr

namespace Json

/-- How the tokens of a JSON text are set apart. -/
inductive Layout where
  | compact
  | indented
  deriving DecidableEq, Repr

namespace Layout

/-- What stands before an item or a closing bracket at the given depth. -/
def lineBreak : Layout → Nat → List Char
  | compact, _ => []
  | indented, depth => '\n' :: List.replicate (2 * depth) ' '

/-- What stands between a key and its value. -/
def colon : Layout → List Char
  | compact => [':']
  | indented => [':', ' ']

end Layout

/-! ## Strings -/

/-- How a character is written inside a JSON string.  Quotes, backslashes and the
characters below the space are escaped, and nothing else is. -/
def escape (c : Char) : List Char :=
  if c = '"' then ['\\', '"']
  else if c = '\\' then ['\\', '\\']
  else if c = '\x08' then ['\\', 'b']
  else if c = '\x0c' then ['\\', 'f']
  else if c = '\n' then ['\\', 'n']
  else if c = '\r' then ['\\', 'r']
  else if c = '\t' then ['\\', 't']
  else if c.toNat < 0x20 then
    ['\\', 'u', '0', '0', Nat.digitChar (c.toNat / 16), Nat.digitChar (c.toNat % 16)]
  else [c]

/-- A JSON string. -/
def quote (s : String) : List Char :=
  '"' :: s.toList.flatMap escape ++ ['"']

/-! ## Values -/

mutual

/-- The text of a value that stands at the given depth. -/
def write (l : Layout) (depth : Nat) : Json → List Char
  | null => "null".toList
  | bool true => "true".toList
  | bool false => "false".toList
  | number n => Nat.toDigits 10 n
  | string s => quote s
  | array [] => ['[', ']']
  | array (j :: js) =>
    '[' :: l.lineBreak (depth + 1) ++ write l (depth + 1) j ++
      writeItems l (depth + 1) js ++ l.lineBreak depth ++ [']']
  | object [] => ['{', '}']
  | object ((k, j) :: ms) =>
    '{' :: l.lineBreak (depth + 1) ++ quote k ++ l.colon ++ write l (depth + 1) j ++
      writeMembers l (depth + 1) ms ++ l.lineBreak depth ++ ['}']

/-- The text of the items of an array after the first one. -/
def writeItems (l : Layout) (depth : Nat) : List Json → List Char
  | [] => []
  | j :: js => ',' :: l.lineBreak depth ++ write l depth j ++ writeItems l depth js

/-- The text of the members of an object after the first one. -/
def writeMembers (l : Layout) (depth : Nat) : List (String × Json) → List Char
  | [] => []
  | (k, j) :: ms =>
    ',' :: l.lineBreak depth ++ quote k ++ l.colon ++ write l depth j ++
      writeMembers l depth ms

end

/-- The text of a value. -/
def render (l : Layout) (j : Json) : String :=
  String.ofList (j.write l 0)

/-! ## Sorted members -/

mutual

/-- The same value with the members of every object sorted by key. -/
def sortKeys : Json → Json
  | array js => array (sortItems js)
  | object ms => object ((sortMembers ms).mergeSort fun a b => decide (a.1 ≤ b.1))
  | null => null
  | bool b => bool b
  | number n => number n
  | string s => string s

/-- The items of an array, each with its keys sorted. -/
def sortItems : List Json → List Json
  | [] => []
  | j :: js => sortKeys j :: sortItems js

/-- The members of an object in their own order, each with its keys sorted. -/
def sortMembers : List (String × Json) → List (String × Json)
  | [] => []
  | (k, j) :: ms => (k, sortKeys j) :: sortMembers ms

end

/-- A number or null. -/
def ofNat? (n : Option Nat) : Json :=
  n.elim null number

end Json
end StudyPlan
