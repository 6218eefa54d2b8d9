import StudyPlan.Json.Bytes

/-!
# Settings

The few things about an analysis that can be chosen, and the JSON text in which
they are kept.

## What a settings text may look like

It is an object with the members `include_tokens`, `max_input_bytes` and `pretty`.
Each may be left out and then has its default; none may come twice.  Other members
are ignored, but have to be well formed.  A truth value is `true` or `false`, and a
limit is `null` or the digits of a 64-bit number, without sign, point or exponent.
Instead of an object the text may be an array that lists the three values in this
order, the last ones being left out at will.

A file with settings may hold stray bytes in the strings of members that are ignored.
-/

namespace StudyPlan

/-- The settings of an analysis. -/
structure Settings where
  /-- Does the report list the tokens of the source? -/
  includeTokens : Bool := true
  /-- The length in bytes that a source may have. -/
  maxInputBytes : Option UInt64 := none
  /-- Is the JSON text of a report indented? -/
  pretty : Bool := true
  deriving DecidableEq, Repr

namespace Settings

/-- The settings as a JSON value. -/
def toJson (s : Settings) : Json :=
  .object [
    ("include_tokens", .bool s.includeTokens),
    ("max_input_bytes", .ofNat? (s.maxInputBytes.map UInt64.toNat)),
    ("pretty", .bool s.pretty)]

/-! ## Reading -/

/-- The truth value that is written. -/
def truth? (written : List Char) : Option Bool :=
  if written = "true".toList then some true
  else if written = "false".toList then some false
  else none

/-- The limit that is written: null for no limit, or a 64-bit number. -/
def limit? (written : List Char) : Option (Option UInt64) :=
  if written = "null".toList then some none
  else if written.all Char.isDigit then
    if h : Nat.ofDigitChars 10 written 0 < UInt64.size then
      some (some (UInt64.ofNatLT (Nat.ofDigitChars 10 written 0) h))
    else none
  else none

/-- The value of a member that may be left out and may not come twice. -/
def member? {α : Type} (members : List (String × List Char)) (key : String)
    (read : List Char → Option α) (default : α) : Option α :=
  match members.filter (·.1 = key) with
  | [] => some default
  | [(_, written)] => read written
  | _ => none

/-- The value of an item that may be left out. -/
def item? {α : Type} (items : List (List Char)) (index : Nat)
    (read : List Char → Option α) (default : α) : Option α :=
  match items[index]? with
  | none => some default
  | some written => read written

/-- The settings that a JSON document gives. -/
def ofOutline? : Json.Reader.Outline → Option Settings
  | .object members => do
    let standard : Settings := {}
    let includeTokens ← member? members "include_tokens" truth? standard.includeTokens
    let maxInputBytes ← member? members "max_input_bytes" limit? standard.maxInputBytes
    let pretty ← member? members "pretty" truth? standard.pretty
    return { includeTokens, maxInputBytes, pretty }
  | .array items =>
    if items.length ≤ 3 then do
      let standard : Settings := {}
      let includeTokens ← item? items 0 truth? standard.includeTokens
      let maxInputBytes ← item? items 1 limit? standard.maxInputBytes
      let pretty ← item? items 2 truth? standard.pretty
      return { includeTokens, maxInputBytes, pretty }
    else none

/-- The settings that a text gives. -/
def ofText? (text : String) : Option Settings :=
  (Json.Reader.outline? text).bind ofOutline?

/-- The settings that the bytes of a file give. -/
def ofBytes? (content : ByteArray) : Option Settings :=
  ofText? (String.ofList (Json.Reader.characters content.data.toList))

end Settings
end StudyPlan
