import StudyPlan.Json.Basic

/-!
# Reading JSON text one level deep

Settings are kept in a small JSON document, of which only the outermost level is of
interest: the members of an object, or the items of an array.  So a document is
read one level deep.  What stands as a value is checked to be a well-formed JSON
value, however deep it is nested, and is handed on as the characters it is written
with.

## Strings

A string in JSON text is a sequence of characters and of escaped 16-bit units.
Being well formed asks no more of it than that (`stringBody?`).  To stand for a text
it must also make sense: two units of a surrogate pair have to come together
(`decode?`).  That much is asked of keys, but not of values nobody looks at.

## Deeper values

`skip?` recognises a value with a stack of the arrays and objects that are open.
It sees each character once.
-/

namespace StudyPlan
namespace Json
namespace Reader

/-! ## Blanks and words -/

/-- The characters that may stand between the tokens of a JSON text. -/
def isBlank (c : Char) : Bool :=
  c == ' ' || c == '\t' || c == '\n' || c == '\r'

/-- The characters from the first that is not blank. -/
def skipBlanks (cs : List Char) : List Char :=
  cs.dropWhile isBlank

theorem length_skipBlanks_le (cs : List Char) : (skipBlanks cs).length ≤ cs.length :=
  (List.dropWhile_suffix _).length_le

/-- What stands after the given word. -/
def word? (word cs : List Char) : Option (List Char) :=
  if word.isPrefixOf cs then some (cs.drop word.length) else none

/-! ## Strings -/

/-- A unit of a JSON string: a character as it stands, or an escaped 16-bit unit. -/
inductive CodeUnit where
  | char (c : Char)
  | escaped (n : Nat)
  deriving DecidableEq, Repr

/-- The value of a hexadecimal digit in either case. -/
def hexValue? (c : Char) : Option Nat :=
  if '0' ≤ c ∧ c ≤ '9' then some (c.toNat - '0'.toNat)
  else if 'a' ≤ c ∧ c ≤ 'f' then some (c.toNat - 'a'.toNat + 10)
  else if 'A' ≤ c ∧ c ≤ 'F' then some (c.toNat - 'A'.toNat + 10)
  else none

/-- The value of four hexadecimal digits. -/
def hex? (a b c d : Char) : Option Nat := do
  return (((← hexValue? a) * 16 + (← hexValue? b)) * 16 + (← hexValue? c)) * 16 +
    (← hexValue? d)

/-- The character that a letter stands for after a backslash. -/
def escapeLetter? : Char → Option Char
  | '"' => some '"'
  | '\\' => some '\\'
  | '/' => some '/'
  | 'b' => some '\x08'
  | 'f' => some '\x0c'
  | 'n' => some '\n'
  | 'r' => some '\r'
  | 't' => some '\t'
  | _ => none

/-- The units of a string up to its closing mark, and what stands after the mark. -/
def stringBody? : List Char → Option (List CodeUnit × List Char)
  | [] => none
  | '"' :: rest => some ([], rest)
  | '\\' :: 'u' :: a :: b :: c :: d :: rest => do
    let n ← hex? a b c d
    let (units, rest) ← stringBody? rest
    return (.escaped n :: units, rest)
  | '\\' :: e :: rest => do
    let c ← escapeLetter? e
    let (units, rest) ← stringBody? rest
    return (.char c :: units, rest)
  | c :: rest =>
    if c = '\\' ∨ c.toNat < 0x20 then none
    else do
      let (units, rest) ← stringBody? rest
      return (.char c :: units, rest)

/-- Is this the first half of a surrogate pair? -/
def isHigh (n : Nat) : Bool := 0xD800 ≤ n && n < 0xDC00

/-- Is this the second half of a surrogate pair? -/
def isLow (n : Nat) : Bool := 0xDC00 ≤ n && n < 0xE000

/-- The characters that the units of a string stand for.  Half a surrogate pair
stands for none. -/
def decode? : List CodeUnit → Option (List Char)
  | [] => some []
  | .char c :: rest => (decode? rest).map (c :: ·)
  | .escaped high :: .escaped low :: rest =>
    if isHigh high then
      if isLow low then
        (decode? rest).map
          (Char.ofNat (0x10000 + (high - 0xD800) * 0x400 + (low - 0xDC00)) :: ·)
      else none
    else if isLow high then none
    else (decode? (.escaped low :: rest)).map (Char.ofNat high :: ·)
  | .escaped n :: rest =>
    if isHigh n || isLow n then none else (decode? rest).map (Char.ofNat n :: ·)

theorem length_stringBody?_lt {cs rest : List Char} {units : List CodeUnit}
    (h : stringBody? cs = some (units, rest)) : rest.length < cs.length := by
  fun_induction stringBody? cs generalizing units rest with
  | case1 => cases h
  | case2 tail =>
    cases h
    exact Nat.lt_succ_self _
  | case3 a b c d tail ih =>
    simp only [Option.bind_eq_bind, Option.bind_eq_some_iff, Option.pure_def,
      Option.some.injEq, Prod.mk.injEq, Prod.exists] at h
    obtain ⟨n, -, us, r, hr, -, rfl⟩ := h
    have := ih hr
    simp only [List.length_cons]
    omega
  | case4 e tail _ ih =>
    simp only [Option.bind_eq_bind, Option.bind_eq_some_iff, Option.pure_def,
      Option.some.injEq, Prod.mk.injEq, Prod.exists] at h
    obtain ⟨c, -, us, r, hr, -, rfl⟩ := h
    have := ih hr
    simp only [List.length_cons]
    omega
  | case5 => cases h
  | case6 c tail _ _ _ _ ih =>
    simp only [Option.bind_eq_bind, Option.bind_eq_some_iff, Option.pure_def,
      Option.some.injEq, Prod.mk.injEq, Prod.exists] at h
    obtain ⟨us, r, hr, -, rfl⟩ := h
    have := ih hr
    simp only [List.length_cons]
    omega

/-! ## Numbers -/

/-- What stands after one or more digits. -/
def digits? : List Char → Option (List Char)
  | [] => none
  | c :: rest => if c.isDigit then some (rest.dropWhile Char.isDigit) else none

/-- What stands after the whole part of a number.  It has no needless zero in
front. -/
def wholePart? : List Char → Option (List Char)
  | [] => none
  | c :: rest =>
    if c = '0' then
      if (rest.head?.map Char.isDigit).getD false then none else some rest
    else digits? (c :: rest)

/-- What stands after the fraction of a number, if it has one. -/
def fraction? : List Char → Option (List Char)
  | '.' :: rest => digits? rest
  | cs => some cs

/-- What stands after the exponent of a number, if it has one. -/
def exponent? : List Char → Option (List Char)
  | c :: rest =>
    if c = 'e' ∨ c = 'E' then
      match rest with
      | '+' :: rest => digits? rest
      | '-' :: rest => digits? rest
      | rest => digits? rest
    else some (c :: rest)
  | [] => some []

/-- What stands after the sign of a number, if it has one. -/
def afterSign : List Char → List Char
  | '-' :: rest => rest
  | cs => cs

/-- What stands after a number. -/
def number? (cs : List Char) : Option (List Char) :=
  ((wholePart? (afterSign cs)).bind fraction?).bind exponent?

/-- What stands after a string, a number, a truth value or null. -/
def scalar? (cs : List Char) : Option (List Char) :=
  match cs with
  | '"' :: rest => (stringBody? rest).map Prod.snd
  | cs =>
    word? "true".toList cs <|> word? "false".toList cs <|> word? "null".toList cs <|>
      number? cs

/-! ## Every one of these reads something -/

theorem length_word?_lt {word cs rest : List Char} (hw : word ≠ [])
    (h : word? word cs = some rest) : rest.length < cs.length := by
  unfold word? at h
  split at h
  · next hp =>
    cases h
    have hle := (List.isPrefixOf_iff_prefix.1 hp).length_le
    have hpos := List.length_pos_iff.2 hw
    rw [List.length_drop]
    omega
  · cases h

theorem length_digits?_lt {cs rest : List Char} (h : digits? cs = some rest) :
    rest.length < cs.length := by
  unfold digits? at h
  split at h
  · cases h
  · split at h
    · cases h
      exact Nat.lt_succ_of_le (List.dropWhile_suffix _).length_le
    · cases h

theorem length_wholePart?_lt {cs rest : List Char} (h : wholePart? cs = some rest) :
    rest.length < cs.length := by
  unfold wholePart? at h
  split at h
  · cases h
  · split at h
    · split at h
      · cases h
      · cases h
        exact Nat.lt_succ_self _
    · exact length_digits?_lt h

theorem length_fraction?_le {cs rest : List Char} (h : fraction? cs = some rest) :
    rest.length ≤ cs.length := by
  unfold fraction? at h
  split at h
  · exact Nat.le_of_lt (Nat.lt_succ_of_lt (length_digits?_lt h))
  · cases h
    exact Nat.le_refl _

theorem length_exponent?_le {cs rest : List Char} (h : exponent? cs = some rest) :
    rest.length ≤ cs.length := by
  unfold exponent? at h
  split at h
  · split at h
    · split at h <;>
        · have := length_digits?_lt h
          simp only [List.length_cons]
          omega
    · cases h
      exact Nat.le_refl _
  · cases h
    exact Nat.le_refl _

theorem length_afterSign_le (cs : List Char) : (afterSign cs).length ≤ cs.length := by
  unfold afterSign
  split
  · exact Nat.le_succ _
  · exact Nat.le_refl _

theorem length_number?_lt {cs rest : List Char} (h : number? cs = some rest) :
    rest.length < cs.length := by
  simp only [number?, Option.bind_eq_some_iff] at h
  obtain ⟨mid, ⟨front, hf, hm⟩, hr⟩ := h
  have h0 := length_afterSign_le cs
  have h1 := length_wholePart?_lt hf
  have h2 := length_fraction?_le hm
  have h3 := length_exponent?_le hr
  omega

theorem length_scalar?_lt {cs rest : List Char} (h : scalar? cs = some rest) :
    rest.length < cs.length := by
  unfold scalar? at h
  split at h
  · obtain ⟨⟨units, rest'⟩, hb, rfl⟩ := Option.map_eq_some_iff.1 h
    exact Nat.lt_succ_of_lt (length_stringBody?_lt hb)
  · simp only [Option.orElse_eq_orElse, Option.orElse_eq_or, Option.or_eq_some_iff] at h
    rcases h with h | ⟨-, h | ⟨-, h | ⟨-, h⟩⟩⟩
    · exact length_word?_lt (by simp) h
    · exact length_word?_lt (by simp) h
    · exact length_word?_lt (by simp) h
    · exact length_number?_lt h

/-! ## Deeper values -/

/-- A key with its colon: the units of the key, and what stands after the colon. -/
def key? (cs : List Char) : Option (List CodeUnit × List Char) :=
  match skipBlanks cs with
  | '"' :: rest =>
    match stringBody? rest with
    | some (units, rest) =>
      match skipBlanks rest with
      | ':' :: rest => some (units, rest)
      | _ => none
    | none => none
  | _ => none

/-- An array or an object that is open. -/
inductive Frame where
  | array
  | object
  deriving DecidableEq, Repr

/-- The bracket that closes what is open. -/
def Frame.closing : Frame → Char
  | array => ']'
  | object => '}'

/-- How far the reading of a value has come: whether the last thing read was an
opening bracket, what is open, the innermost first, and the characters to come. -/
structure State where
  fresh : Bool
  frames : List Frame
  rest : List Char

/-- Begin a value: read an opening bracket, or the whole of a value that has no
parts. -/
def begin? (frames : List Frame) (cs : List Char) : Option State :=
  match skipBlanks cs with
  | '[' :: rest => some ⟨true, .array :: frames, rest⟩
  | '{' :: rest => some ⟨true, .object :: frames, rest⟩
  | cs => (scalar? cs).map fun rest => ⟨false, frames, rest⟩

/-- Begin a part of what is open: an item, or a key with its value. -/
def part? (frame : Frame) (outer : List Frame) (cs : List Char) : Option State :=
  match frame with
  | .array => begin? (.array :: outer) cs
  | .object => (key? cs).bind fun (_, rest) => begin? (.object :: outer) rest

/-- Go on inside an array or an object: close it, or begin its next part.  Parts
are separated by commas, and a fresh array or object begins without one. -/
def step? (fresh : Bool) (frame : Frame) (outer : List Frame) (cs : List Char) :
    Option State :=
  match skipBlanks cs with
  | [] => none
  | c :: rest =>
    if c = frame.closing then some ⟨false, outer, rest⟩
    else if fresh then part? frame outer (c :: rest)
    else if c = ',' then part? frame outer rest
    else none

theorem length_key?_lt {cs rest : List Char} {units : List CodeUnit}
    (h : key? cs = some (units, rest)) : rest.length < cs.length := by
  unfold key? at h
  split at h
  · next r hr =>
    split at h
    · next us r' hb =>
      split at h
      · next r'' hr'' =>
        cases h
        have h1 := length_skipBlanks_le cs
        have h2 := length_stringBody?_lt hb
        have h3 := length_skipBlanks_le r'
        rw [hr] at h1
        rw [hr''] at h3
        simp only [List.length_cons] at h1 h3
        omega
      · cases h
    · cases h
  · cases h

theorem length_begin?_lt {frames : List Frame} {cs : List Char} {s : State}
    (h : begin? frames cs = some s) : s.rest.length < cs.length := by
  unfold begin? at h
  have h1 := length_skipBlanks_le cs
  split at h
  · next rest hr =>
    cases h
    rw [hr] at h1
    exact h1
  · next rest hr =>
    cases h
    rw [hr] at h1
    exact h1
  · obtain ⟨rest, hs, rfl⟩ := Option.map_eq_some_iff.1 h
    exact Nat.lt_of_lt_of_le (length_scalar?_lt hs) h1

theorem length_part?_lt {frame : Frame} {outer : List Frame} {cs : List Char} {s : State}
    (h : part? frame outer cs = some s) : s.rest.length < cs.length := by
  unfold part? at h
  split at h
  · exact length_begin?_lt h
  · obtain ⟨⟨units, rest⟩, hk, hb⟩ := Option.bind_eq_some_iff.1 h
    exact Nat.lt_trans (length_begin?_lt hb) (length_key?_lt hk)

/-- Every step reads something. -/
theorem length_step?_lt {fresh : Bool} {frame : Frame} {outer : List Frame}
    {cs : List Char} {s : State} (h : step? fresh frame outer cs = some s) :
    s.rest.length < cs.length := by
  unfold step? at h
  have h1 := length_skipBlanks_le cs
  split at h
  · cases h
  · next c rest hc =>
    rw [hc] at h1
    simp only [List.length_cons] at h1
    split at h
    · cases h
      exact h1
    · split at h
      · exact Nat.lt_of_lt_of_le (length_part?_lt h) h1
      · split at h
        · have := length_part?_lt h
          omega
        · cases h

/-- Go on until nothing is open, and say what stands after the value. -/
def finish? : State → Option (List Char)
  | ⟨_, [], rest⟩ => some rest
  | ⟨fresh, frame :: outer, rest⟩ =>
    match _h : step? fresh frame outer rest with
    | none => none
    | some s => finish? s
termination_by s => s.rest.length
decreasing_by exact length_step?_lt _h

/-- Reading on to the end of a value takes no character back. -/
theorem length_finish?_le {s : State} {rest : List Char} (h : finish? s = some rest) :
    rest.length ≤ s.rest.length := by
  fun_induction finish? s with
  | case1 fresh cs =>
    cases h
    exact Nat.le_refl _
  | case2 => cases h
  | case3 fresh frame outer cs s' hs ih =>
    exact Nat.le_trans (ih h) (Nat.le_of_lt (length_step?_lt hs))

/-- What stands after a well-formed value. -/
def skip? (cs : List Char) : Option (List Char) :=
  (begin? [] cs).bind finish?

theorem length_skip?_lt {cs rest : List Char} (h : skip? cs = some rest) :
    rest.length < cs.length := by
  obtain ⟨s, hb, hf⟩ := Option.bind_eq_some_iff.1 h
  exact Nat.lt_of_le_of_lt (length_finish?_le hf) (length_begin?_lt hb)

/-! ## One level -/

/-- A well-formed value as it is written, and what stands after it. -/
def value? (cs : List Char) : Option (List Char × List Char) :=
  (skip? (skipBlanks cs)).map fun rest =>
    ((skipBlanks cs).take ((skipBlanks cs).length - rest.length), skipBlanks rest)

/-- A key and its value as it is written, and what stands after them. -/
def member? (cs : List Char) : Option ((String × List Char) × List Char) :=
  (key? cs).bind fun (units, rest) =>
    (decode? units).bind fun key =>
      (value? rest).map fun (written, rest) => ((String.ofList key, written), rest)

theorem length_value?_lt {cs written rest : List Char} (h : value? cs = some (written, rest)) :
    rest.length < cs.length := by
  obtain ⟨after, hs, he⟩ := Option.map_eq_some_iff.1 h
  cases he
  have h1 := length_skipBlanks_le cs
  have h2 := length_skip?_lt hs
  have h3 := length_skipBlanks_le after
  omega

theorem length_member?_lt {cs rest : List Char} {m : String × List Char}
    (h : member? cs = some (m, rest)) : rest.length < cs.length := by
  obtain ⟨⟨units, r⟩, hk, h⟩ := Option.bind_eq_some_iff.1 h
  obtain ⟨key, -, h⟩ := Option.bind_eq_some_iff.1 h
  obtain ⟨⟨written, r'⟩, hv, he⟩ := Option.map_eq_some_iff.1 h
  cases he
  exact Nat.lt_trans (length_value?_lt hv) (length_key?_lt hk)

/-- The members of an object from a key to the closing bracket, and what stands
after the bracket. -/
def members? (cs : List Char) : Option (List (String × List Char) × List Char) :=
  match _h : member? cs with
  | some (m, '}' :: rest) => some ([m], rest)
  | some (m, ',' :: rest) => (members? rest).map fun (ms, rest) => (m :: ms, rest)
  | _ => none
termination_by cs.length
decreasing_by exact Nat.lt_of_succ_lt (length_member?_lt _h)

/-- The items of an array from an item to the closing bracket, as they are written,
and what stands after the bracket. -/
def items? (cs : List Char) : Option (List (List Char) × List Char) :=
  match _h : value? cs with
  | some (written, ']' :: rest) => some ([written], rest)
  | some (written, ',' :: rest) => (items? rest).map fun (ws, rest) => (written :: ws, rest)
  | _ => none
termination_by cs.length
decreasing_by exact Nat.lt_of_succ_lt (length_value?_lt _h)

/-- A JSON document, read one level deep: the items of an array or the members of
an object, as they are written. -/
inductive Outline where
  | array (items : List (List Char))
  | object (members : List (String × List Char))
  deriving DecidableEq, Repr

/-- The outline of a text that holds one array or one object and nothing else. -/
def outline? (text : String) : Option Outline := do
  let (outline, rest) ← match skipBlanks text.toList with
    | '[' :: rest =>
      match skipBlanks rest with
      | ']' :: rest => some (Outline.array [], rest)
      | rest => (items? rest).map fun (items, rest) => (.array items, rest)
    | '{' :: rest =>
      match skipBlanks rest with
      | '}' :: rest => some (Outline.object [], rest)
      | rest => (members? rest).map fun (members, rest) => (.object members, rest)
    | _ => none
  if skipBlanks rest = [] then some outline else none

end Reader
end Json
end StudyPlan
