import Mathlib.Data.List.Induction
import StudyPlan.Json.Reader

/-!
# JSON text read back

`Json.render` has an inverse.  It reads a text as JSON does (`Json.ofText?`), blanks,
escapes and all, whoever wrote the text; what it does not know is numbers other than
the natural ones, which no report has.  The text of a value is read back as this value,
in either layout (`ofText?_render`).  So a text belongs to one value at most, and a
statement about what a text says is one about what is read from it.

## Why strings do not run into what follows

How a string is written is said without a reader (`StringText`), and so is what it stands
for: each character as it is, or by its number, or as the two halves that UTF-16 has for
large numbers (`Encodes`).  A quote inside a string is always escaped, so the first one that
is not ends the string.  A key is a string like any other, and whatever characters a course
code has, they do not touch the structure around it.

Of all values only a number does not show where it ends.  It is read up to the first
character that is no digit, and the writer puts a comma, a closing bracket, a blank or
nothing behind it (`Unextended`).

## Why reading ends

What stands in brackets is shorter than the text around it.  `readValue?` is told how long
its text may be, and the length of the whole text will do.
-/

namespace StudyPlan
namespace Json

open Reader

/-! ## Reading a whole value -/

section Reading

variable {α : Type}

/-- A string behind its first quote, and what stands after it. -/
def readString? (cs : List Char) : Option (String × List Char) :=
  (stringBody? cs).bind fun (units, rest) =>
    (decode? units).map fun text => (String.ofList text, rest)

/-- A natural number, and what stands after it. -/
def readNumber? (cs : List Char) : Option (Nat × List Char) :=
  (wholePart? cs).map fun rest => (Nat.ofDigitChars 10 (cs.takeWhile Char.isDigit) 0, rest)

/-- A value that has no parts, if it does not begin with a quote. -/
def readAtom? (cs : List Char) : Option (Json × List Char) :=
  ((word? "null".toList cs).map fun rest => (null, rest)) <|>
    ((word? "true".toList cs).map fun rest => (bool true, rest)) <|>
    ((word? "false".toList cs).map fun rest => (bool false, rest)) <|>
    ((readNumber? cs).map fun (n, rest) => (number n, rest))

/-- A key with a value that `value` reads. -/
def readMember? (value : List Char → Option (α × List Char)) (cs : List Char) :
    Option ((String × α) × List Char) :=
  (key? cs).bind fun (units, rest) =>
    (decode? units).bind fun key =>
      (value rest).map fun (a, rest) => ((String.ofList key, a), rest)

/-- One or more parts with commas between them, up to the closing bracket, and what
stands after the bracket. -/
def readParts? (part : List Char → Option (α × List Char)) (closing : Char) (cs : List Char) :
    Option (List α × List Char) :=
  match part cs with
  | none => none
  | some (a, rest) =>
    match skipBlanks rest with
    | [] => none
    | c :: rest =>
      if c = closing then some ([a], rest)
      else if _h : c = ',' ∧ rest.length < cs.length then
        (readParts? part closing rest).map fun (as, rest) => (a :: as, rest)
      else none
termination_by cs.length
decreasing_by exact _h.2

/-- Parts with commas between them, or none, up to the closing bracket. -/
def readEnclosed? (part : List Char → Option (α × List Char)) (closing : Char) (cs : List Char) :
    Option (List α × List Char) :=
  if (skipBlanks cs).head? = some closing then some ([], (skipBlanks cs).tail)
  else readParts? part closing cs

/-- A value that takes up at most so many characters, and what stands after it. -/
def readValue? : Nat → List Char → Option (Json × List Char)
  | 0, _ => none
  | room + 1, cs =>
    match skipBlanks cs with
    | '"' :: rest => (readString? rest).map fun (s, rest) => (string s, rest)
    | '[' :: rest =>
      (readEnclosed? (readValue? room) ']' rest).map fun (js, rest) => (array js, rest)
    | '{' :: rest =>
      (readEnclosed? (readMember? (readValue? room)) '}' rest).map fun (ms, rest) =>
        (object ms, rest)
    | cs => readAtom? cs

/-- The value that a text holds, if it holds one and nothing else. -/
def ofText? (text : String) : Option Json :=
  (readValue? text.toList.length text.toList).bind fun (j, rest) =>
    if skipBlanks rest = [] then some j else none

end Reading

/-! ## Blanks -/

theorem skipBlanks_append {blanks : List Char} (h : ∀ c ∈ blanks, isBlank c = true)
    (cs : List Char) : skipBlanks (blanks ++ cs) = skipBlanks cs :=
  List.dropWhile_append_of_pos h

theorem skipBlanks_cons {c : Char} (h : isBlank c = false) (cs : List Char) :
    skipBlanks (c :: cs) = c :: cs :=
  List.dropWhile_cons_of_neg (by simp [h])

theorem isBlank_of_mem_lineBreak (l : Layout) (depth : Nat) :
    ∀ c ∈ l.lineBreak depth, isBlank c = true := by
  intro c hc
  cases l with
  | compact => cases hc
  | indented =>
    rcases List.mem_cons.1 hc with rfl | hc
    · rfl
    · rw [List.eq_of_mem_replicate hc]
      rfl

/-! ## Strings -/

/-- How one unit of a string is written. -/
inductive UnitText : List Char → CodeUnit → Prop
  | plain {c : Char} : c ≠ '"' → c ≠ '\\' → 0x20 ≤ c.toNat → UnitText [c] (.char c)
  | letter {e c : Char} : escapeLetter? e = some c → UnitText ['\\', e] (.char c)
  | hex {a b c d : Char} {n : Nat} :
      hex? a b c d = some n → UnitText ['\\', 'u', a, b, c, d] (.escaped n)

/-- How a string is written between its marks. -/
inductive StringText : List Char → List CodeUnit → Prop
  | nil : StringText [] []
  | cons {w cs : List Char} {u : CodeUnit} {us : List CodeUnit} :
      UnitText w u → StringText cs us → StringText (w ++ cs) (u :: us)

/-- The units of a string stand for these characters. -/
inductive Encodes : List CodeUnit → List Char → Prop
  | nil : Encodes [] []
  | char {us : List CodeUnit} {cs : List Char} (c : Char) :
      Encodes us cs → Encodes (.char c :: us) (c :: cs)
  | single {us : List CodeUnit} {cs : List Char} {c : Char} :
      c.toNat < 0x10000 → Encodes us cs → Encodes (.escaped c.toNat :: us) (c :: cs)
  | pair {us : List CodeUnit} {cs : List Char} {c : Char} :
      0x10000 ≤ c.toNat → Encodes us cs →
        Encodes (.escaped (0xD800 + (c.toNat - 0x10000) / 0x400) ::
          .escaped (0xDC00 + (c.toNat - 0x10000) % 0x400) :: us) (c :: cs)

/-- No character is half a surrogate pair. -/
theorem isHigh_toNat (c : Char) : isHigh c.toNat = false := by
  simp only [isHigh, Bool.and_eq_false_iff, decide_eq_false_iff_not]
  rcases c.valid with h | h <;> simp only [Char.toNat] <;> omega

theorem isLow_toNat (c : Char) : isLow c.toNat = false := by
  simp only [isLow, Bool.and_eq_false_iff, decide_eq_false_iff_not]
  rcases c.valid with h | h <;> simp only [Char.toNat] <;> omega

/-- The number of a character is read as this character. -/
theorem decode?_escaped_cons (c : Char) (units : List CodeUnit) :
    decode? (.escaped c.toNat :: units) = (decode? units).map (c :: ·) := by
  rcases units with _ | ⟨d | m, units⟩ <;>
    simp [decode?, isHigh_toNat, isLow_toNat, Char.ofNat_toNat]

/-- The first unit of a string, before the others. -/
def withUnit (u : CodeUnit) : List CodeUnit × List Char → List CodeUnit × List Char :=
  fun (units, rest) => (u :: units, rest)

theorem stringBody?_letter {e c : Char} (he : escapeLetter? e = some c) (cs : List Char) :
    stringBody? ('\\' :: e :: cs) = (stringBody? cs).map (withUnit (.char c)) := by
  have hu : e ≠ 'u' := by
    rintro rfl
    cases he
  rw [stringBody?.eq_4 e cs fun _ _ _ _ _ h _ => hu h, he]
  cases stringBody? cs <;> rfl

theorem stringBody?_hex {a b c d : Char} {n : Nat} (hn : hex? a b c d = some n)
    (cs : List Char) :
    stringBody? ('\\' :: 'u' :: a :: b :: c :: d :: cs) =
      (stringBody? cs).map (withUnit (.escaped n)) := by
  rw [stringBody?.eq_3, hn]
  cases stringBody? cs <;> rfl

theorem stringBody?_plain {c : Char} (hquote : c ≠ '"') (hslash : c ≠ '\\')
    (hlow : ¬ c.toNat < 0x20) (cs : List Char) :
    stringBody? (c :: cs) = (stringBody? cs).map (withUnit (.char c)) := by
  rw [stringBody?.eq_5 c cs hquote (fun _ _ _ _ _ h _ => hslash h) fun _ _ h _ => hslash h,
    if_neg (not_or.2 ⟨hslash, hlow⟩)]
  cases stringBody? cs <;> rfl

/-- A unit is read, whatever follows it. -/
theorem UnitText.stringBody?_append {w : List Char} {u : CodeUnit} (h : UnitText w u)
    (cs : List Char) : stringBody? (w ++ cs) = (stringBody? cs).map (withUnit u) := by
  cases h with
  | plain hquote hslash hlow => exact stringBody?_plain hquote hslash (Nat.not_lt.2 hlow) cs
  | letter he => exact stringBody?_letter he cs
  | hex hn => exact stringBody?_hex hn cs

/-- A string is read up to the mark that ends it. -/
theorem StringText.stringBody?_eq {cs : List Char} {us : List CodeUnit} (h : StringText cs us)
    (rest : List Char) : stringBody? (cs ++ '"' :: rest) = some (us, rest) := by
  induction h with
  | nil => rfl
  | cons hu _ ih =>
    rw [List.append_assoc, hu.stringBody?_append, ih]
    rfl

/-- The two halves of a large character are put together again. -/
theorem decode?_pair {c : Char} (hc : 0x10000 ≤ c.toNat) (us : List CodeUnit) :
    decode? (.escaped (0xD800 + (c.toNat - 0x10000) / 0x400) ::
      .escaped (0xDC00 + (c.toNat - 0x10000) % 0x400) :: us) = (decode? us).map (c :: ·) := by
  have hvalid : c.toNat < 0x110000 := by
    rcases c.valid with h | h <;> simp only [Char.toNat] <;> omega
  have hhigh : isHigh (0xD800 + (c.toNat - 0x10000) / 0x400) = true := by
    simp only [isHigh, Bool.and_eq_true, decide_eq_true_eq]
    omega
  have hlow : isLow (0xDC00 + (c.toNat - 0x10000) % 0x400) = true := by
    simp only [isLow, Bool.and_eq_true, decide_eq_true_eq]
    omega
  have hsum : 0x10000 + (0xD800 + (c.toNat - 0x10000) / 0x400 - 0xD800) * 0x400 +
      (0xDC00 + (c.toNat - 0x10000) % 0x400 - 0xDC00) = c.toNat := by
    omega
  rw [decode?, if_pos hhigh, if_pos hlow, hsum, Char.ofNat_toNat]

theorem Encodes.decode?_eq {us : List CodeUnit} {cs : List Char} (h : Encodes us cs) :
    decode? us = some cs := by
  induction h with
  | nil => rfl
  | char c _ ih => rw [decode?, ih, Option.map_some]
  | single _ _ ih => rw [decode?_escaped_cons, ih, Option.map_some]
  | pair hc _ ih => rw [decode?_pair hc, ih, Option.map_some]

/-- There are three ways to write a character: behind a backslash, by its number, and as
it is. -/
theorem escape_cases (c : Char) :
    (∃ e, escape c = ['\\', e] ∧ escapeLetter? e = some c) ∨
      (c.toNat < 0x20 ∧ escape c = ['\\', 'u', '0', '0', Nat.digitChar (c.toNat / 16),
        Nat.digitChar (c.toNat % 16)]) ∨
      (escape c = [c] ∧ c ≠ '"' ∧ c ≠ '\\' ∧ ¬ c.toNat < 0x20) := by
  by_cases hletter : c = '"' ∨ c = '\\' ∨ c = '\x08' ∨ c = '\x0c' ∨ c = '\n' ∨ c = '\r' ∨ c = '\t'
  · left
    rcases hletter with rfl | rfl | rfl | rfl | rfl | rfl | rfl <;> exact ⟨_, rfl, rfl⟩
  · simp only [not_or] at hletter
    obtain ⟨h1, h2, h3, h4, h5, h6, h7⟩ := hletter
    rw [escape, if_neg h1, if_neg h2, if_neg h3, if_neg h4, if_neg h5, if_neg h6, if_neg h7]
    by_cases hlow : c.toNat < 0x20
    · exact .inr (.inl ⟨hlow, if_pos hlow⟩)
    · exact .inr (.inr ⟨if_neg hlow, h1, h2, hlow⟩)

/-- The two digits of a small number are its digits to the base sixteen. -/
theorem hex?_digitChar {n : Nat} (h : n < 0x20) :
    hex? '0' '0' (Nat.digitChar (n / 16)) (Nat.digitChar (n % 16)) = some n :=
  (by decide : ∀ n < 0x20,
    hex? '0' '0' (Nat.digitChar (n / 16)) (Nat.digitChar (n % 16)) = some n) n h

/-- A character is written as one unit that stands for it. -/
theorem exists_unitText (c : Char) :
    ∃ u, UnitText (escape c) u ∧ ∀ us cs, Encodes us cs → Encodes (u :: us) (c :: cs) := by
  obtain ⟨e, hescape, he⟩ | ⟨hlow, hescape⟩ | ⟨hescape, hquote, hslash, hlow⟩ := escape_cases c
  · exact ⟨.char c, hescape ▸ .letter he, fun _ _ => .char c⟩
  · exact ⟨.escaped c.toNat, hescape ▸ .hex (hex?_digitChar hlow),
      fun _ _ => .single (by omega)⟩
  · exact ⟨.char c, hescape ▸ .plain hquote hslash (Nat.not_lt.1 hlow), fun _ _ => .char c⟩

/-- What the writer writes between the marks of a string is well formed and stands for its
characters. -/
theorem exists_stringText (cs : List Char) :
    ∃ us, StringText (cs.flatMap escape) us ∧ Encodes us cs := by
  induction cs with
  | nil => exact ⟨[], .nil, .nil⟩
  | cons c cs ih =>
    obtain ⟨us, htext, hencodes⟩ := ih
    obtain ⟨u, hunit, hchar⟩ := exists_unitText c
    exact ⟨u :: us, .cons hunit htext, hchar us cs hencodes⟩

theorem readString?_quote (s : String) (rest : List Char) :
    readString? (s.toList.flatMap escape ++ '"' :: rest) = some (s, rest) := by
  obtain ⟨us, htext, hencodes⟩ := exists_stringText s.toList
  simp only [readString?, htext.stringBody?_eq, Option.bind_some, hencodes.decode?_eq,
    Option.map_some, String.ofList_toList]

/-! ## Numbers -/

/-- No digit comes next. -/
def Unextended (rest : List Char) : Prop :=
  ∀ c ∈ rest.head?, c.isDigit = false

theorem Unextended.nil : Unextended [] := nofun

theorem Unextended.cons {c : Char} (h : c.isDigit = false) (rest : List Char) :
    Unextended (c :: rest) := by
  rintro _ ⟨⟩
  exact h

theorem Unextended.blanks {blanks : List Char} (h : ∀ c ∈ blanks, isBlank c = true)
    {rest : List Char} (hrest : Unextended rest) : Unextended (blanks ++ rest) := by
  cases blanks with
  | nil => exact hrest
  | cons c blanks =>
    have hc := h c List.mem_cons_self
    simp only [isBlank, Bool.or_eq_true, beq_iff_eq] at hc
    refine Unextended.cons ?_ _
    rcases hc with ((rfl | rfl) | rfl) | rfl <;> rfl

/-- No number but zero begins with a zero. -/
theorem eq_nil_of_toDigits_eq_cons {n : Nat} {cs : List Char}
    (h : Nat.toDigits 10 n = '0' :: cs) : cs = [] := by
  induction n using Nat.strongRecOn generalizing cs with
  | ind n ih =>
    rcases Nat.lt_or_ge n 10 with hn | hn
    · rw [Nat.toDigits_of_lt_base hn] at h
      exact (List.cons.inj h).2.symm
    · rw [Nat.toDigits_of_base_le (by decide) hn] at h
      rcases hfront : Nat.toDigits 10 (n / 10) with _ | ⟨c, front⟩
      · exact absurd hfront Nat.toDigits_ne_nil
      · rw [hfront] at h
        obtain rfl := (List.cons.inj h).1
        obtain rfl := ih (n / 10) (by omega) hfront
        have hzero := congrArg (Nat.ofDigitChars 10 · 0) hfront
        rw [Nat.ofDigitChars_ten_toDigits] at hzero
        have : n / 10 = 0 := hzero
        omega

theorem toDigits_digit {c : Char} (hc : c.isDigit = true) :
    Nat.toDigits 10 (c.toNat - '0'.toNat) = [c] := by
  obtain ⟨hlow, hhigh⟩ := Char.isDigit_iff_toNat.1 hc
  have hdigit : ∀ n ≤ '9'.toNat, '0'.toNat ≤ n →
      Nat.toDigits 10 (n - '0'.toNat) = [Char.ofNat n] := by
    decide
  rw [hdigit _ hhigh hlow, Char.ofNat_toNat]

/-- Digits are those of their value, behind some zeros. -/
theorem exists_zeros {ds : List Char} (hne : ds ≠ []) (hds : ∀ c ∈ ds, c.isDigit = true) :
    ∃ k, ds = List.replicate k '0' ++ Nat.toDigits 10 (Nat.ofDigitChars 10 ds 0) := by
  induction ds using List.reverseRecOn with
  | nil => exact absurd rfl hne
  | append_singleton ds c ih =>
    have hc := hds c (by simp)
    rw [Nat.ofDigitChars_append, Nat.ofDigitChars_cons, Nat.ofDigitChars_nil]
    rcases eq_or_ne ds [] with rfl | hfront
    · refine ⟨0, ?_⟩
      rw [Nat.ofDigitChars_nil, Nat.mul_zero, Nat.zero_add, toDigits_digit hc]
      rfl
    · obtain ⟨k, hk⟩ := ih hfront fun d hd => hds d (by simp [hd])
      -- the digits before the last one are zeros, or they are those of a number
      rcases Nat.eq_zero_or_pos (Nat.ofDigitChars 10 ds 0) with hzero | hpos
      · rw [hzero] at hk ⊢
        refine ⟨k + 1, ?_⟩
        rw [Nat.mul_zero, Nat.zero_add, toDigits_digit hc, hk, List.replicate_succ']
        rfl
      · have hlast : c.toNat - '0'.toNat < 10 := by
          have hhigh := (Char.isDigit_iff_toNat.1 hc).2
          have hnine : '9'.toNat = '0'.toNat + 9 := rfl
          omega
        refine ⟨k, ?_⟩
        rw [← Nat.toDigits_append_toDigits (by decide) hpos hlast, toDigits_digit hc,
          ← List.append_assoc, ← hk]

theorem dropWhile_digits_append {cs rest : List Char} (h : ∀ c ∈ cs, c.isDigit = true)
    (hrest : Unextended rest) : (cs ++ rest).dropWhile Char.isDigit = rest := by
  rw [List.dropWhile_append_of_pos h]
  cases rest with
  | nil => rfl
  | cons c rest => exact List.dropWhile_cons_of_neg (by simp [hrest c rfl])

theorem takeWhile_digits_append {cs rest : List Char} (h : ∀ c ∈ cs, c.isDigit = true)
    (hrest : Unextended rest) : (cs ++ rest).takeWhile Char.isDigit = cs := by
  rw [List.takeWhile_append_of_pos h]
  cases rest with
  | nil => exact List.append_nil cs
  | cons c rest => rw [List.takeWhile_cons_of_neg (by simp [hrest c rfl]), List.append_nil]

theorem digits?_append {ds rest : List Char} (hne : ds ≠ [])
    (hdigit : ∀ c ∈ ds, c.isDigit = true) (hrest : Unextended rest) :
    digits? (ds ++ rest) = some rest := by
  rcases ds with _ | ⟨c, cs⟩
  · exact absurd rfl hne
  · rw [List.cons_append, digits?, if_pos (hdigit c List.mem_cons_self),
      dropWhile_digits_append (fun d hd => hdigit d (List.mem_cons_of_mem c hd)) hrest]

/-- Digits are read as a whole part if there is no needless zero in front. -/
theorem wholePart?_append {ds rest : List Char} (hne : ds ≠ [])
    (hdigit : ∀ c ∈ ds, c.isDigit = true) (hzero : ∀ cs, ds = '0' :: cs → cs = [])
    (hrest : Unextended rest) : wholePart? (ds ++ rest) = some rest := by
  rcases ds with _ | ⟨c, cs⟩
  · exact absurd rfl hne
  · rw [List.cons_append, wholePart?]
    split
    · next heq =>
      obtain rfl := heq
      obtain rfl := hzero cs rfl
      cases rest with
      | nil => rfl
      | cons d rest => simp [hrest d rfl]
    · exact digits?_append hne hdigit hrest

theorem readNumber?_toDigits (n : Nat) {rest : List Char} (hrest : Unextended rest) :
    readNumber? (Nat.toDigits 10 n ++ rest) = some (n, rest) := by
  have hdigit : ∀ c ∈ Nat.toDigits 10 n, c.isDigit = true := fun c hc =>
    Nat.isDigit_of_mem_toDigits (by decide) (by decide) hc
  have hwhole := wholePart?_append Nat.toDigits_ne_nil hdigit
    (fun _ => eq_nil_of_toDigits_eq_cons) hrest
  rw [readNumber?, hwhole, takeWhile_digits_append hdigit hrest, Nat.ofDigitChars_ten_toDigits,
    Option.map_some]

/-! ## Brackets -/

section Brackets

variable {α : Type}

/-- The text of some parts behind their opening bracket. -/
def bodyText (text : α → List Char) (blanks : List Char) (closing : Char) :
    List α → List Char
  | [] => [closing]
  | a :: as => text a ++ (as.flatMap (fun b => ',' :: text b) ++ (blanks ++ [closing]))

/-- A part is shorter than the brackets with all that they hold. -/
theorem length_text_lt (text : α → List Char) (blanks : List Char) (closing : Char) {a : α}
    {as : List α} (h : a ∈ as) : (text a).length < (bodyText text blanks closing as).length := by
  cases as with
  | nil => cases h
  | cons b as =>
    simp only [bodyText, List.length_append, List.length_singleton]
    rcases List.mem_cons.1 h with rfl | h
    · omega
    · have hle : (',' :: text a).length ≤ (as.flatMap fun b => ',' :: text b).length :=
        (List.sublist_flatten_of_mem
          (List.mem_map_of_mem (f := fun b => ',' :: text b) h)).length_le
      rw [List.length_cons] at hle
      omega

/-- A bracket that closes something is no blank, no comma and no digit. -/
structure Closes (closing : Char) : Prop where
  not_blank : isBlank closing = false
  not_comma : closing ≠ ','
  not_digit : closing.isDigit = false

variable {part : List Char → Option (α × List Char)} {text : α → List Char} {closing : Char}
  {blanks : List Char}

/-- Parts are read one after the other if each is read, whatever comes behind it. -/
theorem readParts?_bodyText (hclosing : Closes closing) (hblanks : ∀ c ∈ blanks, isBlank c = true)
    {a : α} {as : List α}
    (h : ∀ b ∈ a :: as, ∀ rest, Unextended rest → part (text b ++ rest) = some (b, rest))
    (rest : List Char) :
    readParts? part closing (bodyText text blanks closing (a :: as) ++ rest) =
      some (a :: as, rest) := by
  induction as generalizing a with
  | nil =>
    have hclose : Unextended (blanks ++ closing :: rest) :=
      Unextended.blanks hblanks (Unextended.cons hclosing.not_digit _)
    have htext : bodyText text blanks closing [a] ++ rest =
        text a ++ (blanks ++ closing :: rest) := by
      simp [bodyText]
    rw [htext, readParts?, h a List.mem_cons_self _ hclose]
    simp only [skipBlanks_append hblanks, skipBlanks_cons hclosing.not_blank, if_true]
  | cons b as ih =>
    have htext : bodyText text blanks closing (a :: b :: as) ++ rest =
        text a ++ ',' :: (bodyText text blanks closing (b :: as) ++ rest) := by
      simp [bodyText]
    have hcomma : Unextended (',' :: (bodyText text blanks closing (b :: as) ++ rest)) :=
      Unextended.cons rfl _
    have hshorter : (bodyText text blanks closing (b :: as) ++ rest).length <
        (text a ++ ',' :: (bodyText text blanks closing (b :: as) ++ rest)).length := by
      simp only [List.length_append, List.length_cons]
      omega
    rw [htext, readParts?, h a List.mem_cons_self _ hcomma]
    simp only [skipBlanks_cons (show isBlank ',' = false from rfl), hclosing.not_comma.symm,
      if_false, true_and, dif_pos hshorter,
      ih fun c hc => h c (List.mem_cons_of_mem a hc), Option.map_some]

/-- What stands in brackets is read if each part is and no part begins with the closing
bracket. -/
theorem readEnclosed?_bodyText (hclosing : Closes closing)
    (hblanks : ∀ c ∈ blanks, isBlank c = true)
    (hnone : ∀ cs, (skipBlanks cs).head? = some closing → part cs = none) {as : List α}
    (h : ∀ a ∈ as, ∀ rest, Unextended rest → part (text a ++ rest) = some (a, rest))
    (rest : List Char) :
    readEnclosed? part closing (bodyText text blanks closing as ++ rest) = some (as, rest) := by
  cases as with
  | nil =>
    rw [readEnclosed?, bodyText, List.singleton_append, skipBlanks_cons hclosing.not_blank]
    exact if_pos rfl
  | cons a as =>
    have hparts := readParts?_bodyText hclosing hblanks h rest
    rw [readEnclosed?, if_neg, hparts]
    intro hhead
    rw [readParts?, hnone _ hhead] at hparts
    cases hparts

end Brackets

/-! ## Values -/

theorem writeItems_eq (l : Layout) (depth : Nat) (js : List Json) :
    writeItems l depth js = js.flatMap fun j => ',' :: (l.lineBreak depth ++ write l depth j) := by
  induction js with
  | nil => rw [writeItems, List.flatMap_nil]
  | cons j js ih => rw [writeItems, ih, List.flatMap_cons, List.cons_append]

theorem write_array (l : Layout) (depth : Nat) (js : List Json) :
    write l depth (array js) = '[' :: bodyText
      (fun j => l.lineBreak (depth + 1) ++ write l (depth + 1) j) (l.lineBreak depth) ']' js := by
  cases js with
  | nil => rw [write, bodyText]
  | cons j js =>
    rw [write, bodyText, writeItems_eq]
    simp only [List.cons_append, List.append_assoc]

/-- A member of an object as it is written. -/
def memberText (l : Layout) (depth : Nat) (m : String × Json) : List Char :=
  l.lineBreak depth ++ (quote m.1 ++ (l.colon ++ write l depth m.2))

theorem writeMembers_eq (l : Layout) (depth : Nat) (ms : List (String × Json)) :
    writeMembers l depth ms = ms.flatMap fun m => ',' :: memberText l depth m := by
  induction ms with
  | nil => rw [writeMembers, List.flatMap_nil]
  | cons m ms ih =>
    rw [writeMembers, ih, List.flatMap_cons, memberText]
    simp only [List.cons_append, List.append_assoc]

theorem write_object (l : Layout) (depth : Nat) (ms : List (String × Json)) :
    write l depth (object ms) =
      '{' :: bodyText (memberText l (depth + 1)) (l.lineBreak depth) '}' ms := by
  cases ms with
  | nil => rw [write, bodyText]
  | cons m ms =>
    rw [write, bodyText, writeMembers_eq, memberText]
    simp only [List.cons_append, List.append_assoc]

theorem readValue?_append {blanks : List Char} (h : ∀ c ∈ blanks, isBlank c = true) (room : Nat)
    (cs : List Char) : readValue? room (blanks ++ cs) = readValue? room cs := by
  cases room with
  | zero => rfl
  | succ room => rw [readValue?, readValue?, skipBlanks_append h]

/-- A value that begins with none of three characters has no parts. -/
theorem readValue?_atom {c : Char} (hblank : isBlank c = false) (hquote : c ≠ '"')
    (harray : c ≠ '[') (hobject : c ≠ '{') (room : Nat) (cs : List Char) :
    readValue? (room + 1) (c :: cs) = readAtom? (c :: cs) := by
  rw [readValue?, skipBlanks_cons hblank]
  split
  · next h => exact absurd (List.cons.inj h).1 hquote
  · next h => exact absurd (List.cons.inj h).1 harray
  · next h => exact absurd (List.cons.inj h).1 hobject
  · rfl

theorem word?_eq_none {c d : Char} (h : d ≠ c) (word cs : List Char) :
    word? (d :: word) (c :: cs) = none := by
  rw [word?, if_neg]
  simp [h]

theorem readValue?_toDigits (n room : Nat) {rest : List Char} (hrest : Unextended rest) :
    readValue? (room + 1) (Nat.toDigits 10 n ++ rest) = some (number n, rest) := by
  have hnumber := readNumber?_toDigits n hrest
  rcases hn : Nat.toDigits 10 n with _ | ⟨c, cs⟩
  · exact absurd hn Nat.toDigits_ne_nil
  · have hdigit : c.isDigit = true :=
      Nat.isDigit_of_mem_toDigits (b := 10) (n := n) (by decide) (by decide) (by simp [hn])
    have hne : ∀ d : Char, d.isDigit = false → d ≠ c := by
      rintro d hd rfl
      rw [hd] at hdigit
      cases hdigit
    have hblank : isBlank c = false := by
      simp [isBlank, (hne ' ' rfl).symm, (hne '\t' rfl).symm, (hne '\n' rfl).symm,
        (hne '\r' rfl).symm]
    have hnull : word? "null".toList (c :: (cs ++ rest)) = none := word?_eq_none (hne 'n' rfl) _ _
    have htrue : word? "true".toList (c :: (cs ++ rest)) = none := word?_eq_none (hne 't' rfl) _ _
    have hfalse : word? "false".toList (c :: (cs ++ rest)) = none := word?_eq_none (hne 'f' rfl) _ _
    rw [hn, List.cons_append] at hnumber
    rw [List.cons_append, readValue?_atom hblank (hne _ rfl).symm (hne _ rfl).symm (hne _ rfl).symm,
      readAtom?, hnull, htrue, hfalse, hnumber]
    rfl

/-- What an object and an array have in brackets does not begin with the closing one. -/
theorem readValue?_eq_none (room : Nat) {cs : List Char} (h : (skipBlanks cs).head? = some ']') :
    readValue? room cs = none := by
  obtain ⟨rest, hrest⟩ := List.head?_eq_some_iff.1 h
  cases room with
  | zero => rfl
  | succ room =>
    rw [readValue?, hrest]
    rfl

theorem readMember?_eq_none (value : List Char → Option (Json × List Char)) {cs : List Char}
    (h : (skipBlanks cs).head? = some '}') : readMember? value cs = none := by
  obtain ⟨rest, hrest⟩ := List.head?_eq_some_iff.1 h
  rw [readMember?, key?, hrest]
  rfl

/-- A key is read up to its colon. -/
theorem key?_quote {blanks : List Char} (h : ∀ c ∈ blanks, isBlank c = true) (key : String) :
    ∃ units, decode? units = some key.toList ∧ ∀ cs,
      key? (blanks ++ (quote key ++ ':' :: cs)) = some (units, cs) := by
  obtain ⟨units, htext, hencodes⟩ := exists_stringText key.toList
  refine ⟨units, hencodes.decode?_eq, fun cs => ?_⟩
  have hquote : quote key ++ ':' :: cs =
      '"' :: (key.toList.flatMap escape ++ '"' :: ':' :: cs) := by
    simp [quote]
  rw [key?, skipBlanks_append h, hquote, skipBlanks_cons rfl]
  simp only [htext.stringBody?_eq, skipBlanks_cons (show isBlank ':' = false from rfl)]

theorem colon_eq (l : Layout) :
    ∃ blanks, l.colon = ':' :: blanks ∧ ∀ c ∈ blanks, isBlank c = true := by
  cases l with
  | compact => exact ⟨[], rfl, nofun⟩
  | indented => exact ⟨[' '], rfl, List.forall_mem_singleton.2 rfl⟩

/-- A member is read if its value is. -/
theorem readMember?_memberText {l : Layout} {depth room : Nat} {m : String × Json}
    {rest : List Char} (h : readValue? room (write l depth m.2 ++ rest) = some (m.2, rest)) :
    readMember? (readValue? room) (memberText l depth m ++ rest) = some (m, rest) := by
  obtain ⟨blanks, hcolon, hblanks⟩ := colon_eq l
  obtain ⟨units, hdecode, hkey⟩ := key?_quote (isBlank_of_mem_lineBreak l depth) m.1
  have htext : memberText l depth m ++ rest = l.lineBreak depth ++
      (quote m.1 ++ ':' :: (blanks ++ (write l depth m.2 ++ rest))) := by
    simp [memberText, hcolon]
  rw [readMember?, htext, hkey]
  simp only [Option.bind_some, hdecode, readValue?_append hblanks, h, Option.map_some,
    String.ofList_toList]

theorem length_write_pos (l : Layout) (depth : Nat) (j : Json) : 0 < (write l depth j).length := by
  cases j with
  | null => rw [write]; decide
  | bool b => cases b <;> rw [write] <;> decide
  | number n => rw [write]; exact List.length_pos_iff.2 Nat.toDigits_ne_nil
  | string s => rw [write]; exact Nat.succ_pos _
  | array js => rw [write_array]; exact Nat.succ_pos _
  | object ms => rw [write_object]; exact Nat.succ_pos _

/-- **A value is read back from its text, whatever comes behind it**, unless it is a digit. -/
theorem readValue?_write (l : Layout) {room depth : Nat} {j : Json}
    (h : (write l depth j).length ≤ room) {rest : List Char} (hrest : Unextended rest) :
    readValue? room (write l depth j ++ rest) = some (j, rest) := by
  induction room generalizing depth j rest with
  | zero => exact absurd h (Nat.not_le.2 (length_write_pos l depth j))
  | succ room ih =>
    cases j with
    | null =>
      rw [write]
      exact readValue?_atom (by decide) (by decide) (by decide) (by decide) room _
    | bool b =>
      cases b <;> rw [write] <;>
        exact readValue?_atom (by decide) (by decide) (by decide) (by decide) room _
    | number n =>
      rw [write]
      exact readValue?_toDigits n room hrest
    | string s =>
      have htext : write l depth (string s) ++ rest =
          '"' :: (s.toList.flatMap escape ++ '"' :: rest) := by
        simp [write, quote]
      rw [htext, readValue?, skipBlanks_cons rfl]
      simp only [readString?_quote, Option.map_some]
    | array js =>
      rw [write_array, List.length_cons] at h
      rw [write_array, List.cons_append, readValue?, skipBlanks_cons rfl]
      simp only
      rw [readEnclosed?_bodyText ⟨rfl, by decide, rfl⟩ (isBlank_of_mem_lineBreak l depth)
        (fun _ => readValue?_eq_none room)]
      · rfl
      · intro j hj rest hrest
        have hlt := length_text_lt (fun j => l.lineBreak (depth + 1) ++ write l (depth + 1) j)
          (l.lineBreak depth) ']' hj
        rw [List.length_append] at hlt
        rw [List.append_assoc, readValue?_append (isBlank_of_mem_lineBreak l _)]
        exact ih (by omega) hrest
    | object ms =>
      rw [write_object, List.length_cons] at h
      rw [write_object, List.cons_append, readValue?, skipBlanks_cons rfl]
      simp only
      rw [readEnclosed?_bodyText ⟨rfl, by decide, rfl⟩ (isBlank_of_mem_lineBreak l depth)
        (fun _ => readMember?_eq_none (readValue? room))]
      · rfl
      · intro m hm rest hrest
        have hlt := length_text_lt (memberText l (depth + 1)) (l.lineBreak depth) '}' hm
        rw [memberText, List.length_append, List.length_append, List.length_append] at hlt
        exact readMember?_memberText (ih (by omega) hrest)

/-- **A value is read back from its text in either layout.** -/
theorem ofText?_render (l : Layout) (j : Json) : ofText? (j.render l) = some j := by
  have hread := readValue?_write l (Nat.le_refl (write l 0 j).length) Unextended.nil
  rw [List.append_nil] at hread
  rw [ofText?, render, String.toList_ofList, hread, Option.bind_some]
  exact if_pos rfl

-- Blanks, and escapes that the writer does not use, are read as well.
example : ofText? " \x7b \"a\" : [ 1 ,\"\\u0041\" ] \x7d " =
    some (object [("a", array [number 1, string "A"])]) := by cbv

/-- Different values have different texts. -/
theorem render_injective (l : Layout) : Function.Injective (render l) := by
  intro j k h
  have hj := ofText?_render l j
  rw [h, ofText?_render] at hj
  exact (Option.some.inj hj).symm

end Json
end StudyPlan
