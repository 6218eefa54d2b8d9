import StudyPlan.Proofs.Decoding

/-!
# What a JSON text looks like

`Json.Reader` takes characters off the front of a text.  Here is what it is to find there, said
without a reader: how keys, numbers and values are written (`KeyText`, `NumberText`, `Written`),
and what the text of an object with given members is (`ObjectText`).  Every object that is written
like that is read, one level deep, as its members (`ObjectText.outline?_eq`), and the writer writes
objects like that (`objectText_render`).

## 1.  Keys

A string is well formed if each of its units is (`StringText`), and this is all that is asked of a
string that is a value.  A key has to stand for a text as well (`Encodes`).

## 2.  Where values end

A value is read in whatever stands before and behind it, and only a number depends on what is
behind: a digit would be taken for one of its own.  Behind a value stands a blank, a comma, a
bracket or nothing (`Ended`).

## 3.  Values in values

The reader keeps a stack of the brackets that are open and goes on until it is empty, so what it
does with a value inside others is not a call that one could make a statement about.  What can be
said is that it goes on, when the value is over, as if the value had not been there (`PassedOver`).
Values are passed over at any depth, by induction on how they are written.
-/

namespace StudyPlan
namespace Json

open Reader

/-! ## How a JSON text is written -/

/-- Nothing but blanks. -/
def AllBlank (cs : List Char) : Prop :=
  ∀ c ∈ cs, isBlank c = true

theorem AllBlank.nil : AllBlank [] := nofun

/-- Digits, at least one. -/
def AllDigits (cs : List Char) : Prop :=
  cs ≠ [] ∧ ∀ c ∈ cs, c.isDigit = true

/-- How a number is written. -/
inductive NumberText : List Char → Prop
  | intro {sign whole fraction exponent : List Char} :
      (sign = [] ∨ sign = ['-']) →
      AllDigits whole → (∀ ds, whole = '0' :: ds → ds = []) →
      (fraction = [] ∨ ∃ ds, AllDigits ds ∧ fraction = '.' :: ds) →
      (exponent = [] ∨ ∃ e sign' ds, (e = 'e' ∨ e = 'E') ∧
        (sign' = [] ∨ sign' = ['+'] ∨ sign' = ['-']) ∧ AllDigits ds ∧
        exponent = e :: (sign' ++ ds)) →
      NumberText (sign ++ (whole ++ (fraction ++ exponent)))

/-- How a key with such units is written, with its colon and the blanks around both. -/
inductive KeyText (us : List CodeUnit) : List Char → Prop
  | intro {before body inner after : List Char} :
      AllBlank before → StringText body us → AllBlank inner → AllBlank after →
        KeyText us (before ++ '"' :: (body ++ '"' :: (inner ++ ':' :: after)))

/-- What stands before the value in a part of an array or an object. -/
inductive Label : Frame → List Char → Prop
  | item {cs : List Char} : AllBlank cs → Label .array cs
  | key {us : List CodeUnit} {cs : List Char} : KeyText us cs → Label .object cs

/-- The bracket that opens an array or an object. -/
def Reader.Frame.opening : Frame → Char
  | array => '['
  | object => '{'

/-- What there is to write: a value, or the parts of an array or an object. -/
inductive Element where
  | value
  | parts (f : Frame)

/-- How values are written, and parts with commas between them. -/
inductive Written : Element → List Char → Prop
  | word {w : List Char} :
      w = "null".toList ∨ w = "true".toList ∨ w = "false".toList → Written .value w
  | number {w : List Char} : NumberText w → Written .value w
  | string {cs : List Char} {us : List CodeUnit} :
      StringText cs us → Written .value ('"' :: (cs ++ ['"']))
  | empty {f : Frame} {cs : List Char} :
      AllBlank cs → Written .value (f.opening :: (cs ++ [f.closing]))
  | enclosed {f : Frame} {cs : List Char} :
      Written (.parts f) cs → Written .value (f.opening :: (cs ++ [f.closing]))
  | last {f : Frame} {label v after : List Char} :
      Label f label → Written .value v → AllBlank after →
        Written (.parts f) (label ++ (v ++ after))
  | more {f : Frame} {label v after cs : List Char} :
      Label f label → Written .value v → AllBlank after → Written (.parts f) cs →
        Written (.parts f) (label ++ (v ++ (after ++ ',' :: cs)))

/-- How a member is written, with the blanks around it. -/
inductive MemberText : String × List Char → List Char → Prop
  | intro {key : String} {us : List CodeUnit} {label v after : List Char} :
      KeyText us label → Encodes us key.toList → Written .value v → AllBlank after →
        MemberText (key, v) (label ++ (v ++ after))

/-- How one or more members are written. -/
inductive MembersText : List (String × List Char) → List Char → Prop
  | last {m : String × List Char} {cs : List Char} : MemberText m cs → MembersText [m] cs
  | more {m : String × List Char} {ms : List (String × List Char)} {cs cs' : List Char} :
      MemberText m cs → MembersText ms cs' → MembersText (m :: ms) (cs ++ ',' :: cs')

/-- How an object is written, with the blanks around it. -/
inductive ObjectText : List (String × List Char) → List Char → Prop
  | empty {before inner after : List Char} :
      AllBlank before → AllBlank inner → AllBlank after →
        ObjectText [] (before ++ '{' :: (inner ++ '}' :: after))
  | members {ms : List (String × List Char)} {before cs after : List Char} :
      AllBlank before → MembersText ms cs → AllBlank after →
        ObjectText ms (before ++ '{' :: (cs ++ '}' :: after))

/-! ## 1.  Keys -/

/-- A key is read with its colon.  The blanks behind the colon are left. -/
theorem KeyText.exists_key?_eq {us : List CodeUnit} {cs : List Char} (h : KeyText us cs) :
    ∃ after, AllBlank after ∧ ∀ rest, key? (cs ++ rest) = some (us, after ++ rest) := by
  obtain @⟨before, body, inner, after, hbefore, hbody, hinner, hafter⟩ := h
  refine ⟨after, hafter, fun rest => ?_⟩
  rw [key?, List.append_assoc, skipBlanks_append hbefore, List.cons_append, skipBlanks_cons rfl,
    List.append_assoc, List.cons_append]
  simp only [hbody.stringBody?_eq, List.append_assoc, skipBlanks_append hinner, List.cons_append,
    skipBlanks_cons (show isBlank ':' = false from rfl)]

/-! ## 2.  Where values end -/

/-- What may stand behind a value. -/
def Ended (rest : List Char) : Prop :=
  ∀ c ∈ rest.head?, isBlank c = true ∨ c = ',' ∨ c = ']' ∨ c = '}'

theorem Ended.cons {c : Char} (h : isBlank c = true ∨ c = ',' ∨ c = ']' ∨ c = '}')
    (rest : List Char) : Ended (c :: rest) := by
  rintro _ ⟨⟩
  exact h

theorem Ended.append {blanks rest : List Char} (h : AllBlank blanks) (hrest : Ended rest) :
    Ended (blanks ++ rest) := by
  cases blanks with
  | nil => exact hrest
  | cons c blanks => exact .cons (.inl (h c List.mem_cons_self)) _

/-- What stands behind a value goes on with no number. -/
theorem Ended.ne {rest : List Char} (h : Ended rest) :
    ∀ c ∈ rest.head?, c.isDigit = false ∧ c ≠ '.' ∧ c ≠ 'e' ∧ c ≠ 'E' := by
  intro c hc
  have hend := h c hc
  simp only [isBlank, Bool.or_eq_true, beq_iff_eq] at hend
  rcases hend with (((rfl | rfl) | rfl) | rfl) | rfl | rfl | rfl <;> decide

theorem fraction?_of_ne {cs : List Char} (h : ∀ c ∈ cs.head?, c ≠ '.') :
    fraction? cs = some cs := by
  unfold fraction?
  split
  · exact absurd rfl (h _ rfl)
  · rfl

theorem exponent?_of_ne {cs : List Char} (h : ∀ c ∈ cs.head?, c ≠ 'e' ∧ c ≠ 'E') :
    exponent? cs = some cs := by
  unfold exponent?
  split
  · next c rest => rw [if_neg (not_or.2 (h c rfl))]
  · rfl

/-- Digits do not begin with any other character. -/
theorem AllDigits.ne_cons {ds : List Char} (h : AllDigits ds) (rest : List Char) {c : Char}
    (hc : c.isDigit = false) (cs : List Char) : ds ++ rest ≠ c :: cs := by
  obtain ⟨hne, hdigit⟩ := h
  rcases ds with _ | ⟨d, ds⟩
  · exact absurd rfl hne
  · intro heq
    have hd := hdigit d List.mem_cons_self
    rw [(List.cons.inj heq).1, hc] at hd
    cases hd

theorem exponent?_append {e : Char} (he : e = 'e' ∨ e = 'E') {sign ds rest : List Char}
    (hsign : sign = [] ∨ sign = ['+'] ∨ sign = ['-']) (hds : AllDigits ds)
    (hrest : Unextended rest) : exponent? (e :: (sign ++ (ds ++ rest))) = some rest := by
  have hdigits := digits?_append hds.1 hds.2 hrest
  rcases hsign with rfl | rfl | rfl
  · rw [List.nil_append, exponent?, if_pos he]
    · exact hdigits
    · exact fun cs => hds.ne_cons rest rfl cs
    · exact fun cs => hds.ne_cons rest rfl cs
  · rw [List.cons_append, List.nil_append, exponent?, if_pos he]
    exact hdigits
  · rw [List.cons_append, List.nil_append, exponent?, if_pos he]
    exact hdigits

theorem afterSign_append {sign ds : List Char} (hsign : sign = [] ∨ sign = ['-'])
    (hds : AllDigits ds) (rest : List Char) : afterSign (sign ++ (ds ++ rest)) = ds ++ rest := by
  rcases hsign with rfl | rfl
  · rw [List.nil_append, afterSign]
    exact fun cs => hds.ne_cons rest rfl cs
  · rfl

/-- A number is read up to what may stand behind it. -/
theorem NumberText.number?_append {w rest : List Char} (h : NumberText w) (hrest : Ended rest) :
    number? (w ++ rest) = some rest := by
  obtain @⟨sign, whole, fraction, exponent, hsign, hwhole, hzero, hfraction, hexponent⟩ := h
  -- what is left behind each part does not go on with this part
  have hexponent : exponent? (exponent ++ rest) = some rest ∧
      ∀ c ∈ (exponent ++ rest).head?, c.isDigit = false ∧ c ≠ '.' := by
    rcases hexponent with rfl | ⟨e, sign', ds, he, hsign', hds, rfl⟩
    · exact ⟨exponent?_of_ne fun c hc => (hrest.ne c hc).2.2,
        fun c hc => ⟨(hrest.ne c hc).1, (hrest.ne c hc).2.1⟩⟩
    · rw [List.cons_append, List.append_assoc]
      refine ⟨exponent?_append he hsign' hds fun c hc => (hrest.ne c hc).1, ?_⟩
      rintro _ ⟨⟩
      rcases he with rfl | rfl <;> decide
  have hfraction : fraction? (fraction ++ (exponent ++ rest)) = some (exponent ++ rest) ∧
      Unextended (fraction ++ (exponent ++ rest)) := by
    rcases hfraction with rfl | ⟨ds, hds, rfl⟩
    · exact ⟨fraction?_of_ne fun c hc => (hexponent.2 c hc).2, fun c hc => (hexponent.2 c hc).1⟩
    · exact ⟨digits?_append hds.1 hds.2 fun c hc => (hexponent.2 c hc).1, .cons rfl _⟩
  simp only [number?, List.append_assoc, afterSign_append hsign hwhole,
    wholePart?_append hwhole.1 hwhole.2 hzero hfraction.2, Option.bind_some, hfraction.1,
    hexponent.1]

/-! ## 3.  Values in values -/

theorem begin?_append {blanks : List Char} (h : AllBlank blanks) (frames : List Frame)
    (cs : List Char) : begin? frames (blanks ++ cs) = begin? frames cs := by
  rw [begin?, begin?, skipBlanks_append h]

theorem part?_append {blanks : List Char} (h : AllBlank blanks) (f : Frame) (outer : List Frame)
    (cs : List Char) : part? f outer (blanks ++ cs) = part? f outer cs := by
  cases f with
  | array => exact begin?_append h _ cs
  | object => rw [part?, part?, key?, key?, skipBlanks_append h]

theorem Label.part?_append {f : Frame} {label : List Char} (h : Label f label)
    (outer : List Frame) (cs : List Char) :
    part? f outer (label ++ cs) = begin? (f :: outer) cs := by
  cases h with
  | item h => exact begin?_append h _ cs
  | key h =>
    obtain ⟨after, hafter, hkey⟩ := h.exists_key?_eq
    rw [part?, hkey]
    exact begin?_append hafter _ cs

theorem finish?_cons (fresh : Bool) (f : Frame) (outer : List Frame) (cs : List Char) :
    finish? ⟨fresh, f :: outer, cs⟩ = (step? fresh f outer cs).bind finish? := by
  rw [finish?]
  split
  · next h => rw [h, Option.bind_none]
  · next h => rw [h, Option.bind_some]

theorem step?_closing {blanks : List Char} (h : AllBlank blanks) (fresh : Bool) (f : Frame)
    (outer : List Frame) (rest : List Char) :
    step? fresh f outer (blanks ++ f.closing :: rest) = some ⟨false, outer, rest⟩ := by
  have hclosing : isBlank f.closing = false := by
    cases f <;> rfl
  rw [step?, skipBlanks_append h, skipBlanks_cons hclosing]
  exact if_pos rfl

theorem step?_comma {blanks : List Char} (h : AllBlank blanks) (f : Frame) (outer : List Frame)
    (rest : List Char) : step? false f outer (blanks ++ ',' :: rest) = part? f outer rest := by
  have hclosing : ',' ≠ f.closing := by
    cases f <;> decide
  rw [step?, skipBlanks_append h, skipBlanks_cons rfl]
  exact if_neg hclosing

/-- A number begins with a digit or a minus sign. -/
theorem NumberText.exists_cons {w : List Char} (h : NumberText w) :
    ∃ c cs, w = c :: cs ∧ (c = '-' ∨ c.isDigit = true) := by
  obtain @⟨sign, whole, fraction, exponent, hsign, ⟨hne, hdigit⟩, -, -, -⟩ := h
  rcases hsign with rfl | rfl
  · rcases whole with _ | ⟨c, whole⟩
    · exact absurd rfl hne
    · exact ⟨c, _, rfl, .inr (hdigit c List.mem_cons_self)⟩
  · exact ⟨'-', _, rfl, .inl rfl⟩

theorem ne_of_digit {c d : Char} (hc : c = '-' ∨ c.isDigit = true) (hd : d ≠ '-')
    (hdigit : d.isDigit = false) : c ≠ d := by
  rintro rfl
  rcases hc with rfl | hc
  · exact hd rfl
  · rw [hdigit] at hc
    cases hc

theorem isBlank_of_digit {c : Char} (hc : c = '-' ∨ c.isDigit = true) : isBlank c = false := by
  simp only [isBlank, Bool.or_eq_false_iff, beq_eq_false_iff_ne]
  exact ⟨⟨⟨ne_of_digit hc (by decide) rfl, ne_of_digit hc (by decide) rfl⟩,
    ne_of_digit hc (by decide) rfl⟩, ne_of_digit hc (by decide) rfl⟩

/-- How a value begins. -/
theorem Written.exists_cons {v : List Char} (h : Written .value v) :
    ∃ c cs, v = c :: cs ∧ isBlank c = false ∧ c ≠ ']' := by
  cases h with
  | word h => rcases h with rfl | rfl | rfl <;> exact ⟨_, _, rfl, rfl, by decide⟩
  | number h =>
    obtain ⟨c, cs, rfl, hc⟩ := h.exists_cons
    exact ⟨c, cs, rfl, isBlank_of_digit hc, ne_of_digit hc (by decide) rfl⟩
  | string h => exact ⟨_, _, rfl, rfl, by decide⟩
  | @empty f | @enclosed f => cases f <;> exact ⟨_, _, rfl, rfl, by decide⟩

theorem begin?_scalar {c : Char} {cs rest : List Char} (hblank : isBlank c = false)
    (harray : c ≠ '[') (hobject : c ≠ '{') (h : scalar? (c :: cs) = some rest)
    (frames : List Frame) : begin? frames (c :: cs) = some ⟨false, frames, rest⟩ := by
  rw [begin?, skipBlanks_cons hblank]
  split
  · next heq => exact absurd (List.cons.inj heq).1 harray
  · next heq => exact absurd (List.cons.inj heq).1 hobject
  · rw [h, Option.map_some]

theorem NumberText.scalar?_append {w rest : List Char} (h : NumberText w) (hrest : Ended rest) :
    scalar? (w ++ rest) = some rest := by
  have hnumber := h.number?_append hrest
  obtain ⟨c, cs, rfl, hc⟩ := h.exists_cons
  have htrue : word? "true".toList (c :: (cs ++ rest)) = none :=
    word?_eq_none (ne_of_digit hc (by decide) rfl).symm _ _
  have hfalse : word? "false".toList (c :: (cs ++ rest)) = none :=
    word?_eq_none (ne_of_digit hc (by decide) rfl).symm _ _
  have hnull : word? "null".toList (c :: (cs ++ rest)) = none :=
    word?_eq_none (ne_of_digit hc (by decide) rfl).symm _ _
  rw [List.cons_append] at hnumber ⊢
  unfold scalar?
  split
  · next heq => exact absurd (List.cons.inj heq).1 (ne_of_digit hc (by decide) rfl)
  · rw [htrue, hfalse, hnull, hnumber]
    rfl

/-- When the element is over, the reader goes on as if it had not been there. -/
def PassedOver : Element → List Char → Prop
  | .value, cs => ∀ frames rest, Ended rest →
      (begin? frames (cs ++ rest)).bind finish? = finish? ⟨false, frames, rest⟩
  | .parts f, cs => ∀ outer rest,
      (part? f outer (cs ++ f.closing :: rest)).bind finish? = finish? ⟨false, outer, rest⟩

theorem passedOver_of_begin? {v : List Char}
    (h : ∀ frames rest, Ended rest → begin? frames (v ++ rest) = some ⟨false, frames, rest⟩) :
    PassedOver .value v := by
  intro frames rest hrest
  rw [h frames rest hrest, Option.bind_some]

theorem begin?_opening (f : Frame) (frames : List Frame) (cs : List Char) :
    begin? frames (f.opening :: cs) = some ⟨true, f :: frames, cs⟩ := by
  cases f <;> rfl

/-- The first character of parts that is not blank does not close what they are in. -/
theorem Label.step?_fresh {f : Frame} {label v : List Char} (h : Label f label)
    (hv : Written .value v) (outer : List Frame) (rest : List Char) :
    step? true f outer (label ++ (v ++ rest)) = part? f outer (label ++ (v ++ rest)) := by
  have hfirst : ∃ blanks c cs, label ++ (v ++ rest) = blanks ++ c :: cs ∧ AllBlank blanks ∧
      isBlank c = false ∧ c ≠ f.closing := by
    cases h with
    | item h =>
      obtain ⟨c, cs, rfl, hblank, hclosing⟩ := hv.exists_cons
      exact ⟨label, c, _, rfl, h, hblank, hclosing⟩
    | key h =>
      obtain @⟨before, _, _, _, hbefore, _, _, _⟩ := h
      exact ⟨before, '"', _, List.append_assoc _ _ _, hbefore, rfl, by decide⟩
  obtain ⟨blanks, c, cs, heq, hblanks, hblank, hclosing⟩ := hfirst
  rw [heq, step?, skipBlanks_append hblanks, skipBlanks_cons hblank, Json.part?_append hblanks]
  simp only [hclosing, if_false, if_true]

/-- **Values are passed over at any depth.** -/
theorem Written.passedOver {e : Element} {cs : List Char} (h : Written e cs) :
    PassedOver e cs := by
  induction h with
  | @word w h =>
    refine passedOver_of_begin? fun frames rest _ => ?_
    rcases h with rfl | rfl | rfl <;> exact begin?_scalar rfl (by decide) (by decide) rfl frames
  | @number w h =>
    refine passedOver_of_begin? fun frames rest hrest => ?_
    have hscalar := h.scalar?_append hrest
    obtain ⟨c, cs, rfl, hc⟩ := h.exists_cons
    exact begin?_scalar (isBlank_of_digit hc) (ne_of_digit hc (by decide) rfl)
      (ne_of_digit hc (by decide) rfl) hscalar frames
  | @string cs us h =>
    refine passedOver_of_begin? fun frames rest _ => ?_
    rw [List.cons_append, List.append_assoc]
    refine begin?_scalar rfl (by decide) (by decide) ?_ frames
    rw [scalar?, List.cons_append, List.nil_append, h.stringBody?_eq, Option.map_some]
  | @empty f cs h =>
    intro frames rest _
    rw [List.cons_append, List.append_assoc, begin?_opening, Option.bind_some, finish?_cons,
      List.cons_append, List.nil_append, step?_closing h, Option.bind_some]
  | @enclosed f cs h ih =>
    intro frames rest _
    have hfresh : step? true f frames (cs ++ f.closing :: rest) =
        part? f frames (cs ++ f.closing :: rest) := by
      cases h with
      | last hlabel hv _ | more hlabel hv _ _ =>
        rw [List.append_assoc, List.append_assoc]
        exact hlabel.step?_fresh hv frames _
    rw [List.cons_append, List.append_assoc, begin?_opening, Option.bind_some, finish?_cons,
      List.cons_append, List.nil_append, hfresh, ih]
  | @last f label v after hlabel _ hafter ih =>
    intro outer rest
    have hend : Ended (after ++ f.closing :: rest) :=
      .append hafter (.cons (.inr (.inr (by cases f <;> decide))) rest)
    rw [List.append_assoc, List.append_assoc, hlabel.part?_append, ih _ _ hend, finish?_cons,
      step?_closing hafter, Option.bind_some]
  | @more f label v after cs hlabel _ hafter _ ihv ih =>
    intro outer rest
    have hend : Ended (after ++ ',' :: (cs ++ f.closing :: rest)) :=
      .append hafter (.cons (.inr (.inl rfl)) _)
    rw [List.append_assoc, List.append_assoc, List.append_assoc, List.cons_append,
      hlabel.part?_append, ihv _ _ hend, finish?_cons, step?_comma hafter, ih]

/-- A value that is made of digits is the number that they denote, for it has no needless
zeros. -/
theorem Written.eq_toDigits {w : List Char} (h : Written .value w)
    (hdigits : ∀ c ∈ w, c.isDigit = true) : w = Nat.toDigits 10 (Nat.ofDigitChars 10 w 0) := by
  have hhead : ∀ {c cs}, w = c :: cs → c.isDigit = true := by
    rintro c cs rfl
    exact hdigits c List.mem_cons_self
  cases h with
  | word h => rcases h with rfl | rfl | rfl <;> cases hhead rfl
  | string => cases hhead rfl
  | @empty f | @enclosed f => cases f <;> cases hhead rfl
  | number h =>
    obtain @⟨sign, whole, fraction, exponent, hsign, hwhole, hzero, hfraction, hexponent⟩ := h
    obtain rfl : sign = [] := by
      refine hsign.resolve_right ?_
      rintro rfl
      cases hhead rfl
    obtain rfl : fraction = [] := by
      refine hfraction.resolve_right ?_
      rintro ⟨ds, -, rfl⟩
      cases hdigits '.' (by simp)
    obtain rfl : exponent = [] := by
      refine hexponent.resolve_right ?_
      rintro ⟨e, sign, ds, he, -, -, rfl⟩
      have hdigit := hdigits e (by simp)
      rcases he with rfl | rfl <;> cases hdigit
    simp only [List.nil_append, List.append_nil] at *
    obtain ⟨k, hk⟩ := exists_zeros hwhole.1 hwhole.2
    cases k with
    | zero => exact hk
    | succ k =>
      have hnil := hzero _ hk
      simp [Nat.toDigits_ne_nil] at hnil

/-! ## 4.  Objects -/

theorem skipBlanks_eq_nil {cs : List Char} (h : AllBlank cs) : skipBlanks cs = [] := by
  have hskip := skipBlanks_append h []
  rwa [List.append_nil] at hskip

theorem skipBlanks_of_written {v : List Char} (h : Written .value v) (rest : List Char) :
    skipBlanks (v ++ rest) = v ++ rest := by
  obtain ⟨c, cs, rfl, hblank, -⟩ := h.exists_cons
  exact skipBlanks_cons hblank _

/-- A value is handed on as it is written, with the blanks around it read. -/
theorem value?_append {before v after rest : List Char} (hbefore : AllBlank before)
    (hv : Written .value v) (hafter : AllBlank after) (hrest : Ended rest) :
    value? (before ++ (v ++ (after ++ rest))) = some (v, skipBlanks rest) := by
  have hskip : skip? (v ++ (after ++ rest)) = some (after ++ rest) := by
    rw [skip?, hv.passedOver [] _ (.append hafter hrest), finish?]
  have hlength : (v ++ (after ++ rest)).length - (after ++ rest).length = v.length := by
    rw [List.length_append, Nat.add_sub_cancel]
  rw [value?, skipBlanks_append hbefore, skipBlanks_of_written hv, hskip, Option.map_some,
    hlength, List.take_left, skipBlanks_append hafter]

theorem MemberText.member?_append {m : String × List Char} {cs rest : List Char}
    (h : MemberText m cs) (hrest : Ended rest) :
    member? (cs ++ rest) = some (m, skipBlanks rest) := by
  obtain @⟨key, us, label, v, after, hkey, hus, hv, hafter⟩ := h
  obtain ⟨blanks, hblanks, hkey⟩ := hkey.exists_key?_eq
  rw [member?, List.append_assoc, List.append_assoc, hkey, Option.bind_some]
  simp only [hus.decode?_eq, Option.bind_some, value?_append hblanks hv hafter hrest,
    Option.map_some, String.ofList_toList]

theorem MembersText.members?_append {ms : List (String × List Char)} {cs : List Char}
    (h : MembersText ms cs) (rest : List Char) :
    members? (cs ++ '}' :: rest) = some (ms, rest) := by
  induction h with
  | @last m cs h =>
    have hmember : member? (cs ++ '}' :: rest) = some (m, '}' :: rest) :=
      h.member?_append (.cons (by decide) rest)
    rw [members?]
    split
    · next heq =>
      rw [hmember] at heq
      cases heq
      rfl
    · next heq =>
      rw [hmember] at heq
      cases heq
    · next hclosing _ => exact absurd hmember (hclosing _ _)
  | @more m ms cs cs' h _ ih =>
    have hmember : member? (cs ++ ',' :: (cs' ++ '}' :: rest)) =
        some (m, ',' :: (cs' ++ '}' :: rest)) :=
      h.member?_append (.cons (by decide) _)
    rw [List.append_assoc, List.cons_append, members?]
    split
    · next heq =>
      rw [hmember] at heq
      cases heq
    · next heq =>
      rw [hmember] at heq
      cases heq
      rw [ih, Option.map_some]
    · next hcomma => exact absurd hmember (hcomma _ _)

/-- Members begin with a quote, and the blanks before it may be left out. -/
theorem MembersText.exists_trimmed {ms : List (String × List Char)} {cs : List Char}
    (h : MembersText ms cs) :
    ∃ blanks cs', cs = blanks ++ '"' :: cs' ∧ AllBlank blanks ∧ MembersText ms ('"' :: cs') := by
  have hmember : ∀ {m cs}, MemberText m cs →
      ∃ blanks cs', cs = blanks ++ '"' :: cs' ∧ AllBlank blanks ∧ MemberText m ('"' :: cs') := by
    rintro _ _ ⟨hkey, hus, hv, hafter⟩
    obtain ⟨hbefore, hbody, hinner, hbehind⟩ := hkey
    exact ⟨_, _, List.append_assoc _ _ _, hbefore,
      .intro (@KeyText.intro _ [] _ _ _ .nil hbody hinner hbehind) hus hv hafter⟩
  cases h with
  | last h =>
    obtain ⟨blanks, cs', rfl, hblanks, h'⟩ := hmember h
    exact ⟨blanks, cs', rfl, hblanks, .last h'⟩
  | more h hms =>
    obtain ⟨blanks, cs', rfl, hblanks, h'⟩ := hmember h
    exact ⟨blanks, _, List.append_assoc _ _ _, hblanks, .more h' hms⟩

/-- **The text of an object is read as its members.** -/
theorem ObjectText.outline?_eq {ms : List (String × List Char)} {text : String}
    (h : ObjectText ms text.toList) : outline? text = some (.object ms) := by
  unfold outline?
  generalize text.toList = cs at h
  cases h with
  | empty hbefore hinner hafter =>
    simp [skipBlanks_append hbefore, skipBlanks_append hinner, skipBlanks_cons, isBlank,
      skipBlanks_eq_nil hafter]
  | members hbefore hmembers hafter =>
    obtain ⟨blanks, cs', rfl, hblanks, htrimmed⟩ := hmembers.exists_trimmed
    have hread := htrimmed.members?_append
    simp only [List.cons_append] at hread
    simp [skipBlanks_append hbefore, skipBlanks_append hblanks, skipBlanks_cons, isBlank,
      skipBlanks_eq_nil hafter, hread]

/-- The values of members are values. -/
theorem ObjectText.written_of_mem {ms : List (String × List Char)} {cs : List Char}
    (h : ObjectText ms cs) : ∀ m ∈ ms, Written .value m.2 := by
  have hmember : ∀ {m cs}, MemberText m cs → Written .value m.2 := by
    rintro _ _ ⟨-, -, hv, -⟩
    exact hv
  cases h with
  | empty => nofun
  | members _ hms _ =>
    induction hms with
    | last h => exact List.forall_mem_singleton.2 (hmember h)
    | more h _ ih => exact List.forall_mem_cons.2 ⟨hmember h, ih⟩

/-! ## 5.  Objects that the writer writes -/

theorem numberText_toDigits (n : Nat) : NumberText (Nat.toDigits 10 n) := by
  have hdigits : AllDigits (Nat.toDigits 10 n) :=
    ⟨Nat.toDigits_ne_nil, fun _ hc => Nat.isDigit_of_mem_toDigits (by decide) (by decide) hc⟩
  have hnumber := @NumberText.intro [] _ [] [] (.inl rfl) hdigits
    (fun _ => eq_nil_of_toDigits_eq_cons) (.inl rfl) (.inl rfl)
  rwa [List.nil_append, List.append_nil, List.append_nil] at hnumber

/-- A member that the writer writes, with blanks behind it. -/
theorem memberText_append (l : Layout) (depth : Nat) {m : String × Json} {after : List Char}
    (hv : Written .value (write l depth m.2)) (hafter : AllBlank after) :
    MemberText (m.1, write l depth m.2) (memberText l depth m ++ after) := by
  obtain ⟨us, htext, hencodes⟩ := exists_stringText m.1.toList
  obtain ⟨blanks, hcolon, hblanks⟩ := colon_eq l
  have hkey := KeyText.intro (isBlank_of_mem_lineBreak l depth) htext .nil hblanks
  have hmember := MemberText.intro hkey hencodes hv hafter
  simpa [memberText, quote, hcolon] using hmember

theorem exists_membersText (l : Layout) (depth : Nat) {m : String × Json}
    {ms : List (String × Json)} {after : List Char} (hafter : AllBlank after)
    (h : ∀ m' ∈ m :: ms, Written .value (write l depth m'.2)) :
    ∃ cs, bodyText (memberText l depth) after '}' (m :: ms) = cs ++ ['}'] ∧
      MembersText ((m :: ms).map fun m' => (m'.1, write l depth m'.2)) cs := by
  induction ms generalizing m with
  | nil =>
    refine ⟨memberText l depth m ++ after, by simp [bodyText], .last ?_⟩
    exact memberText_append l depth (h m List.mem_cons_self) hafter
  | cons m' ms ih =>
    obtain ⟨cs, hcs, htext⟩ := ih fun x hx => h x (List.mem_cons_of_mem m hx)
    have hmember := memberText_append l depth (h m List.mem_cons_self) .nil
    rw [List.append_nil] at hmember
    refine ⟨memberText l depth m ++ ',' :: cs, ?_, .more hmember htext⟩
    rw [List.append_assoc, List.cons_append, ← hcs]
    simp [bodyText]

/-- **What the writer writes for an object is the text of one,** if its values are written as
values. -/
theorem objectText_render (l : Layout) {ms : List (String × Json)}
    (h : ∀ m ∈ ms, Written .value (write l 1 m.2)) :
    ObjectText (ms.map fun m => (m.1, write l 1 m.2)) ((object ms).render l).toList := by
  rw [render, String.toList_ofList, write_object]
  cases ms with
  | nil => exact @ObjectText.empty [] [] [] .nil .nil .nil
  | cons m ms =>
    obtain ⟨cs, hcs, htext⟩ := exists_membersText l 1 (isBlank_of_mem_lineBreak l 0) h
    rw [hcs]
    exact @ObjectText.members _ [] _ [] .nil htext .nil

end Json
end StudyPlan
