import StudyPlan.Failure
import StudyPlan.Proofs.JsonText

/-!
# What a settings text says

Settings are read from the text of an object, and many texts give the same settings: the members
come in any order, with any blanks between them and any escapes in their keys, those with a
default value may be left out, and members of other keys may hold any values, however deep.  What
all the texts of some settings have in common is said by `Settings.ListedBy`, and a text with
these members, and no other text of an object, gives these settings (`ofText_eq_ok_iff`).

## One setting

Each of the three settings is listed in the same way (`Settings.Lists`): once at most, with its
value, and at all unless it has its default.  It differs only in how a value is written.  A value
is written in one way.  For a limit this is due to the text being JSON: digits with zeros in front
have a value, but no such number is well formed (`Written.eq_toDigits`).

## What is wrong with a text

A text of an object that gives no settings has a key twice, or a value that is none of its
setting.  So the errors are read off the settings that a text does not give.
-/

namespace StudyPlan

open Json

namespace Settings

/-! ## One setting -/

/-- How a truth value is written. -/
def truthText (b : Bool) : List Char :=
  if b then "true".toList else "false".toList

/-- How a limit is written. -/
def limitText : Option UInt64 → List Char
  | none => "null".toList
  | some n => Nat.toDigits 10 n.toNat

/-- The members list the setting `a` under its key. -/
structure Lists {α : Type} (ms : List (String × List Char)) (key : String)
    (text : α → List Char) (standard a : α) : Prop where
  once : (ms.map Prod.fst).count key ≤ 1
  own : ∀ v, (key, v) ∈ ms → v = text a
  /-- Only the default need not be listed. -/
  listed : a ≠ standard → (key, text a) ∈ ms

/-- A setting is read just where it is listed, if a reader reads what is written and nothing
else. -/
theorem member?_eq_some_iff {α : Type} {ms : List (String × List Char)} {key : String}
    {read : List Char → Option α} {text : α → List Char} {standard a : α}
    (hread : ∀ m ∈ ms, ∀ b, read m.2 = some b ↔ m.2 = text b) :
    member? ms key read standard = some a ↔ Lists ms key text standard a := by
  have hcount : (ms.map Prod.fst).count key = (ms.filter (·.1 = key)).length := by
    rw [List.count, List.countP_map, List.countP_eq_length_filter]
    rfl
  have hmem : ∀ v, (key, v) ∈ ms ↔ (key, v) ∈ ms.filter (·.1 = key) := by
    simp
  have hown : ∀ m ∈ ms.filter (·.1 = key), m ∈ ms ∧ m.1 = key := by
    simp
  unfold member?
  generalize ms.filter (·.1 = key) = found at hcount hmem hown
  match found with
  | [] =>
    constructor
    · rintro ⟨⟩
      exact ⟨hcount ▸ Nat.zero_le 1,
        fun v hv => absurd ((hmem v).1 hv) List.not_mem_nil, fun h => absurd rfl h⟩
    · intro h
      by_cases ha : a = standard
      · rw [ha]
      · exact absurd ((hmem _).1 (h.listed ha)) List.not_mem_nil
  | [(k, written)] =>
    obtain ⟨hm, rfl : k = key⟩ := hown _ List.mem_cons_self
    have honly : ∀ v, (k, v) ∈ ms ↔ v = written := by
      simpa using hmem
    constructor
    · intro h
      obtain rfl : written = text a := (hread _ hm a).1 h
      exact ⟨Nat.le_of_eq hcount, fun v hv => (honly v).1 hv, fun _ => hm⟩
    · intro h
      exact (hread _ hm a).2 (h.own written hm)
  | _ :: _ :: _ =>
    constructor
    · nofun
    · intro h
      have hlength := h.once
      rw [hcount] at hlength
      simp at hlength

/-! ## How values are written -/

theorem truth?_eq_some_iff {w : List Char} {b : Bool} : truth? w = some b ↔ w = truthText b := by
  unfold truth?
  split
  · next h =>
    subst h
    cases b <;> decide
  · next htrue =>
    split
    · next h =>
      subst h
      cases b <;> decide
    · next hfalse =>
      constructor
      · nofun
      · rintro rfl
        cases b
        · exact absurd rfl hfalse
        · exact absurd rfl htrue

theorem limit?_eq_some_iff {w : List Char} (h : Written .value w) {limit : Option UInt64} :
    limit? w = some limit ↔ w = limitText limit := by
  have hnumber : ∀ n : UInt64, w = Nat.toDigits 10 n.toNat ↔
      (∀ c ∈ w, c.isDigit = true) ∧ Nat.ofDigitChars 10 w 0 = n.toNat := by
    intro n
    constructor
    · rintro rfl
      exact ⟨fun _ hc => Nat.isDigit_of_mem_toDigits (by decide) (by decide) hc,
        Nat.ofDigitChars_ten_toDigits⟩
    · rintro ⟨hdigits, hvalue⟩
      rw [← hvalue]
      exact h.eq_toDigits hdigits
  unfold limit?
  cases limit with
  | none =>
    rw [limitText]
    constructor
    · intro hread
      by_contra hnull
      rw [if_neg hnull] at hread
      split at hread
      · split at hread <;> cases hread
      · cases hread
    · exact fun hnull => if_pos hnull
  | some n =>
    rw [limitText, hnumber]
    by_cases hnull : w = "null".toList
    · rw [if_pos hnull]
      constructor
      · nofun
      · rintro ⟨hdigits, -⟩
        cases hdigits 'n' (by simp [hnull])
    · rw [if_neg hnull]
      constructor
      · intro hread
        split at hread
        · next hall =>
          split at hread
          · obtain rfl := Option.some.inj (Option.some.inj hread)
            exact ⟨List.all_eq_true.1 hall, (UInt64.toNat_ofNatLT ..).symm⟩
          · cases hread
        · cases hread
      · rintro ⟨hdigits, hvalue⟩
        rw [if_pos (List.all_eq_true.2 hdigits), dif_pos (hvalue ▸ n.toNat_lt_size)]
        refine congrArg (some <| some ·) (UInt64.toNat_inj.1 ?_)
        rw [UInt64.toNat_ofNatLT, hvalue]

/-! ## Three settings -/

/-- The members list the settings, each under its key. -/
structure ListedBy (s : Settings) (ms : List (String × List Char)) : Prop where
  includeTokens :
    Lists ms "include_tokens" truthText ({} : Settings).includeTokens s.includeTokens
  maxInputBytes :
    Lists ms "max_input_bytes" limitText ({} : Settings).maxInputBytes s.maxInputBytes
  pretty : Lists ms "pretty" truthText ({} : Settings).pretty s.pretty

theorem ofOutline?_eq_some_iff {ms : List (String × List Char)} {s : Settings}
    (h : ∀ m ∈ ms, Written .value m.2) : ofOutline? (.object ms) = some s ↔ s.ListedBy ms := by
  have htruth : ∀ key standard b,
      member? ms key truth? standard = some b ↔ Lists ms key truthText standard b :=
    fun _ _ _ => member?_eq_some_iff fun _ _ _ => truth?_eq_some_iff
  have hlimit : ∀ key standard limit,
      member? ms key limit? standard = some limit ↔ Lists ms key limitText standard limit :=
    fun _ _ _ => member?_eq_some_iff fun m hm _ => limit?_eq_some_iff (h m hm)
  simp only [ofOutline?, Option.bind_eq_bind, Option.bind_eq_some_iff, Option.pure_def,
    Option.some.injEq, htruth, hlimit]
  constructor
  · rintro ⟨_, htokens, _, hbytes, _, hpretty, rfl⟩
    exact ⟨htokens, hbytes, hpretty⟩
  · rintro ⟨htokens, hbytes, hpretty⟩
    exact ⟨_, htokens, _, hbytes, _, hpretty, rfl⟩

/-- The text of an object gives the settings that its members list, and no others. -/
theorem ofText_eq_ok_iff {text : String} {ms : List (String × List Char)} {s : Settings}
    (h : ObjectText ms text.toList) : ofText text = .ok s ↔ s.ListedBy ms := by
  rw [← ofOutline?_eq_some_iff h.written_of_mem, ofText, ofText?, h.outline?_eq, Option.bind_some]
  cases ofOutline? (.object ms) <;> simp

/-- A text that gives no settings is given up. -/
theorem ofText_eq_error {text : String} (h : ∀ s, ofText text ≠ .ok s) :
    ofText text = .error (.settings "Failed to parse config") := by
  have hnone : ofText? text = none := by
    refine Option.eq_none_iff_forall_ne_some.2 fun s hs => h s ?_
    rw [ofText, hs]
  rw [ofText, hnone]

/-! ## The text that the writer writes -/

theorem write_bool (l : Json.Layout) (depth : Nat) (b : Bool) :
    Json.write l depth (.bool b) = truthText b := by
  cases b <;> rfl

theorem write_ofNat? (l : Json.Layout) (depth : Nat) (limit : Option UInt64) :
    Json.write l depth (.ofNat? (limit.map UInt64.toNat)) = limitText limit := by
  cases limit <;> rfl

theorem written_truthText (b : Bool) : Written .value (truthText b) := by
  cases b
  · exact .word (.inr (.inr rfl))
  · exact .word (.inr (.inl rfl))

theorem written_limitText (limit : Option UInt64) : Written .value (limitText limit) := by
  cases limit with
  | none => exact .word (.inl rfl)
  | some n => exact .number (numberText_toDigits n.toNat)

/-- All settings, each under its key as it is written. -/
def written (s : Settings) : List (String × List Char) :=
  [("include_tokens", truthText s.includeTokens), ("max_input_bytes", limitText s.maxInputBytes),
    ("pretty", truthText s.pretty)]

theorem objectText_render (s : Settings) (l : Json.Layout) :
    ObjectText s.written (s.toJson.render l).toList := by
  have hvalues : ∀ m ∈ [("include_tokens", Json.bool s.includeTokens),
      ("max_input_bytes", .ofNat? (s.maxInputBytes.map UInt64.toNat)), ("pretty", .bool s.pretty)],
      Written .value (Json.write l 1 m.2) := by
    simp only [List.forall_mem_cons, write_bool, write_ofNat?]
    exact ⟨written_truthText _, written_limitText _, written_truthText _, List.forall_mem_nil _⟩
  have htext := Json.objectText_render l hvalues
  simp only [List.map_cons, List.map_nil, write_bool, write_ofNat?] at htext
  exact htext

theorem listedBy_written (s : Settings) : s.ListedBy s.written := by
  constructor
  all_goals exact ⟨by simp [written], by simp [written], by simp [written]⟩

end Settings

/-- **Settings are read back from any text that lists them.**  So they are from the text that the
writer writes, and from any text of an object that lists them in any order, with or without those
that have their defaults and among any other members.  A text of an object gives no other settings
than it lists.  In particular it is given up if one of the three keys comes twice, or if what is
to be a truth value is none. -/
theorem settings_text_is_read_back :
    (∀ (s : Settings) layout, Settings.ofText (s.toJson.render layout) = .ok s) ∧
    ∀ ms text, ObjectText ms text.toList →
      (∀ s, Settings.ofText text = .ok s ↔ s.ListedBy ms) ∧
      ((∃ key ∈ ["include_tokens", "max_input_bytes", "pretty"],
          1 < (ms.map Prod.fst).count key) →
        Settings.ofText text = .error (.settings "Failed to parse config")) ∧
      ((∃ key ∈ ["include_tokens", "pretty"], ∃ v, (key, v) ∈ ms ∧
          v ≠ "true".toList ∧ v ≠ "false".toList) →
        Settings.ofText text = .error (.settings "Failed to parse config")) := by
  refine ⟨fun s layout =>
    (Settings.ofText_eq_ok_iff (s.objectText_render layout)).2 s.listedBy_written, ?_⟩
  intro ms text htext
  have hiff : ∀ s, Settings.ofText text = .ok s ↔ s.ListedBy ms := fun s =>
    Settings.ofText_eq_ok_iff htext
  refine ⟨hiff, ?_, ?_⟩
  · rintro ⟨key, hkey, htwice⟩
    refine Settings.ofText_eq_error fun s hs => ?_
    have hlisted := (hiff s).1 hs
    simp only [List.mem_cons, List.not_mem_nil, or_false] at hkey
    rcases hkey with rfl | rfl | rfl
    · exact absurd hlisted.includeTokens.once (Nat.not_le.2 htwice)
    · exact absurd hlisted.maxInputBytes.once (Nat.not_le.2 htwice)
    · exact absurd hlisted.pretty.once (Nat.not_le.2 htwice)
  · rintro ⟨key, hkey, v, hv, htrue, hfalse⟩
    have hne : ∀ b, v ≠ Settings.truthText b := fun b => by
      cases b
      · exact hfalse
      · exact htrue
    refine Settings.ofText_eq_error fun s hs => ?_
    have hlisted := (hiff s).1 hs
    simp only [List.mem_cons, List.not_mem_nil, or_false] at hkey
    rcases hkey with rfl | rfl
    · exact hne _ (hlisted.includeTokens.own v hv)
    · exact hne _ (hlisted.pretty.own v hv)

/-- Settings among something else, with escapes in two of the keys. -/
def shuffledSettings : String :=
  "\x7b \"max_input_bytes\" :18446744073709551615,\n\"\\ud83d\\uDE00\":[\x7b\x7d, -1.5e+3]\t," ++
    "\"\\u0070retty\":false \x7d\n"

theorem objectText_shuffledSettings :
    ObjectText [("max_input_bytes", "18446744073709551615".toList),
      ("😀", "[\x7b\x7d, -1.5e+3]".toList), ("pretty", "false".toList)]
      shuffledSettings.toList := by
  have hspace : AllBlank [' '] := List.forall_mem_singleton.2 rfl
  have hnewline : AllBlank ['\n'] := List.forall_mem_singleton.2 rfl
  have htab : AllBlank ['\t'] := List.forall_mem_singleton.2 rfl
  obtain ⟨_, hbytes, hbytes'⟩ := exists_stringText "max_input_bytes".toList
  obtain ⟨_, hretty, hretty'⟩ := exists_stringText "retty".toList
  have hlimit : Written .value "18446744073709551615".toList :=
    .number (numberText_toDigits 18446744073709551615)
  have hnumber : NumberText "-1.5e+3".toList :=
    @NumberText.intro ['-'] ['1'] ['.', '5'] ['e', '+', '3'] (.inr rfl)
      ⟨nofun, List.all_eq_true.1 rfl⟩ nofun
      (.inr ⟨['5'], ⟨nofun, List.all_eq_true.1 rfl⟩, rfl⟩)
      (.inr ⟨'e', ['+'], ['3'], .inl rfl, .inr (.inl rfl), ⟨nofun, List.all_eq_true.1 rfl⟩, rfl⟩)
  have harray : Written .value "[\x7b\x7d, -1.5e+3]".toList :=
    @Written.enclosed .array _ (.more (.item .nil) (@Written.empty .object [] .nil) .nil
      (.last (.item hspace) (.number hnumber) .nil))
  have hlimit' := MemberText.intro (.intro hspace hbytes hspace .nil) hbytes' hlimit .nil
  have hpair : StringText "\\ud83d\\uDE00".toList [.escaped 0xD83D, .escaped 0xDE00] :=
    .cons (@UnitText.hex 'd' '8' '3' 'd' _ rfl) (.cons (@UnitText.hex 'D' 'E' '0' '0' _ rfl) .nil)
  have harray' := @MemberText.intro "😀" _ _ _ _ (.intro hnewline hpair .nil .nil)
    (.pair (c := '😀') (by decide) .nil) harray htab
  have hpretty' := @MemberText.intro "pretty" _ _ _ _
    (.intro .nil (.cons (@UnitText.hex '0' '0' '7' '0' _ rfl) hretty) .nil .nil)
    (.single (c := 'p') (by decide) hretty') (.word (.inr (.inr rfl))) hspace
  have htext := @ObjectText.members _ [] _ _ .nil (.more hlimit' (.more harray' (.last hpretty')))
    hnewline
  exact (congrArg (ObjectText _) (by decide +kernel)).mpr htext

theorem settings_text_is_read_back_shuffled :
    Settings.ofText shuffledSettings =
        .ok { maxInputBytes := some 18446744073709551615, pretty := false } ∧
      Settings.ofText ((Json.object [("pretty", .bool true), ("pretty", .bool true)]).render
        .compact) = .error (.settings "Failed to parse config") ∧
      Settings.ofText ((Json.object [("include_tokens", .null)]).render .indented) =
        .error (.settings "Failed to parse config") := by
  obtain ⟨-, hobject⟩ := settings_text_is_read_back
  have htrue : Written .value "true".toList := .word (.inr (.inl rfl))
  have htwice := @objectText_render .compact [("pretty", .bool true), ("pretty", .bool true)]
    (List.forall_mem_cons.2 ⟨htrue, List.forall_mem_singleton.2 htrue⟩)
  have hnull := @objectText_render .indented [("include_tokens", .null)]
    (List.forall_mem_singleton.2 (.word (.inl rfl)))
  have hlimit : Settings.limitText (some 18446744073709551615) =
      "18446744073709551615".toList := by
    decide +kernel
  refine ⟨?_, (hobject _ _ htwice).2.1 ⟨"pretty", by decide, by decide⟩,
    (hobject _ _ hnull).2.2 ⟨"include_tokens", by decide, _, List.mem_cons_self, by decide,
      by decide⟩⟩
  refine ((hobject _ _ objectText_shuffledSettings).1 _).2 ⟨?_, ?_, ?_⟩
  · exact ⟨by decide, by simp, by simp⟩
  · exact ⟨by decide, by simp [hlimit], by simp [hlimit]⟩
  · exact ⟨by decide, by simp [Settings.truthText], by simp [Settings.truthText]⟩

end StudyPlan
