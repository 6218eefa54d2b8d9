import StudyPlan.Proofs.SettingsText

/-!
# What the bytes of a settings file say

Settings are read from bytes.  The bytes of a text say what the text says (`ofBytes?_toUTF8`), and
so nothing is lost by speaking of texts as long as a file holds one.

A file that holds none can give settings as well.  Where a byte that belongs to no character may
stand is what the rest of this file is about.

## 1.  Between two quotes

Bytes that hold no quote, no backslash and no control character are a well-formed string, whatever
else they are, and they stand for a text only if they are the bytes of one
(`exists_stringText_characters`).  The quote behind them ends the string: it belongs to no longer
character, for only the first byte of a character can look like one (`exists_of_append_quote`).

## 2.  In a value and in a key

So the settings do not depend on what stands in a string that is ignored
(`ofBytes?_ignoring`), and bytes that are those of no text are no key
(`ofBytes?_eq_none_of_key`).
-/

namespace StudyPlan
namespace Json

open Reader

/-! ## The bytes of a text -/

theorem toList_data_toUTF8 (text : String) :
    text.toUTF8.data.toList = text.toList.flatMap String.utf8EncodeChar := by
  rw [String.toUTF8_eq_toByteArray, ← String.utf8Encode_toList, List.utf8Encode,
    List.toList_data_toByteArray]

theorem characters_toUTF8_append (text : String) (rest : List UInt8) :
    characters (text.toUTF8.data.toList ++ rest) = text.toList ++ characters rest := by
  rw [toList_data_toUTF8, characters_flatMap_append]

theorem characters_toUTF8 (text : String) : characters text.toUTF8.data.toList = text.toList := by
  have hnil := characters_toUTF8_append text []
  rwa [List.append_nil, characters, List.append_nil] at hnil

/-! ## 1.  Between two quotes -/

/-- Bytes that may stand in a string as they are. -/
def PlainBytes (bytes : List UInt8) : Prop :=
  ∀ b ∈ bytes, 0x20 ≤ b ∧ b ≠ 0x22 ∧ b ≠ 0x5C

/-- A quote belongs to no longer character: what is in front of it begins with a whole one. -/
theorem exists_of_append_quote {b : UInt8} {bytes rest rest' : List UInt8} {c : Char}
    (h : b :: bytes ++ 0x22 :: rest = String.utf8EncodeChar c ++ rest') :
    ∃ bytes', b :: bytes = String.utf8EncodeChar c ++ bytes' := by
  rcases List.append_eq_append_iff.1 h with ⟨behind, hchar, hrest⟩ | ⟨bytes', hbytes, -⟩
  · cases behind with
    | nil => exact ⟨[], by rw [hchar, List.append_nil, List.append_nil]⟩
    | cons b' behind =>
      obtain rfl : (0x22 : UInt8) = b' := (List.cons.inj hrest).1
      have hlength : (b :: bytes).length < (String.utf8EncodeChar c).length := by
        rw [hchar, List.length_append]
        exact Nat.lt_add_of_pos_right (Nat.succ_pos _)
      have hquote : (String.utf8EncodeChar c)[(b :: bytes).length] = 0x22 := by
        simp [hchar]
      have hfirst : (String.utf8EncodeChar c)[(b :: bytes).length].IsUTF8FirstByte := by
        rw [hquote]
        decide
      exact absurd (UInt8.isUTF8FirstByte_getElem_utf8EncodeChar.1 hfirst) (Nat.succ_ne_zero _)
  · exact ⟨bytes', hbytes⟩

/-- Where bytes in front of a quote begin with no character, the first of them is a stray one. -/
theorem characters_of_stray {b : UInt8} {bytes : List UInt8}
    (h : ¬ ∃ c bytes', b :: bytes = String.utf8EncodeChar c ++ bytes') (rest : List UInt8) :
    characters (b :: bytes ++ 0x22 :: rest) = stray ++ characters (bytes ++ 0x22 :: rest) := by
  have hnone : front? (b :: (bytes ++ 0x22 :: rest)) = none := by
    refine Option.eq_none_iff_forall_ne_some.2 fun c hc => h ⟨c, ?_⟩
    obtain ⟨rest', hrest⟩ := exists_of_front?_eq_some hc
    exact exists_of_append_quote hrest
  rw [List.cons_append, characters]
  simp only [hnone]

/-- A character whose bytes may stand in a string may stand there itself. -/
theorem unitText_of_plainBytes {c : Char} (h : PlainBytes (String.utf8EncodeChar c)) :
    UnitText [c] (.char c) := by
  refine .plain ?_ ?_ ?_
  · rintro rfl
    exact absurd rfl (h 0x22 (by decide)).2.1
  · rintro rfl
    exact absurd rfl (h 0x5C (by decide)).2.2
  · by_contra hlow
    have hcode : c.val.toNat < 0x20 := Nat.not_le.1 hlow
    have hbytes : String.utf8EncodeChar c = [UInt8.ofNat c.val.toNat] := by
      rw [String.utf8EncodeChar, if_pos (by omega)]
    have hbyte := UInt8.le_iff_toNat_le.1 (h (UInt8.ofNat c.val.toNat) (by simp [hbytes])).1
    rw [UInt8.toNat_ofNat', Nat.mod_eq_of_lt (by omega)] at hbyte
    exact Nat.not_le.2 hcode hbyte

/-- What a stray byte is read as is well formed. -/
theorem stringText_stray : StringText stray [.char '\ufffd', .escaped 0xDC00] :=
  .cons (.plain (by decide) (by decide) (by decide))
    (.cons (@UnitText.hex 'd' 'c' '0' '0' 0xDC00 rfl) .nil)

/-- What a stray byte is read as makes no sense. -/
theorem decode?_stray (us : List CodeUnit) :
    decode? (.char '\ufffd' :: .escaped 0xDC00 :: us) = none := by
  rcases us with _ | ⟨d | m, us⟩ <;> rfl

theorem StringText.append {cs cs' : List Char} {us us' : List CodeUnit} (h : StringText cs us)
    (h' : StringText cs' us') : StringText (cs ++ cs') (us ++ us') := by
  induction h with
  | nil => exact h'
  | cons hu _ ih =>
    rw [List.append_assoc]
    exact .cons hu ih

/-- **Bytes between two quotes are a string, and they have to be a text to stand for one.** -/
theorem exists_stringText_characters {bytes : List UInt8} (h : PlainBytes bytes) :
    ∃ cs us, StringText cs us ∧
      (∀ rest, characters (bytes ++ 0x22 :: rest) = cs ++ '"' :: characters rest) ∧
      ∀ text, decode? us = some text → bytes = text.flatMap String.utf8EncodeChar := by
  match bytes with
  | [] =>
    refine ⟨[], [], .nil, characters_append '"', ?_⟩
    rintro _ ⟨⟩
    rfl
  | b :: bytes =>
    by_cases hfront : ∃ c bytes', b :: bytes = String.utf8EncodeChar c ++ bytes'
    · obtain ⟨c, bytes', hbytes⟩ := hfront
      have hshorter : bytes'.length < (b :: bytes).length := by
        rw [hbytes, List.length_append, String.length_utf8EncodeChar]
        exact Nat.lt_add_of_pos_left c.utf8Size_pos
      rw [hbytes] at h ⊢
      obtain ⟨hchar, hrest⟩ := List.forall_mem_append.1 h
      obtain ⟨cs, us, htext, hread, hsense⟩ := exists_stringText_characters hrest
      refine ⟨[c] ++ cs, _, .cons (unitText_of_plainBytes hchar) htext, fun rest => ?_, ?_⟩
      · rw [List.append_assoc, characters_append, hread]
        rfl
      · intro text htext
        obtain ⟨text', htext', rfl⟩ := Option.map_eq_some_iff.1 htext
        rw [List.flatMap_cons, ← hsense text' htext']
    · obtain ⟨cs, us, htext, hread, -⟩ :=
        exists_stringText_characters (List.forall_mem_cons.1 h).2
      refine ⟨stray ++ cs, _, stringText_stray.append htext, fun rest => ?_, fun text htext => ?_⟩
      · rw [characters_of_stray hfront, hread, List.append_assoc]
      · cases (decode?_stray us).symm.trans htext
termination_by bytes.length
decreasing_by
  · exact hshorter
  · exact Nat.lt_succ_self _

/-- A key that makes no sense is none, whatever stands behind it. -/
theorem StringText.member?_eq_none {cs : List Char} {us : List CodeUnit} (h : StringText cs us)
    (hus : decode? us = none) (rest : List Char) :
    member? ('"' :: (cs ++ '"' :: rest)) = none := by
  rw [member?, key?, skipBlanks_cons rfl]
  simp only [h.stringBody?_eq]
  split
  · rw [Option.bind_some]
    simp only [hus, Option.bind_none]
  · rfl

/-- An object is not read if its first key makes no sense. -/
theorem StringText.outline?_eq_none {cs : List Char} {us : List CodeUnit} (h : StringText cs us)
    (hus : decode? us = none) (rest : List Char) :
    outline? (String.ofList ('{' :: '"' :: (cs ++ '"' :: rest))) = none := by
  have hmember := h.member?_eq_none hus rest
  have hmembers : members? ('"' :: (cs ++ '"' :: rest)) = none := by
    rw [members?]
    split
    · next heq => cases hmember.symm.trans heq
    · next heq => cases hmember.symm.trans heq
    · rfl
  simp [outline?, skipBlanks_cons, isBlank, hmembers]

/-- Bytes with a quote behind them, between a text and any other bytes. -/
def framed (front : String) (bytes : List UInt8) (back : ByteArray) : ByteArray :=
  front.toUTF8 ++ bytes.toByteArray ++ "\"".toUTF8 ++ back

theorem exists_characters_framed {bytes : List UInt8} (h : PlainBytes bytes) :
    ∃ cs us, StringText cs us ∧
      (∀ front back, characters (framed front bytes back).data.toList =
        front.toList ++ (cs ++ '"' :: characters back.data.toList)) ∧
      ∀ text, decode? us = some text → bytes = text.flatMap String.utf8EncodeChar := by
  obtain ⟨cs, us, htext, hread, hsense⟩ := exists_stringText_characters h
  refine ⟨cs, us, htext, fun front back => ?_, hsense⟩
  have hlist : (framed front bytes back).data.toList =
      front.toUTF8.data.toList ++ (bytes ++ 0x22 :: back.data.toList) := by
    have hquote : "\"".toUTF8.data.toList = [0x22] := by decide
    rw [framed, ByteArray.data_append, ByteArray.data_append, ByteArray.data_append]
    simp only [Array.toList_append, List.toList_data_toByteArray, hquote, List.append_assoc,
      List.cons_append, List.nil_append]
  rw [hlist, characters_toUTF8_append, hread]

/-- An object with one member, which is a string of these bytes. -/
def oneMember (key : String) (bytes : List UInt8) : ByteArray :=
  framed ("\x7b" ++ String.ofList (quote key) ++ ":\"") bytes "\x7d".toUTF8

end Json

/-! ## 2.  In a value and in a key -/

namespace Settings

open Json Reader

/-- **The bytes of a text give the settings that the text gives.** -/
theorem ofBytes?_toUTF8 (text : String) : ofBytes? text.toUTF8 = ofText? text := by
  rw [ofBytes?, characters_toUTF8, String.ofList_toList]

/-- Members of other keys leave the settings as they are by default. -/
theorem listedBy_of_other_keys {ms : List (String × List Char)}
    (h : ∀ m ∈ ms, m.1 ∉ ["include_tokens", "max_input_bytes", "pretty"]) :
    ({} : Settings).ListedBy ms := by
  have hlists : ∀ {α : Type} {text : α → List Char} {standard : α} {key : String},
      key ∈ ["include_tokens", "max_input_bytes", "pretty"] →
        Lists ms key text standard standard := by
    intro α text standard key hkey
    have hnot : ∀ v, (key, v) ∉ ms := fun v hv => h _ hv hkey
    refine ⟨?_, fun v hv => absurd hv (hnot v), fun hne => absurd rfl hne⟩
    rw [List.count_eq_zero.2]
    · exact Nat.zero_le 1
    · intro hmem
      obtain ⟨⟨k, v⟩, hm, rfl⟩ := List.mem_map.1 hmem
      exact hnot v hm
  exact ⟨hlists (by decide), hlists (by decide), hlists (by decide)⟩

/-- **What stands in a string that is ignored is not looked at,** be it a text or not. -/
theorem ofBytes?_ignoring {key : String} {bytes : List UInt8}
    (hkey : key ∉ ["include_tokens", "max_input_bytes", "pretty"]) (hbytes : PlainBytes bytes) :
    ofBytes? (oneMember key bytes) = some {} := by
  obtain ⟨cs, us, hstring, hread, -⟩ := exists_characters_framed hbytes
  obtain ⟨us', hquoted, hencodes⟩ := exists_stringText key.toList
  have hmember : MemberText (key, '"' :: (cs ++ ['"'])) _ :=
    .intro (.intro .nil hquoted .nil .nil) hencodes (.string hstring) .nil
  have htext := @ObjectText.members _ [] _ [] .nil (.last hmember) .nil
  have hobject : ObjectText [(key, '"' :: (cs ++ ['"']))]
      (characters (oneMember key bytes).data.toList) := by
    rw [oneMember, hread, characters_toUTF8]
    simpa [quote] using htext
  rw [← String.toList_ofList (l := characters _)] at hobject
  rw [ofBytes?, ofText?, hobject.outline?_eq, Option.bind_some,
    ofOutline?_eq_some_iff hobject.written_of_mem]
  exact listedBy_of_other_keys (List.forall_mem_singleton.2 hkey)

/-- **Bytes that are those of no text are no key.** -/
theorem ofBytes?_eq_none_of_key {bytes : List UInt8} (hbytes : PlainBytes bytes)
    (hkey : ∀ key : String, bytes.toByteArray ≠ key.toUTF8) (back : ByteArray) :
    ofBytes? (framed "\x7b\"" bytes back) = none := by
  obtain ⟨cs, us, hstring, hread, hsense⟩ := exists_characters_framed hbytes
  have hdecode : decode? us = none := by
    refine Option.eq_none_iff_forall_ne_some.2 fun text htext => hkey (String.ofList text) ?_
    rw [hsense text htext, String.toUTF8_eq_toByteArray, String.toByteArray_ofList, List.utf8Encode]
  rw [ofBytes?, ofText?, hread]
  exact congrArg (Option.bind · ofOutline?) (hstring.outline?_eq_none hdecode _)

end Settings
end StudyPlan
