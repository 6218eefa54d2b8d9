import StudyPlan.Json.Reader

/-!
# JSON documents in bytes

A document is kept in bytes, and nothing says that these are the bytes of a text.  What is
asked of them depends on where they stand.  A key has to be a text.  A string that nobody
looks at need not be one: as its escapes may come to nothing, so may its bytes, and it is
well formed all the same.

## Stray bytes

Bytes are read as characters, and a byte that belongs to no character is a stray one.  It is
read as a character followed by an escape that stands for none (`stray`).  In a string that is
well formed and makes no sense, which is what is wanted of it.  Everywhere else it is not well
formed: no token begins with it, no number or word goes on with it, and it is neither a letter
behind a backslash nor a hexadecimal digit.
-/

namespace StudyPlan
namespace Json
namespace Reader

/-- The character that the bytes begin with, if they begin with one. -/
def front? (bytes : List UInt8) : Option Char :=
  (bytes.take 4).toByteArray.utf8DecodeChar? 0

/-- What a stray byte is read as.  The escape is that of the second half of a surrogate pair.
The character before it keeps it from being taken for the second half of anything. -/
def stray : List Char :=
  ['\ufffd', '\\', 'u', 'd', 'c', '0', '0']

/-- The characters that the bytes are read as. -/
def characters : List UInt8 → List Char
  | [] => []
  | b :: bytes =>
    match front? (b :: bytes) with
    | some c => c :: characters (bytes.drop (c.utf8Size - 1))
    | none => stray ++ characters bytes
termination_by bytes => bytes.length
decreasing_by
  · exact Nat.lt_succ_of_le (List.length_drop ▸ Nat.sub_le _ _)
  · exact Nat.lt_succ_self _

/-! ## Characters -/

theorem front?_append (c : Char) (rest : List UInt8) :
    front? (String.utf8EncodeChar c ++ rest) = some c := by
  have hsize : (String.utf8EncodeChar c).length ≤ 4 := by
    rw [String.length_utf8EncodeChar]
    exact c.utf8Size_le_four
  rw [front?, List.take_append, List.take_of_length_le hsize, List.toByteArray_append]
  exact ByteArray.utf8DecodeChar?_utf8EncodeChar_append

/-- Bytes that begin with a character begin with all bytes of it. -/
theorem exists_of_front?_eq_some {bytes : List UInt8} {c : Char} (h : front? bytes = some c) :
    ∃ rest, bytes = String.utf8EncodeChar c ++ rest := by
  obtain ⟨rest, hrest⟩ := ByteArray.exists_of_utf8DecodeChar?_eq_some h
  refine ⟨rest.data.toList ++ bytes.drop 4, ?_⟩
  have htake : bytes.take 4 = String.utf8EncodeChar c ++ rest.data.toList := by
    have hlists := congrArg (fun b => b.data.toList) hrest
    simpa using hlists
  rw [← List.append_assoc, ← htake, List.take_append_drop]

theorem characters_append (c : Char) (rest : List UInt8) :
    characters (String.utf8EncodeChar c ++ rest) = c :: characters rest := by
  have hfront := front?_append c rest
  have hlength := String.length_utf8EncodeChar c
  cases hbytes : String.utf8EncodeChar c with
  | nil => exact absurd hbytes String.utf8EncodeChar_ne_nil
  | cons b bytes =>
    rw [hbytes] at hfront hlength
    rw [List.cons_append] at hfront ⊢
    rw [characters]
    simp only [hfront]
    rw [← hlength, List.length_cons, Nat.add_sub_cancel, List.drop_left]

/-- The bytes of characters are read as these. -/
theorem characters_flatMap_append (cs : List Char) (rest : List UInt8) :
    characters (cs.flatMap String.utf8EncodeChar ++ rest) = cs ++ characters rest := by
  induction cs with
  | nil => rfl
  | cons c cs ih => rw [List.flatMap_cons, List.append_assoc, characters_append, ih, List.cons_append]

end Reader
end Json
end StudyPlan
