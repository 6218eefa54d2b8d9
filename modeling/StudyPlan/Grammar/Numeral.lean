/-!
# Numerals

The number that a text writes: one or more decimal digits, of which any number may
be leading zeros, and possibly a plus sign in front.  Only numbers that fit into 32
bits count.
-/

namespace StudyPlan
namespace Numeral

/-- The digits of a numeral, without its plus sign. -/
def digits (text : String) : List Char :=
  match text.toList with
  | '+' :: rest => rest
  | cs => cs

/-- Is the text a decimal numeral? -/
def isNumeral (text : String) : Bool :=
  !(digits text).isEmpty && (digits text).all Char.isDigit

/-- The number that the digits of the text write. -/
def value (text : String) : Nat :=
  Nat.ofDigitChars 10 (digits text) 0

/-- The 32-bit number that a text writes, if it writes one. -/
def toUInt32? (text : String) : Option UInt32 :=
  if h : isNumeral text = true ∧ value text < UInt32.size then
    some (UInt32.ofNatLT (value text) h.2)
  else
    none

/-- A text writes the number `n` exactly when it is a numeral of that value. -/
theorem toUInt32?_eq_some_iff {text : String} {n : UInt32} :
    toUInt32? text = some n ↔ isNumeral text = true ∧ value text = n.toNat := by
  unfold toUInt32?
  split
  · next h =>
    rw [Option.some.injEq]
    constructor
    · rintro rfl
      exact ⟨h.1, by simp⟩
    · rintro ⟨-, hv⟩
      apply UInt32.toNat_inj.1
      simpa using hv
  · next h =>
    constructor
    · intro h'
      cases h'
    · rintro ⟨h1, h2⟩
      exact absurd ⟨h1, h2 ▸ n.toNat_lt_size⟩ h

end Numeral
end StudyPlan
