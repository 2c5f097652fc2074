/-!
# Machine words

A word is the unit of memory cells, registers, addresses and immediate operands.
Arithmetic on words wraps.  In text a word is an unsigned decimal numeral: it is
written without leading zeros, and it is read from any non-empty run of ASCII
digits whose value fits.
-/

namespace WordMachine

abbrev Word := UInt64

namespace Word

def modulus : Nat := UInt64.size

/-- The decimal numeral of a word. -/
def text (w : Word) : String := w.toNat.repr

/-- The value of a run of decimal digits, when it fits in a word. -/
def ofDigits? (digits : List Char) : Option Word :=
  if digits ≠ [] ∧ digits.all Char.isDigit ∧ Nat.ofDigitChars 10 digits 0 < modulus then
    some (UInt64.ofNat (Nat.ofDigitChars 10 digits 0))
  else
    none

/-- Reads a literal of the source language: digits only, no sign and no base. -/
def ofText? (text : String) : Option Word := ofDigits? text.toList

/-- Reads a number typed by a user, which may carry a plus sign. -/
def ofTyped? (text : String) : Option Word :=
  match text.toList with
  | '+' :: digits => ofDigits? digits
  | digits => ofDigits? digits

theorem ofDigits?_toDigits (w : Word) : ofDigits? (Nat.toDigits 10 w.toNat) = some w := by
  have hdigits : (Nat.toDigits 10 w.toNat).all Char.isDigit = true := by
    rw [List.all_eq_true]
    intro c hc
    exact Nat.isDigit_of_mem_toDigits (by decide) (by decide) hc
  have hvalue : Nat.ofDigitChars 10 (Nat.toDigits 10 w.toNat) 0 = w.toNat :=
    Nat.ofDigitChars_toDigits (by decide) (by decide)
  have hfits : w.toNat < modulus := w.toNat_lt
  simp [ofDigits?, hdigits, hvalue, hfits, Nat.toDigits_ne_nil]

/-- A written word reads back as itself. -/
@[simp]
theorem ofText?_text (w : Word) : ofText? w.text = some w := by
  simp [ofText?, text, Nat.repr_eq_ofList_toDigits, ofDigits?_toDigits]

end Word

end WordMachine
