import MarketRules.Text.WordTable

/-!
# Word characters and decimal digits

The characters that make up words, and the decimal digits of every script.  A
word ends or begins between two characters of which exactly one is a word
character.
-/

namespace MarketRules

/-- Is the character a decimal digit of some script? -/
def isDecimalDigit (c : Char) : Bool :=
  if c.toNat < 128 then c.isDigit else decimalDigitRanges.contains c

/-- Is the character part of a word? -/
def isWordChar (c : Char) : Bool :=
  if c.toNat < 128 then c.isAlphanum || c == '_' else wordRanges.contains c

/-- The ASCII digits are decimal digits. -/
theorem isDecimalDigit_of_isDigit {c : Char} (h : c.isDigit = true) : isDecimalDigit c = true := by
  have hc : c.toNat < 128 := by
    simp only [Char.isDigit, Bool.and_eq_true, decide_eq_true_eq] at h
    have hle : c.val.toNat ≤ 57 := h.2
    exact Nat.lt_of_le_of_lt hle (by decide)
  simp [isDecimalDigit, hc, h]

example : isWordChar 'é' = true ∧ isWordChar '\u200d' = true ∧ isWordChar '½' = false := by
  decide +kernel
example : isDecimalDigit '٣' = true ∧ isDecimalDigit '²' = false := by decide +kernel

end MarketRules
