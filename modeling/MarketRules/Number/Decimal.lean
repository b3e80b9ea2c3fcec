/-!
# Decimal digits

A natural number as decimal digits, and a positive decimal as digits with a
point.  The digits of a number read back as the number (`ofDigits_digits`).
-/

namespace MarketRules

/-! ## Digits of a natural number -/

/-- The decimal digits of a number, without leading zeros. -/
def digits (n : Nat) : List Char := Nat.toDigits 10 n

/-- The number that decimal digits stand for. -/
def ofDigits (ds : List Char) : Nat := Nat.ofDigitChars 10 ds 0

/-- The digits of a number are read back. -/
theorem ofDigits_digits (n : Nat) : ofDigits (digits n) = n :=
  Nat.ofDigitChars_toDigits (by decide) (by decide)

theorem isDigit_of_mem_digits {n : Nat} {c : Char} (h : c ∈ digits n) : c.isDigit = true :=
  Nat.isDigit_of_mem_toDigits (by decide) (by decide) h

/-- A number in decimal, as text. -/
def decimal (n : Nat) : String := String.ofList (digits n)

/-- At least `width` digits, with zeros in front. -/
def paddedDigits (width n : Nat) : List Char :=
  List.replicate (width - (digits n).length) '0' ++ digits n

/-! ## Decimals -/

/-- The positive decimal `0.d₁d₂…dₙ * 10^point`. -/
structure Decimal where
  /-- The digits `d₁`, `d₂` and so on. -/
  digits : List Char
  /-- How many places the point stands right of the first digit's left side. -/
  point : Int
deriving DecidableEq

/-- A whole number of units of `10^exponent` as a decimal, without the zeros at
its end. -/
def Decimal.ofUnits (n : Nat) (exponent : Int) : Decimal where
  digits := ((MarketRules.digits n).reverse.dropWhile (· == '0')).reverse
  point := (MarketRules.digits n).length + exponent

/-- Positional notation: no exponent, and no point where there is no fraction. -/
def Decimal.positional (d : Decimal) : List Char :=
  if d.point ≤ 0 then
    ['0', '.'] ++ List.replicate d.point.natAbs '0' ++ d.digits
  else if d.digits.length ≤ d.point.natAbs then
    d.digits ++ List.replicate (d.point.natAbs - d.digits.length) '0'
  else
    d.digits.take d.point.natAbs ++ '.' :: d.digits.drop d.point.natAbs

/-! ## Tests -/

example : (Decimal.ofUnits 1250 (-2)).positional = "12.5".toList := by decide
example : (Decimal.ofUnits 12 3).positional = "12000".toList := by decide
example : (Decimal.ofUnits 7 (-3)).positional = "0.007".toList := by decide
example : String.ofList (paddedDigits 4 44) = "0044" := by decide

end MarketRules
