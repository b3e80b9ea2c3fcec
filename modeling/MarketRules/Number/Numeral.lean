import MarketRules.Number.Binary64
import MarketRules.Number.Decimal

/-!
# Numerals

A numeral is a number as a person types it: a sign, digits with at most one
point before, between or after them, and an exponent, or the words `inf`,
`infinity` and `nan` in any letter case.  It stands for the nearest binary64
number.  Nothing else is a numeral: no blanks, no separators, no hexadecimal and
no digits other than `0` to `9`.
-/

namespace MarketRules

/-! ## The value of a decimal -/

/-- The binary64 number nearest to `n * 10^exponent`.  The two bounds only spare
the arithmetic on numbers that are far outside the range of the format. -/
def Binary64.ofDecimal (negative : Bool) (n : Nat) (exponent : Int) : Binary64 :=
  let size := (digits n).length + exponent
  if n = 0 ∨ size < -400 then signedZero negative
  else if 400 < size then .infinite negative
  else if exponent < 0 then ofRatio negative n (Nat.pow 10 exponent.natAbs)
  else ofRatio negative (n * Nat.pow 10 exponent.natAbs) 1

/-! ## Reading -/

/-- Why a text is not a numeral. -/
inductive NumeralError where
  /-- There is no text. -/
  | empty
  /-- The text has another form. -/
  | malformed
deriving DecidableEq

def NumeralError.message : NumeralError → String
  | .empty => "cannot parse float from empty string"
  | .malformed => "invalid float literal"

/-- Split a sign off the front.  The first part says whether it is a minus. -/
def splitSign : List Char → Bool × List Char
  | '-' :: cs => (true, cs)
  | '+' :: cs => (false, cs)
  | cs => (false, cs)

/-- One or more digits and nothing else, as a number. -/
def readDigits? (cs : List Char) : Option Nat :=
  if cs ≠ [] ∧ cs.all Char.isDigit then some (ofDigits cs) else none

/-- An integer: a sign that may be missing, and digits. -/
def readInt? (cs : List Char) : Option Int :=
  (readDigits? (splitSign cs).2).map fun n => if (splitSign cs).1 then -n else n

/-- The exponent at the end of a numeral, zero if there is none. -/
def readExponent? : List Char → Option Int
  | [] => some 0
  | c :: cs => if c = 'e' ∨ c = 'E' then readInt? cs else none

/-- The digits before the point, the digits behind it and what follows them. -/
def splitMantissa (cs : List Char) : List Char × List Char × List Char :=
  match cs.dropWhile Char.isDigit with
  | '.' :: rest =>
    (cs.takeWhile Char.isDigit, rest.takeWhile Char.isDigit, rest.dropWhile Char.isDigit)
  | rest => (cs.takeWhile Char.isDigit, [], rest)

/-- A numeral without its sign. -/
def readMagnitude? (negative : Bool) (cs : List Char) : Option Binary64 :=
  let name := cs.map Char.toLower
  if name = "inf".toList ∨ name = "infinity".toList then some (.infinite negative)
  else if name = "nan".toList then some .nan
  else
    let (whole, fraction, rest) := splitMantissa cs
    if whole = [] ∧ fraction = [] then none
    else (readExponent? rest).map fun exponent =>
      .ofDecimal negative (ofDigits (whole ++ fraction)) (exponent - fraction.length)

/-- The number a numeral stands for. -/
def readNumeral (cs : List Char) : Except NumeralError Binary64 :=
  if cs = [] then .error .empty
  else
    match readMagnitude? (splitSign cs).1 (splitSign cs).2 with
    | some x => .ok x
    | none => .error .malformed

/-- The number a numeral stands for, if the text is one. -/
def readNumeral? (cs : List Char) : Option Binary64 := (readNumeral cs).toOption

/-! ## Tests -/

example : readNumeral? "1e3".toList = some 1000 := by decide +kernel
example : readNumeral? "-.5".toList = some (.ofRatio true 1 2) := by decide +kernel
example : readNumeral? "5.".toList = some 5 ∧ readNumeral? ".".toList = none := by decide +kernel
example : readNumeral? "1e400".toList = some (.infinite false) := by decide +kernel
example : readNumeral? "-Infinity".toList = some (.infinite true) := by decide +kernel
example : readNumeral? "1_000".toList = none ∧ readNumeral? "1e".toList = none := by decide +kernel

end MarketRules
