import MarketRules.Number.Binary64
import MarketRules.Number.Decimal

/-!
# The shortest decimal of a binary64 number

A finite number is the nearest binary64 number of every real in an interval
around it.  Its *shortest decimal* is the decimal in that interval with the
fewest digits, and among those the one nearest to the number.  Two can be
equally near, as `0.2` and `0.3` are to `0.25` where the interval is wide enough
for both.  A `Tie` says which of them is written.

The search looks at the grids of one, two, up to seventeen digits.  On a grid
only the two neighbours of the number have to be tried: if a point of the grid
lies in the interval, so does one of them.
-/

namespace MarketRules.Binary64

/-! ## The interval of a number -/

/-- The reals that round to a positive finite number, in quarters of its last
place: from `low` to `high`, around `middle`. -/
structure Interval where
  /-- The lower end. -/
  low : Nat
  /-- The number itself. -/
  middle : Nat
  /-- The upper end. -/
  high : Nat
  /-- Do the ends belong to the interval? -/
  closed : Bool

/-- The interval of `mantissa * 2^exponent` steps.  Below a power of two the next
number is only half as far away.  A tie goes to the even mantissa, so the ends
belong to the interval of an even one. -/
def interval (mantissa exponent : Nat) : Interval where
  low := if mantissa = Nat.pow 2 52 ∧ exponent ≠ 0 then 4 * mantissa - 1 else 4 * mantissa - 2
  middle := 4 * mantissa
  high := 4 * mantissa + 2
  closed := mantissa % 2 = 0

/-- Does `point / den` lie in the interval, whose unit is `unit / den`? -/
def Interval.contains (i : Interval) (unit point : Nat) : Bool :=
  if i.closed then i.low * unit ≤ point && point ≤ i.high * unit
  else i.low * unit < point && point < i.high * unit

/-! ## The grids -/

/-- Which of two equally near decimals is written. -/
inductive Tie where
  /-- The larger one. -/
  | larger
  /-- The one whose last digit is even. -/
  | even
deriving DecidableEq

/-- Of the grid points `below` and `below + 1`, the one nearer to
`below + rest / den`. -/
def nearer (tie : Tie) (below rest den : Nat) : Nat :=
  if 2 * rest < den then below
  else if den < 2 * rest then below + 1
  else match tie with
    | .larger => below + 1
    | .even => below + below % 2

/-- The place of the point of a positive quotient: the least `p` such that the
quotient is below `10^p`. -/
def pointOf (num den : Nat) : Int :=
  if den ≤ num then (digits (num / den)).length
  else 1 - ((digits ((den - 1) / num)).length : Int)

/-- The nearest grid point that lies in the interval of the number, counted in
units of `10^unitExponent`. -/
def onGrid? (tie : Tie) (mantissa exponent : Nat) (unitExponent : Int) : Option Nat :=
  let scale := Nat.pow 10 unitExponent.natAbs
  let unit := if unitExponent < 0 then Nat.pow 2 exponent * scale else Nat.pow 2 exponent
  let den := if unitExponent < 0 then 4 * stepsPerUnit else 4 * stepsPerUnit * scale
  let i := interval mantissa exponent
  let below := i.middle * unit / den
  let rest := i.middle * unit % den
  match i.contains unit (below * den), i.contains unit ((below + 1) * den) with
  | true, true => some (nearer tie below rest den)
  | true, false => some below
  | false, true => some (below + 1)
  | false, false => none

/-- The shortest decimal of the positive finite number with this mantissa and
exponent.  On the grid of seventeen digits one of its neighbours always lies in
the interval, so the exact value is never written. -/
def shortest (tie : Tie) (mantissa exponent : Nat) : Decimal :=
  let point := pointOf (steps mantissa exponent) stepsPerUnit
  let found := (List.range 17).findSome? fun k =>
    let unitExponent : Int := point - (k + 1 : Nat)
    (onGrid? tie mantissa exponent unitExponent).map (Decimal.ofUnits · unitExponent)
  found.getD (Decimal.ofUnits (steps mantissa exponent * Nat.pow 5 1074) (-1074))

/-! ## Plain text -/

/-- The sign in front of a number. -/
def sign (negative : Bool) : List Char := if negative then ['-'] else []

/-- The characters of `plain`. -/
def plainChars : Binary64 → List Char
  | .nan => "NaN".toList
  | .infinite n => sign n ++ "inf".toList
  | .finite n m e _ => sign n ++ if m = 0 then ['0'] else (shortest .larger m e).positional

/-- A number in plain text: its shortest decimal in positional notation, the
larger one of two. -/
def plain (x : Binary64) : String := String.ofList x.plainChars

/-! ## Tests -/

example : (ofRatio false 1 10).plain = "0.1" := by decide +kernel
example : (ofNat (10 ^ 23)).plain = "100000000000000000000000" := by decide +kernel
example : (ofRatio true 5 2).plain = "-2.5" ∧ (signedZero true).plain = "-0" := by decide +kernel
example : shortest .even 1 0 = ⟨['5'], -323⟩ := by decide +kernel
/-- `2^50 + 1/4` is equally near to two decimals of seventeen digits. -/
example : (shortest .larger (2 ^ 52 + 1) 1072).positional = "1125899906842624.3".toList ∧
    (shortest .even (2 ^ 52 + 1) 1072).positional = "1125899906842624.2".toList := by
  decide +kernel

end MarketRules.Binary64
