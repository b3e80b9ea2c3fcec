import MarketRules.Calendar.Date
import MarketRules.Text.Blank

/-!
# Reading dates

A date is read as year, month and day with a `-` between them.  Blanks may stand
before each number.  A year has up to four digits, or a sign and any number of
digits; a month and a day have one or two.

The checks run from left to right.  A month or a day that no month of any year
has is refused where it stands, a date that the calendar does not have only
after the end of the text was found.
-/

namespace MarketRules

/-- Why a text is not a date. -/
inductive DateError where
  /-- The text ends too early. -/
  | premature
  /-- A character is not the one that is needed. -/
  | invalid
  /-- A number is too large or too small, or the calendar has no such day. -/
  | outOfRange
  /-- The text goes on behind the date. -/
  | trailing
deriving DecidableEq

def DateError.message : DateError → String
  | .premature => "premature end of input"
  | .invalid => "input contains invalid characters"
  | .outOfRange => "input is out of range"
  | .trailing => "trailing input"

namespace Date

/-- The digits of a number and the text behind them. -/
def splitNumber (limit : Nat) (cs : List Char) : Except DateError (Nat × List Char) :=
  match (cs.take limit).takeWhile Char.isDigit with
  | [] => .error (if cs = [] then .premature else .invalid)
  | ds => .ok (ofDigits ds, cs.drop ds.length)

/-- A year.  It has to fit into 32 bits. -/
def splitYear (cs : List Char) : Except DateError (Int × List Char) :=
  let number : Except DateError (Int × List Char) :=
    match trimStart cs with
    | '-' :: rest => (splitNumber rest.length rest).map fun (n, tail) => (-(n : Int), tail)
    | '+' :: rest => (splitNumber rest.length rest).map fun (n, tail) => ((n : Int), tail)
    | rest => (splitNumber 4 rest).map fun (n, tail) => ((n : Int), tail)
  number.bind fun (year, tail) =>
    if -2147483648 ≤ year ∧ year ≤ 2147483647 then .ok (year, tail) else .error .outOfRange

/-- A number of one or two digits from one to `last`. -/
def splitSmall (last : Nat) (cs : List Char) : Except DateError (Nat × List Char) :=
  (splitNumber 2 (trimStart cs)).bind fun (n, tail) =>
    if 1 ≤ n ∧ n ≤ last then .ok (n, tail) else .error .outOfRange

/-- The `-` between two numbers. -/
def dropDash : List Char → Except DateError (List Char)
  | [] => .error .premature
  | c :: cs => if c = '-' then .ok cs else .error .invalid

/-- The years that have dates. -/
def firstYear : Int := -262143

/-- The last of the years that have dates. -/
def lastYear : Int := 262142

/-- Read a date. -/
def read (cs : List Char) : Except DateError Date := do
  let (year, cs) ← splitYear cs
  let cs ← dropDash cs
  let (month, cs) ← splitSmall 12 cs
  let cs ← dropDash cs
  let (day, cs) ← splitSmall 31 cs
  if cs ≠ [] then throw .trailing
  if year < firstYear ∨ lastYear < year then throw .outOfRange
  match ofNumbers? year month day with
  | some d => return d
  | none => throw .outOfRange

/-- Read a date that may be wrong. -/
def read? (s : String) : Option Date := (read s.toList).toOption

example : (read? "2024-1-5").map text = some "2024-01-05" := by decide
example : (read? " 2024- 02-29").map text = some "2024-02-29" := by decide
example : (read "2024-13-xx".toList).map text = .error .outOfRange := by rfl
example : (read "2024-02-30x".toList).map text = .error .trailing := by rfl
example : (read "20240-1-1".toList).map text = .error .invalid := by rfl
example : (read? "-44-3-15").map text = some "-0044-03-15" := by decide

end Date

end MarketRules
