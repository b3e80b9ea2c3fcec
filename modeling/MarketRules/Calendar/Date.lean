import MarketRules.Number.Decimal

/-!
# Dates

A date of the Gregorian calendar, which is continued before its introduction and
has a year zero.  Dates are ordered by year, month and day, and `dayNumber`
counts the days between them.
-/

namespace MarketRules

/-! ## The calendar -/

/-- Does the year have a leap day? -/
def isLeapYear (year : Int) : Bool := year % 4 == 0 && (year % 100 != 0 || year % 400 == 0)

/-- The lengths of the months. -/
def monthLengths (leap : Bool) : List Nat :=
  [31, if leap then 29 else 28, 31, 30, 31, 30, 31, 31, 30, 31, 30, 31]

/-- The length of a month.  The months are numbered from one, and there are no
days in a month of another number. -/
def monthLength (year : Int) (month : Nat) : Nat :=
  if month = 0 then 0 else (monthLengths (isLeapYear year))[month - 1]?.getD 0

/-- A day of the calendar. -/
structure Date where
  year : Int
  /-- The month, from one to twelve. -/
  month : Nat
  /-- The day of the month, from one. -/
  day : Nat
  /-- The month has such a day. -/
  day_mem : 1 ≤ day ∧ day ≤ monthLength year month
deriving DecidableEq

namespace Date

/-- The date with these numbers, if there is one. -/
def ofNumbers? (year : Int) (month day : Nat) : Option Date :=
  if h : 1 ≤ day ∧ day ≤ monthLength year month then some ⟨year, month, day, h⟩ else none

instance : Inhabited Date := ⟨⟨1970, 1, 1, by decide⟩⟩

/-! ## Order and distance -/

/-- Is the first date before the second? -/
def before (d e : Date) : Bool :=
  d.year < e.year || (d.year == e.year && (d.month < e.month
    || (d.month == e.month && d.day < e.day)))

/-- The number of days of a year in front of a month. -/
def daysBeforeMonth (year : Int) (month : Nat) : Nat :=
  ((monthLengths (isLeapYear year)).take (month - 1)).foldr (· + ·) 0

/-- The number of days up to a date, counted from the last day of the year
zero. -/
def dayNumber (d : Date) : Int :=
  let past := d.year - 1
  365 * past + past / 4 - past / 100 + past / 400
    + daysBeforeMonth d.year d.month + d.day

/-- The number of days from the first date to the second. -/
def daysUntil (d e : Date) : Int := e.dayNumber - d.dayNumber

/-- The day after a date. -/
def next (d : Date) : Date :=
  ((ofNumbers? d.year d.month (d.day + 1)).orElse fun _ =>
    (ofNumbers? d.year (d.month + 1) 1)).getD
      ⟨d.year + 1, 1, 1, by simp [monthLength, monthLengths]⟩

/-! ## Text -/

/-- A year: four digits, with a sign if it lies outside the years 0 to 9999. -/
def yearChars (year : Int) : List Char :=
  if 0 ≤ year ∧ year ≤ 9999 then paddedDigits 4 year.natAbs
  else (if year < 0 then '-' else '+') :: paddedDigits 4 year.natAbs

/-- The characters of `text`. -/
def chars (d : Date) : List Char :=
  yearChars d.year ++ '-' :: paddedDigits 2 d.month ++ '-' :: paddedDigits 2 d.day

/-- A date as year, month and day. -/
def text (d : Date) : String := String.ofList d.chars

example : (ofNumbers? 2024 2 29).map text = some "2024-02-29" := by decide
example : ofNumbers? 2023 2 29 = none ∧ ofNumbers? 2023 13 1 = none := by decide
example : (ofNumbers? (-44) 3 15).map text = some "-0044-03-15" := by decide
example : (ofNumbers? 2024 2 28).map (fun d => d.next.next.text) = some "2024-03-01" := by decide
example : (ofNumbers? 2023 12 31).map (fun d => (d.next.text, d.daysUntil d.next)) =
    some ("2024-01-01", 1) := by decide

end Date

end MarketRules
