import MarketRules.Calendar.Date
import MarketRules.Number.Shortest
import MarketRules.Text.Casing

/-!
# Bars

A bar holds the prices and the volume of one trading day.  A series is a list of
bars.  It is valid if it has a bar, if every number in it is finite and not
negative, and if every date is after the one before it.
-/

namespace MarketRules

/-! ## Fields -/

/-- A column of the price table. -/
inductive PriceField where
  /-- The first price of the day. -/
  | opening
  /-- The highest price. -/
  | high
  /-- The lowest price. -/
  | low
  /-- The last price. -/
  | closing
  /-- The number of shares traded. -/
  | volume
deriving DecidableEq

namespace PriceField

/-- The fields in the order of the table. -/
def all : List PriceField := [.opening, .high, .low, .closing, .volume]

/-- The name of a field. -/
def name : PriceField → String
  | .opening => "OPEN"
  | .high => "HIGH"
  | .low => "LOW"
  | .closing => "CLOSE"
  | .volume => "VOLUME"

/-- The field with a name, in any ASCII letter case. -/
def ofName? (s : String) : Option PriceField := all.find? fun f => sameIgnoringAsciiCase s f.name

/-- The name of a field is read back. -/
theorem ofName?_name (f : PriceField) : ofName? f.name = some f := by
  cases f <;> decide

end PriceField

/-! ## Bars -/

/-- The prices and the volume of one day. -/
structure Bar where
  date : Date
  opening : Binary64
  high : Binary64
  low : Binary64
  closing : Binary64
  volume : Binary64
deriving DecidableEq

/-- The number in a column of a bar. -/
def Bar.value (b : Bar) : PriceField → Binary64
  | .opening => b.opening
  | .high => b.high
  | .low => b.low
  | .closing => b.closing
  | .volume => b.volume

/-! ## Series -/

/-- Why prices cannot be used. -/
inductive SeriesError where
  /-- There is no bar. -/
  | empty
  /-- A number of the bar at `index` is negative or not finite. -/
  | badValue (index : Nat) (date : Date) (field : PriceField) (value : Binary64)
  /-- The bar at `index` is not later than the one before it. -/
  | notAfter (index : Nat) (date previous : Date)
deriving DecidableEq

def SeriesError.message : SeriesError → String
  | .empty => "price series is empty"
  | .badValue i d f v =>
    s!"bar {decimal i} ({d.text}): {f.name} must be a non-negative number, got {v.plain}"
  | .notAfter i d p => s!"bar {decimal i} ({d.text}) is not after previous bar ({p.text})"

namespace Bar

/-- Can the number stand in a bar? -/
def validNumber (x : Binary64) : Bool := x.isFinite && !x.lt 0

/-- The first field of a bar with a number that cannot stand there. -/
def badField? (b : Bar) : Option PriceField :=
  PriceField.all.find? fun f => !validNumber (b.value f)

/-- Check the bars from number `index` on.  `previous` is the date before them. -/
def checkFrom (index : Nat) (previous : Option Date) : List Bar → Except SeriesError Unit
  | [] => .ok ()
  | b :: bs =>
    match b.badField? with
    | some f => .error (.badValue index b.date f (b.value f))
    | none =>
      match previous with
      | none => checkFrom (index + 1) (some b.date) bs
      | some p =>
        if p.before b.date then checkFrom (index + 1) (some b.date) bs
        else .error (.notAfter index b.date p)
termination_by structural bars => bars

/-- Check a series and give the first fault. -/
def checkSeries (bars : List Bar) : Except SeriesError Unit :=
  if bars = [] then .error .empty else checkFrom 0 none bars

end Bar

end MarketRules
