import MarketRules.Indicator.MovingAverage
import MarketRules.Rule.Basic

/-!
# Indicator series

An indicator call computed over all bars of a series, and the table of the calls
that were computed.
-/

namespace MarketRules

/-- An indicator at one bar. -/
structure IndicatorPoint where
  /-- The day of the bar. -/
  date : Date
  /-- The value, if the indicator has seen enough bars. -/
  value? : Option Binary64
deriving DecidableEq

/-- An indicator call with its points, one for every bar. -/
structure IndicatorSeries where
  call : IndicatorCall
  points : List IndicatorPoint

namespace IndicatorSeries

/-- The value at the bar `index`.  There is none behind the last bar. -/
def valueAt? (s : IndicatorSeries) (index : Nat) : Option Binary64 :=
  s.points[index]?.bind IndicatorPoint.value?

end IndicatorSeries

/-- The values of an indicator on a column of numbers. -/
def IndicatorCall.valuesOn (c : IndicatorCall) (xs : List Binary64) : List (Option Binary64) :=
  match c.kind with
  | .movingAverage => MovingAverage.averages c.period xs

/-- The points of an indicator on a series. -/
def IndicatorCall.series (c : IndicatorCall) (bars : List Bar) : IndicatorSeries where
  call := c
  points := List.zipWith (fun b value? => ⟨b.date, value?⟩) bars
    (c.valuesOn (bars.map (·.value c.field)))

/-- The indicator series that were computed, each once. -/
abbrev IndicatorTable := List IndicatorSeries

namespace IndicatorTable

/-- Compute every different call once. -/
def ofCalls (calls : List IndicatorCall) (bars : List Bar) : IndicatorTable :=
  calls.eraseDups.map (·.series bars)

/-- The value of a call at the bar `index`.  A call that was not computed has
none. -/
def valueAt? (t : IndicatorTable) (call : IndicatorCall) (index : Nat) : Option Binary64 :=
  (t.find? (·.call = call)).bind (·.valueAt? index)

/-- The value of an operand at the bar `index`. -/
def operandAt? (t : IndicatorTable) (bars : List Bar) (index : Nat) : Operand → Option Binary64
  | .value x => some x
  | .field f => bars[index]?.map (·.value f)
  | .indicator call => t.valueAt? call index

end IndicatorTable

end MarketRules
