import MarketRules.Number.Shortest

/-!
# Fixed places

A number written with a fixed number of places behind the point.  The exact
value is rounded once, a half going to the even neighbour, and the sign stays
even if only zeros are left.
-/

namespace MarketRules.Binary64

/-- A whole number of units of `10^-places`, with the point put in. -/
def placePoint (places units : Nat) : List Char :=
  let ds := paddedDigits (places + 1) units
  ds.take (ds.length - places) ++ (if places = 0 then [] else '.' :: ds.drop (ds.length - places))

/-- A number with a fixed number of places. -/
def fixed (places : Nat) : Binary64 → String
  | .finite n m e _ =>
    let units := nearestEven (steps m e * Nat.pow 10 places) stepsPerUnit
    String.ofList (sign n ++ placePoint places units)
  | x => x.plain

example : (ofRatio false 1 8).fixed 2 = "0.12" ∧ (ofRatio false 3 8).fixed 2 = "0.38" := by
  decide +kernel
example : (ofRatio true 1 1000).fixed 2 = "-0.00" ∧ (ofNat 12).fixed 1 = "12.0" := by
  decide +kernel

end MarketRules.Binary64
