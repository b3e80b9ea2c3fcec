import MarketRules.Market.Bar

/-!
# Moving averages

The moving average of the last `period` numbers, kept as a running sum: every
number is added when it comes and subtracted when it leaves the window.  Before
`period` numbers have been seen there is no average.
-/

namespace MarketRules.MovingAverage

/-- The number that leaves the window at each bar, if one does. -/
def leaving (period : Nat) (xs : List Binary64) : List (Option Binary64) :=
  List.replicate (min period xs.length) none ++ xs.map some

/-- The sums of the windows.  `sum` is the sum before the first number, and
`outs` lists what leaves the window at each bar. -/
def runningSums (sum : Binary64) : (xs : List Binary64) → (outs : List (Option Binary64)) →
    List Binary64
  | x :: xs, out :: outs =>
    let grown := sum + x
    let next := match out with
      | some y => grown - y
      | none => grown
    next :: runningSums next xs outs
  | _, _ => []
termination_by structural xs => xs

/-- The sum of the window that ends at each bar. -/
def windowSums (period : Nat) (xs : List Binary64) : List Binary64 :=
  runningSums 0 xs (leaving period xs)

/-- The average at the bar `index` whose window has the sum `sum`. -/
def average? (period : Nat) (sum : Binary64) (index : Nat) : Option Binary64 :=
  if 0 < period ∧ period ≤ index + 1 then some (sum / .ofNat period) else none

/-- The moving average at every bar. -/
def averages (period : Nat) (xs : List Binary64) : List (Option Binary64) :=
  (windowSums period xs).mapIdx fun index sum => average? period sum index

example : averages 2 [10, 11, 13] = [none, some (.ofRatio false 21 2), some 12] := by
  decide +kernel
example : averages 0 [10, 11] = [none, none] := by decide +kernel

end MarketRules.MovingAverage
