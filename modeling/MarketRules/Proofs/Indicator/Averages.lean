import MarketRules.Proofs.Indicator.WindowSums
import MarketRules.Proofs.Market.ValidSeries

/-!
# Averages of a series

A moving average at a bar is meant to be the mean of the last `period` numbers.  It is if
the sums of the windows are exact, which they are for whole numbers whose windows stay
small (`average_of_whole_numbers`).  Then two series with the same window have the same
average (`average_of_equal_windows`).  Without exact sums they need not have: what an
addition loses because a larger number is still in the sum is not given back when that
number leaves (`averages_of_equal_windows_apart`).
-/

namespace MarketRules

/-! ## The points of a series -/

namespace IndicatorCall

open MovingAverage (window lookedUpSums? windowSums ExactWindows)

/-- There is a point for every bar. -/
theorem date_points (c : IndicatorCall) (bars : List Bar) :
    (c.series bars).points.map (·.date) = bars.map (·.date) := by
  obtain ⟨kind, field, period⟩ := c
  cases kind
  let values := MovingAverage.averages period (bars.map (·.value field))
  have length : bars.length ≤ values.length := by
    simp [values, MovingAverage.averages, MovingAverage.length_windowSums]
  calc
    _ = List.zipWith (fun b _ => b.date) bars values := by
      rw [series, List.map_zipWith]
      rfl
    _ = (bars.zip values).map (fun p => p.1.date) := by
      rw [List.map_zip_eq_zipWith]
      rfl
    _ = ((bars.zip values).map Prod.fst).map (·.date) := List.map_map.symm
    _ = bars.map (·.date) := by rw [List.map_fst_zip length]

/-- The value of a point is the value at its bar. -/
theorem exists_valueAt?_eq {s : IndicatorSeries} {point : IndicatorPoint}
    (member : point ∈ s.points) : ∃ index, s.valueAt? index = point.value? := by
  obtain ⟨index, there⟩ := List.mem_iff_getElem?.mp member
  refine ⟨index, ?_⟩
  rw [IndicatorSeries.valueAt?, there]
  rfl

/-- Behind the last bar there is no value. -/
theorem valueAt?_eq_none_of_length_le (c : IndicatorCall) {bars : List Bar} {index : Nat}
    (outside : bars.length ≤ index) : (c.series bars).valueAt? index = none := by
  have length : (c.series bars).points.length = bars.length := by
    simpa using congrArg List.length (c.date_points bars)
  rw [IndicatorSeries.valueAt?, List.getElem?_eq_none (by omega)]
  rfl

/-- Behind the last bar there is no value. -/
theorem isSome_valueAt?_iff_and (c : IndicatorCall) (positive : 0 < c.period) (bars : List Bar)
    (index : Nat) : ((c.series bars).valueAt? index).isSome = true ↔
      c.period ≤ index + 1 ∧ index + 1 ≤ bars.length := by
  rcases Nat.lt_or_ge index bars.length with inside | outside
  · rw [c.isSome_valueAt?_iff positive bars inside]
    exact (and_iff_left inside).symm
  · rw [c.valueAt?_eq_none_of_length_le outside]
    exact ⟨nofun, fun both => absurd both.2 (Nat.not_le.mpr (Nat.lt_succ_of_le outside))⟩

section

variable {field : PriceField} {period : Nat} {bars : List Bar} {index : Nat}

theorem valueAt?_eq_average? {sum : Option Binary64}
    (found : (MovingAverage.averages period (bars.map (·.value field)))[index]? = some sum)
    (inside : index < bars.length) :
    ((⟨.movingAverage, field, period⟩ : IndicatorCall).series bars).valueAt? index = sum := by
  simp [IndicatorSeries.valueAt?, series, valuesOn, List.getElem?_zipWith, found, inside]

/-- An average over no bar is defined nowhere. -/
theorem valueAt?_of_no_period :
    ((⟨.movingAverage, field, 0⟩ : IndicatorCall).series bars).valueAt? index = none := by
  rcases Nat.lt_or_ge index bars.length with inside | outside
  · have column : index < (bars.map (·.value field)).length := by rwa [List.length_map]
    obtain ⟨sum, found⟩ := MovingAverage.getElem?_averages 0 _ column
    rw [valueAt?_eq_average? found inside]
    exact if_neg fun both => Nat.lt_irrefl 0 both.1
  · exact valueAt?_eq_none_of_length_le _ outside

/-- Without rounding the value is the sum of the window, divided by the period. -/
theorem valueAt?_movingAverage {counts : List Nat}
    (counted : (bars.map (·.value field)).map Binary64.count? = counts.map some)
    (exact : ExactWindows period counts) (inside : index < bars.length) :
    ((⟨.movingAverage, field, period⟩ : IndicatorCall).series bars).valueAt? index =
      MovingAverage.average? period (.ofCount (window period (index + 1) counts).sum) index := by
  have column : index < (bars.map (·.value field)).length := by rwa [List.length_map]
  exact valueAt?_eq_average? (MovingAverage.getElem?_averages_of_exact counted exact column) inside

end

/-! ## Equal windows -/

/-- The counts of a column of valid numbers. -/
def counts (field : PriceField) (bars : List Bar) : List Nat :=
  bars.map fun b => (b.value field).count?.getD 0

/-- Every price of a series that passes the check is a number of steps. -/
theorem map_count?_of_valid {bars : List Bar} (valid : Bar.checkSeries bars = .ok ())
    (field : PriceField) :
    (bars.map (·.value field)).map Binary64.count? = (counts field bars).map some := by
  obtain ⟨-, numbers, -⟩ := (Bar.checkSeries_eq_ok_iff bars).mp valid
  rw [counts, List.map_map, List.map_map]
  refine List.map_congr_left fun b member => ?_
  obtain ⟨a, counted⟩ :=
    Binary64.exists_count?_of_validNumber (Bar.validNumber_value (numbers b member) field)
  simp [counted]

/-- The counts of a window are those of its prices. -/
theorem window_counts (field : PriceField) (width seen : Nat) (bars : List Bar) :
    window width seen (counts field bars) =
      (window width seen (bars.map (·.value field))).map fun x => x.count?.getD 0 := by
  rw [MovingAverage.map_window, List.map_map]
  rfl

/-- As long as the sums of the windows of both series are exact, the average depends on
the window alone. -/
theorem average_of_equal_windows (field : PriceField) {period : Nat} (positive : 0 < period)
    {bars bars' : List Bar} (valid : Bar.checkSeries bars = .ok ())
    (valid' : Bar.checkSeries bars' = .ok ()) (exact : ExactWindows period (counts field bars))
    (exact' : ExactWindows period (counts field bars')) {index index' : Nat}
    (seen : period ≤ index + 1) (seen' : period ≤ index' + 1) (inside : index < bars.length)
    (inside' : index' < bars'.length)
    (same : window period (index + 1) (bars.map (·.value field)) =
      window period (index' + 1) (bars'.map (·.value field))) :
    ((⟨.movingAverage, field, period⟩ : IndicatorCall).series bars).valueAt? index =
      ((⟨.movingAverage, field, period⟩ : IndicatorCall).series bars').valueAt? index' := by
  have sameCounts : window period (index + 1) (counts field bars) =
      window period (index' + 1) (counts field bars') := by
    rw [window_counts, window_counts, same]
  have defined {index : Nat} (seen : period ≤ index + 1) (sum : Binary64) :
      MovingAverage.average? period sum index = some (sum / .ofNat period) :=
    if_pos ⟨positive, seen⟩
  rw [valueAt?_movingAverage (map_count?_of_valid valid field) exact inside,
    valueAt?_movingAverage (map_count?_of_valid valid' field) exact' inside', defined seen,
    defined seen', sameCounts]

/-- Bars with these numbers as prices and volumes, one on each day. -/
def daily (date : Date) : List Binary64 → List Bar
  | [] => []
  | x :: xs => ⟨date, x, x, x, x, x⟩ :: daily date.next xs
termination_by structural xs => xs

/-- The mean of two whole numbers with an odd sum, in two series with the same window. -/
theorem average_of_seven_two_four :
    let bars := daily default [7, 2, 4]
    let bars' := daily default [2, 4]
    Bar.checkSeries bars = .ok () ∧ Bar.checkSeries bars' = .ok () ∧
      ((⟨.movingAverage, .closing, 2⟩ : IndicatorCall).series bars).valueAt? 2 =
        ((⟨.movingAverage, .closing, 2⟩ : IndicatorCall).series bars').valueAt? 1 := by
  intro bars bars'
  have valid : Bar.checkSeries bars = .ok () := by decide +kernel
  have valid' : Bar.checkSeries bars' = .ok () := by decide +kernel
  have exact : ExactWindows 2 (counts .closing bars) := by
    have counted : counts .closing bars = [7, 2, 4].map (· * Binary64.stepsPerUnit) := by
      decide +kernel
    rw [counted]
    exact MovingAverage.exactWindows_of_whole (by decide)
  have exact' : ExactWindows 2 (counts .closing bars') := by
    have counted : counts .closing bars' = [2, 4].map (· * Binary64.stepsPerUnit) := by
      decide +kernel
    rw [counted]
    exact MovingAverage.exactWindows_of_whole (by decide)
  exact ⟨valid, valid', average_of_equal_windows .closing (by decide) valid valid' exact exact'
    (by decide) (by decide) (by decide) (by decide) (by decide +kernel)⟩

/-- A number that has left the window is still missed in the sum.  While it was there, the
one after it was lost. -/
theorem averages_of_equal_windows_apart :
    let bars := daily default [.ofNat (10 ^ 16), 1, 1]
    let bars' := daily default [1, 1]
    Bar.checkSeries bars = .ok () ∧ Bar.checkSeries bars' = .ok () ∧
      window 2 3 (bars.map (·.value .closing)) = window 2 2 (bars'.map (·.value .closing)) ∧
      ((⟨.movingAverage, .closing, 2⟩ : IndicatorCall).series bars).valueAt? 2 = some 0 ∧
      ((⟨.movingAverage, .closing, 2⟩ : IndicatorCall).series bars').valueAt? 1 = some 1 := by
  decide +kernel

/-! ## Whole numbers -/

/-- The moving average of whole numbers is the exact sum of the last `period` of them,
divided by the period with one rounding, as long as no `period + 1` neighbours add up to
more than `2^53`.  The number that is subtracted is always in the series. -/
theorem average_of_whole_numbers (field : PriceField) (period : Nat) (bars : List Bar)
    (ks : List Nat)
    (whole : (bars.map (·.value field)).map Binary64.whole? = ks.map fun k : Nat => some (k : Int))
    (small : ∀ seen ≤ ks.length, (window (period + 1) seen ks).sum ≤ 2 ^ 53) :
    let xs := bars.map (·.value field)
    let s := (⟨.movingAverage, field, period⟩ : IndicatorCall).series bars
    s.points.map (·.date) = bars.map (·.date) ∧
      lookedUpSums? period xs 0 0 xs = some (windowSums period xs) ∧
      (period = 0 → ∀ point ∈ s.points, point.value? = none) ∧
      (0 < period → ∀ index, (s.valueAt? index).isSome = true ↔
        period ≤ index + 1 ∧ index + 1 ≤ bars.length) ∧
      ∀ index, 0 < period → period ≤ index + 1 → index + 1 ≤ bars.length →
        s.valueAt? index =
            some (.ofNat (window period (index + 1) ks).sum / .ofNat period) ∧
          (period ≤ 2 ^ 53 → s.valueAt? index =
            some (.ofRatio false (window period (index + 1) ks).sum period)) := by
  intro xs s
  have exact := MovingAverage.exactWindows_of_whole small
  have counted := MovingAverage.map_count?_of_whole whole
  have length : ks.length = bars.length := by simpa using (congrArg List.length whole).symm
  refine ⟨date_points _ bars, MovingAverage.lookedUpSums?_eq_some period xs, ?noPeriod,
    fun positive => isSome_valueAt?_iff_and ⟨.movingAverage, field, period⟩ positive bars, ?value⟩
  case noPeriod =>
    rintro rfl point member
    obtain ⟨index, value⟩ := exists_valueAt?_eq member
    exact value.symm.trans valueAt?_of_no_period
  case value =>
    intro index positive seen inside
    have value : s.valueAt? index =
        some (.ofNat (window period (index + 1) ks).sum / .ofNat period) := by
      rw [valueAt?_movingAverage counted exact inside, MovingAverage.sum_window_mul]
      exact if_pos ⟨positive, seen⟩
    have sum : (window period (index + 1) ks).sum ≤ 2 ^ 53 :=
      Nat.le_trans (MovingAverage.sum_window_le ..) (small (index + 1) (by omega))
    exact ⟨value, fun shown => value.trans (congrArg some
      (Binary64.ofNat_div_ofNat positive sum shown))⟩

/-- Sums of two numbers up to the limit are exact, and a negative zero counts as zero. -/
theorem average_of_near_limit :
    let bars := daily default [.ofNat (2 ^ 53 - 8), 5, 3, .signedZero true]
    let s := (⟨.movingAverage, .closing, 2⟩ : IndicatorCall).series bars
    (bars.map (·.value .closing)).map Binary64.whole? =
        [2 ^ 53 - 8, 5, 3, 0].map (fun k : Nat => some (k : Int)) ∧
      s.valueAt? 0 = none ∧ s.valueAt? 1 = some (.ofRatio false (2 ^ 53 - 3) 2) ∧
      s.valueAt? 3 = some (.ofRatio false 3 2) := by
  intro bars s
  have whole : (bars.map (·.value .closing)).map Binary64.whole? =
      [2 ^ 53 - 8, 5, 3, 0].map (fun k : Nat => some (k : Int)) := by decide +kernel
  obtain ⟨-, -, -, defined, values⟩ :=
    average_of_whole_numbers .closing 2 bars [2 ^ 53 - 8, 5, 3, 0] whole (by decide)
  refine ⟨whole, ?_, (values 1 (by decide) (by decide) (by decide)).2 (by decide),
    (values 3 (by decide) (by decide) (by decide)).2 (by decide)⟩
  have undefined : ¬ (s.valueAt? 0).isSome = true := fun isSome =>
    absurd ((defined (by decide) 0).mp isSome).1 (by decide)
  exact Option.not_isSome_iff_eq_none.mp undefined

end IndicatorCall

end MarketRules
