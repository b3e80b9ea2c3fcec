import MarketRules.Strategy.Signals

/-!
# Signals of the first bars

The signals at a bar depend on the bars up to there and on nothing behind them.
Each stage has its law: what is computed from the first bars is the first part of
what is computed from all of them.
-/

namespace MarketRules

/-! ## Moving averages -/

namespace MovingAverage

/-- What leaves the window is known at the bar where it leaves.  The numbers that leave come
behind the first `min period m` places. -/
theorem leaving_take (period : Nat) (xs : List Binary64) (m : Nat) :
    (leaving period (xs.take m)).take m = (leaving period xs).take m := by
  by_cases long : xs.length ≤ m
  · rw [List.take_of_length_le long]
  · have length : (xs.take m).length = m := by simp; omega
    simp only [leaving, length, List.take_append, List.length_replicate, List.take_replicate,
      ← List.map_take, List.take_take]
    by_cases short : period ≤ m
    · rw [Nat.min_eq_left short, Nat.min_eq_left (by omega : period ≤ xs.length),
        Nat.min_eq_left (Nat.sub_le m period)]
    · simp only [Nat.min_eq_right (Nat.le_of_not_le short), Nat.min_self, Nat.sub_self,
        Nat.zero_min, List.take_zero]
      rw [Nat.min_eq_left (by omega : m ≤ min period xs.length),
        Nat.sub_eq_zero_of_le (by omega : m ≤ min period xs.length), List.take_zero]

/-- A sum depends on nothing that comes later. -/
theorem runningSums_take (m : Nat) (sum : Binary64) (xs : List Binary64)
    (outs outs' : List (Option Binary64)) (same : outs'.take m = outs.take m) :
    runningSums sum (xs.take m) outs' = (runningSums sum xs outs).take m := by
  induction m generalizing sum xs outs outs' with
  | zero => simp [runningSums]
  | succ m ih =>
    cases xs with
    | nil => simp [runningSums]
    | cons x xs =>
      cases outs with
      | nil =>
        have none_left : outs' = [] := by simpa using same
        simp [runningSums, none_left]
      | cons out outs =>
        cases outs' with
        | nil => simp at same
        | cons out' outs' =>
          rw [List.take_succ_cons, List.take_succ_cons] at same
          obtain ⟨rfl, rest⟩ := List.cons.inj same
          simp only [List.take_succ_cons, runningSums]
          rw [ih _ xs outs outs' rest]

theorem windowSums_take (period : Nat) (xs : List Binary64) (m : Nat) :
    windowSums period (xs.take m) = (windowSums period xs).take m :=
  runningSums_take m 0 xs _ _ (leaving_take period xs m)

/-- The means of the first numbers are the first means. -/
theorem averages_take (period : Nat) (xs : List Binary64) (m : Nat) :
    averages period (xs.take m) = (averages period xs).take m := by
  rw [averages, averages, windowSums_take]
  apply List.ext_getElem?
  intro i
  simp only [List.getElem?_mapIdx, List.getElem?_take]
  split <;> rfl

end MovingAverage

/-! ## Indicator series -/

theorem IndicatorCall.valuesOn_take (c : IndicatorCall) (xs : List Binary64) (m : Nat) :
    c.valuesOn (xs.take m) = (c.valuesOn xs).take m := by
  obtain ⟨kind, field, period⟩ := c
  cases kind
  exact MovingAverage.averages_take period xs m

/-- The points of an indicator on the first bars are its first points. -/
theorem IndicatorCall.points_take (c : IndicatorCall) (bars : List Bar) (m : Nat) :
    (c.series (bars.take m)).points = (c.series bars).points.take m := by
  simp only [series, List.map_take, valuesOn_take, List.take_zipWith]

namespace IndicatorTable

/-- What a table that computed every different call once says of a call. -/
theorem valueAt?_ofCalls (calls : List IndicatorCall) (bars : List Bar) (call : IndicatorCall)
    (index : Nat) :
    (ofCalls calls bars).valueAt? call index =
      (calls.eraseDups.find? (· = call)).bind fun c => (c.series bars).valueAt? index := by
  rw [valueAt?, ofCalls, List.find?_map, Option.bind_map]
  rfl

/-- An operand has the same value by the first bars as by all. -/
theorem operandAt?_take (calls : List IndicatorCall) (bars : List Bar) {m index : Nat}
    (early : index < m) (x : Operand) :
    (ofCalls calls (bars.take m)).operandAt? (bars.take m) index x =
      (ofCalls calls bars).operandAt? bars index x := by
  cases x with
  | value x => rfl
  | field f => simp [operandAt?, early]
  | indicator call =>
    simp only [operandAt?, valueAt?_ofCalls, IndicatorSeries.valueAt?, IndicatorCall.points_take,
      List.getElem?_take, early, if_true]

end IndicatorTable

/-! ## Signals -/

/-- The signals on the first bars are the first signals. -/
theorem CheckedStrategy.signals_take (s : CheckedStrategy) (bars : List Bar) (m : Nat) :
    s.signals (bars.take m) = ⟨(s.signals bars).entry.take m, (s.signals bars).exit.take m⟩ := by
  have same (r : Rule) :
      (List.range (bars.take m).length).map
          (r.holdsAt (bars.take m) (.ofCalls s.indicators (bars.take m))) =
        ((List.range bars.length).map (r.holdsAt bars (.ofCalls s.indicators bars))).take m := by
    rw [← List.map_take, List.take_range, List.length_take]
    refine List.map_congr_left fun index hindex => ?_
    have early : index < m := by
      have := List.mem_range.mp hindex
      omega
    have operands := funext (IndicatorTable.operandAt?_take s.indicators bars early)
    rw [Rule.holdsAt, Rule.holdsAt, operands]
  simp only [signals, same]

/-- There is a signal of each kind for every bar. -/
theorem CheckedStrategy.length_signals (s : CheckedStrategy) (bars : List Bar) :
    (s.signals bars).entry.length = bars.length ∧ (s.signals bars).exit.length = bars.length := by
  simp [signals]

end MarketRules
