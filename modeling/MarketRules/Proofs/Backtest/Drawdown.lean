import MarketRules.Proofs.Backtest.Equity

/-!
# The largest decline

The drawdown is the largest decline from the highest equity so far, as a fraction of
it.  On each day the fraction is a number from zero to one, or a NaN that `max` passes
over, and it is zero or a NaN exactly if the equity is not below its peak
(`decline_cases`).  A NaN never hides a decline: it needs an equity that has left the
format, and nothing finite comes behind one.  So the drawdown is zero exactly if the
equity never falls (`drawdown_eq_zero_iff`).
-/

namespace MarketRules

open Binary64 (UpTo stepsPerUnit steps)

/-! ## The peak -/

/-- The highest equity so far: a number that is at least one. -/
structure IsPeak (peak : Binary64) : Prop where
  unsigned : peak.Unsigned
  one_le : Binary64.le 1 peak = true

theorem isPeak_one : IsPeak 1 := by
  obtain ⟨m, e, canonical, one, -⟩ := Binary64.exists_one
  rw [one]
  exact ⟨.finite m e canonical, by rw [one]; exact Binary64.le_refl rfl⟩

/-- A peak stays a peak, or is replaced by an equity above it. -/
theorem IsPeak.max {peak x : Binary64} (isPeak : IsPeak peak) (equity : IsEquity x) :
    IsPeak (peak.max x) := by
  have above := Binary64.le_max_left (y := x) isPeak.unsigned.isNaN
  refine ⟨?_, Binary64.le_trans isPeak.one_le above⟩
  rcases equity with rfl | unsigned
  · rw [Binary64.max_eq_left_of_isNaN isPeak.unsigned.isNaN rfl]
    exact isPeak.unsigned
  · rcases Binary64.max_eq_or peak x with same | same
    · rw [same]
      exact isPeak.unsigned
    · rw [same]
      exact unsigned

/-! ## The decline of one day -/

/-- The decline from the peak, as a fraction of it. -/
def decline (peak x : Binary64) : Binary64 := (peak.max x - x) / peak.max x

/-- The decline is a fraction that is zero exactly if the equity is not below the peak.
It is a NaN only if the equity is not below the peak either. -/
theorem decline_cases {peak x : Binary64} (isPeak : IsPeak peak) (equity : IsEquity x)
    (lasting : x.isFinite = true → peak.isFinite = true) :
    (decline peak x).isNaN = true ∧ x.lt peak = false ∨
      UpTo stepsPerUnit (decline peak x) ∧ (decline peak x = 0 ↔ x.lt peak = false) := by
  obtain ⟨unsigned, atLeast⟩ := isPeak
  rw [decline]
  rcases equity with rfl | number
  · left
    rw [Binary64.max_eq_left_of_isNaN unsigned.isNaN rfl]
    cases unsigned <;> exact ⟨rfl, rfl⟩
  cases number with
  | infinite =>
    left
    cases unsigned <;> exact ⟨rfl, rfl⟩
  | finite m' e' canonical' =>
    right
    cases unsigned with
    | infinite => cases lasting rfl
    | finite m e canonical =>
      obtain ⟨m₁, e₁, canonical₁, one, unit⟩ := Binary64.exists_one
      have positive : 0 < steps m e := by
        rw [one, Binary64.le_finite, unit, decide_eq_true_eq] at atLeast
        exact Nat.lt_of_lt_of_le Binary64.stepsPerUnit_pos atLeast
      rw [Binary64.lt_finite, decide_eq_false_iff_not, Nat.not_lt, Binary64.max]
      simp only [Binary64.isNaN, Bool.false_eq_true, if_false, Binary64.lt_finite,
        decide_eq_true_eq]
      split
      · next above =>
        have nonzero : m' ≠ 0 := mt (Binary64.steps_eq_zero_iff (e := e')).mpr (by omega)
        refine ⟨Binary64.upTo_relative canonical' canonical' nonzero (Nat.le_refl _), ?_⟩
        rw [Binary64.relative_eq_zero_iff canonical' canonical' nonzero (Nat.le_refl _)]
        omega
      · next notAbove =>
        have le : steps m' e' ≤ steps m e := Nat.not_lt.mp notAbove
        have nonzero : m ≠ 0 := mt Binary64.steps_eq_zero_iff.mpr (Nat.ne_of_gt positive)
        refine ⟨Binary64.upTo_relative canonical canonical' nonzero le, ?_⟩
        rw [Binary64.relative_eq_zero_iff canonical canonical' nonzero le]
        omega

/-- The worst decline with that of one more day. -/
theorem max_decline {peak worst x : Binary64} (isPeak : IsPeak peak) (equity : IsEquity x)
    (lasting : x.isFinite = true → peak.isFinite = true) (upTo : UpTo stepsPerUnit worst) :
    UpTo stepsPerUnit (worst.max (decline peak x)) ∧
      (worst.max (decline peak x) = 0 ↔ worst = 0 ∧ x.lt peak = false) := by
  rcases decline_cases isPeak equity lasting with ⟨isNaN, notBelow⟩ | ⟨fraction, zero⟩
  · rw [Binary64.max_eq_left_of_isNaN upTo.unsigned.isNaN isNaN]
    exact ⟨upTo, by simp [notBelow]⟩
  · rw [← zero]
    exact upTo.max fraction

/-! ## The decline over a run -/

/-- No number of the list is below one in front of it. -/
def NeverFalls (curve : List Binary64) : Prop :=
  curve.Pairwise fun earlier later => later.lt earlier = false

/-- Behind a day the old peak and the equity can be told by the new peak alone. -/
theorem neverFalls_max_iff {peak x : Binary64} (isPeak : IsPeak peak) (curve : List Binary64) :
    x.lt peak = false ∧ NeverFalls (peak.max x :: curve) ↔ NeverFalls (peak :: x :: curve) := by
  unfold NeverFalls
  simp only [List.pairwise_cons, List.forall_mem_cons]
  constructor
  · rintro ⟨notBelow, above, rises⟩
    refine ⟨⟨notBelow, fun y member => ?_⟩, fun y member => ?_, rises⟩
    · rw [← Bool.not_eq_true]
      intro less
      have below := Binary64.lt_of_lt_of_le less
        (Binary64.le_max_left (y := x) isPeak.unsigned.isNaN)
      rw [above y member] at below
      cases below
    · rw [← Bool.not_eq_true]
      intro less
      have below := Binary64.lt_of_lt_of_le less
        (Binary64.le_max_right (x := peak) (Binary64.isNaN_eq_false_of_lt less).2)
      rw [above y member] at below
      cases below
  · rintro ⟨⟨notBelow, abovePeak⟩, above, rises⟩
    refine ⟨notBelow, fun y member => ?_, rises⟩
    rcases Binary64.max_eq_or peak x with same | same
    · rw [same]
      exact abovePeak y member
    · rw [same]
      exact above y member

/-- The drawdown is a fraction, and zero exactly if it was zero and nothing falls.  The
induction is on the days, with the peak and the worst decline up to each. -/
theorem drawdown_eq_zero_iff {curve : List Binary64} {peak worst : Binary64}
    (isPeak : IsPeak peak) (upTo : UpTo stepsPerUnit worst) (equity : ∀ x ∈ curve, IsEquity x)
    (lasting : (peak :: curve).Pairwise fun earlier later =>
      later.isFinite = true → earlier.isFinite = true) :
    UpTo stepsPerUnit (drawdown peak worst curve) ∧
      (drawdown peak worst curve = 0 ↔ worst = 0 ∧ NeverFalls (peak :: curve)) := by
  induction curve generalizing peak worst with
  | nil => exact ⟨upTo, by simp [drawdown, NeverFalls]⟩
  | cons x curve ih =>
    obtain ⟨here, there⟩ := List.forall_mem_cons.mp equity
    obtain ⟨behindPeak, behind⟩ := List.pairwise_cons.mp lasting
    obtain ⟨fraction, zero⟩ := max_decline isPeak here (behindPeak x List.mem_cons_self) upTo
    have lasting' : (peak.max x :: curve).Pairwise fun earlier later =>
        later.isFinite = true → earlier.isFinite = true := by
      rcases Binary64.max_eq_or peak x with same | same
      · rw [same]
        exact lasting.sublist (.cons_cons peak (List.sublist_cons_self x curve))
      · rw [same]
        exact behind
    obtain ⟨upTo', zero'⟩ := ih (isPeak.max here) fraction there lasting'
    refine ⟨upTo', ?_⟩
    show drawdown (peak.max x) (worst.max (decline peak x)) curve = 0 ↔ _
    rw [zero', zero, and_assoc, neverFalls_max_iff isPeak]

/-- The drawdown of a report is a number, it is not negative, and it is zero exactly if
the equity never falls. -/
theorem runBacktest_maxDrawdown {bars : List Bar} {signals : Signals} {r : Report}
    (run : runBacktest bars signals = .ok r) :
    r.maxDrawdown.isNaN = false ∧ r.maxDrawdown.lt 0 = false ∧
      (r.maxDrawdown.sameValue 0 = true ↔
        r.equityCurve.Pairwise fun earlier later => later.lt earlier = false) := by
  obtain ⟨trades, last, rfl, priced⟩ := exists_ofWalk_of_runBacktest run
  have gains : ∀ trade? ∈ trades, ∀ t ∈ trade?, t.gain.IsGain :=
    fun trade? member t same => (priced trade? member t same).isGain
  obtain ⟨fraction, zero⟩ := drawdown_eq_zero_iff isPeak_one (Binary64.upTo_zero _)
    (isEquity_of_mem_equities (.inr isPeak_one.unsigned) gains)
    (pairwise_isFinite_equities 1 trades)
  refine ⟨fraction.unsigned.isNaN, fraction.unsigned.lt_zero, ?_⟩
  show (drawdown 1 0 (equities 1 trades)).sameValue 0 = true ↔ NeverFalls (1 :: equities 1 trades)
  rw [fraction.sameValue_zero_iff, zero]
  simp

/-- Prices that are halved, rise from the least number to a large one, and fall to zero. -/
def sixDays : List Bar :=
  [ ⟨⟨2024, 3, 1, by decide⟩, 10, 10, 10, 10, 100⟩, ⟨⟨2024, 3, 2, by decide⟩, 5, 5, 5, 5, 100⟩,
    ⟨⟨2024, 3, 3, by decide⟩, least, least, least, least, 100⟩,
    ⟨⟨2024, 3, 4, by decide⟩, large, large, large, large, 100⟩,
    ⟨⟨2024, 3, 5, by decide⟩, 1, 1, 1, 1, 100⟩, ⟨⟨2024, 3, 6, by decide⟩, 0, 0, 0, 0, 100⟩ ]
where
  least := Binary64.ofDecimal false 5 (-324)
  large := Binary64.ofDecimal false 1 308

/-- Buy on every other day and sell on the days between. -/
def byTurns : Signals :=
  ⟨[true, false, true, false, true, false], [false, true, false, true, false, true]⟩

/-- The equity is halved on the second day.  Then it is infinite and a NaN, and neither
hides the decline. -/
theorem sixDays_maxDrawdown : ∃ r, runBacktest sixDays byTurns = .ok r ∧
    r.equityCurve.getLast? = some .nan ∧ r.maxDrawdown.isNaN = false ∧
      r.maxDrawdown.lt 0 = false ∧ r.maxDrawdown.sameValue 0 = false ∧
        (r.maxDrawdown.sameValue 0 = true ↔
          r.equityCurve.Pairwise fun earlier later => later.lt earlier = false) := by
  have figures : (runBacktest sixDays byTurns).toOption.map
      (fun r => (r.equityCurve.getLast?, r.maxDrawdown.sameValue 0)) = some (some .nan, false) := by
    decide +kernel
  cases run : runBacktest sixDays byTurns with
  | error fault =>
    rw [run] at figures
    cases figures
  | ok r =>
    rw [run] at figures
    obtain ⟨isNumber, notBelow, zero⟩ := runBacktest_maxDrawdown run
    obtain ⟨last, positive⟩ := Prod.mk.inj (Option.some.inj figures)
    exact ⟨r, rfl, last, isNumber, notBelow, positive, zero⟩

end MarketRules
