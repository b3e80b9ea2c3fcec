import Mathlib.Algebra.GroupWithZero.Nat
import MarketRules.Proofs.Backtest.Drawdown

/-!
# What the figures of a backtest mean

The check of a series bounds its prices one by one, and a gain divides two of them, so
a gain can be infinite, and so can the product of gains that the equity is.  Until that
happens every figure is what it should be: the figures are finite together, and they are
finite if the prices leave room for their product (`isFinite_equities_of_room`).  Behind
it only the signs are kept.
-/

namespace MarketRules

open Binary64 (UpTo stepsPerUnit steps Representable)

/-! ## The last equity -/

/-- If the last equity is finite, all are. -/
theorem isFinite_of_last {x : Binary64} {trades : List (Option Trade)}
    (last : ((equities x trades).getLast?.getD x).isFinite = true) :
    ∀ y ∈ x :: equities x trades, y.isFinite = true := by
  induction trades generalizing x with
  | nil => simpa [equities] using last
  | cons trade? trades ih =>
    rw [equities, List.getLast?_cons, Option.getD_some] at last
    rw [equities]
    have later := ih last
    exact List.forall_mem_cons.mpr
      ⟨isFinite_of_equityAfter (later _ List.mem_cons_self), later⟩

theorem getLast_mem_equities (x : Binary64) (trades : List (Option Trade)) :
    (equities x trades).getLast?.getD x ∈ x :: equities x trades :=
  List.mem_of_getLast? List.getLast?_cons

/-- The total return is no loss of more than everything, and finite with the equity. -/
theorem IsEquity.sub_one {x : Binary64} (equity : IsEquity x) :
    (x - 1).lt (.neg 1) = false ∧ ((x - 1).isFinite = true ↔ x.isFinite = true) := by
  rcases equity with rfl | unsigned
  · exact ⟨rfl, Iff.rfl⟩
  have gain : (x - 1).IsGain ∧ (x.isFinite = true → (x - 1).isFinite = true) := by
    cases unsigned with
    | infinite =>
      obtain ⟨m, e, canonical, one, -⟩ := Binary64.exists_one
      rw [one]
      exact ⟨.infinite, id⟩
    | finite m e canonical =>
      obtain ⟨gain, isFinite⟩ := Binary64.isGain_sub_one (Binary64.count?_finite canonical)
      exact ⟨gain, fun _ => isFinite⟩
  exact ⟨gain.1.lt_neg_one, fun isFinite => (Binary64.isFinite_of_add isFinite).1, gain.2⟩

/-! ## Room for the product -/

/-- A trade that multiplies the price by at most a power of two multiplies the equity by
at most that power. -/
theorem Trade.Priced.upTo_factor {t : Trade} (priced : t.Priced) {k : Nat} (small : k ≤ 53)
    (le : (t.exitPrice / t.entryPrice).le (.ofNat (2 ^ k)) = true) :
    UpTo (2 ^ k * stepsPerUnit) (1 + t.gain) := by
  obtain ⟨⟨a, first⟩, ⟨b, second, positive⟩, gain⟩ := priced
  have whole : 2 ^ k ≤ 2 ^ 53 := Nat.pow_le_pow_right (by decide) small
  have representable := Binary64.representable_whole whole
  obtain ⟨m, e, canonical, bound, same⟩ := Binary64.exists_ofCount_eq representable
  have power : Binary64.ofNat (2 ^ k) = .finite false m e canonical := bound
  rw [power] at le
  rw [gain]
  obtain ⟨c, counted⟩ | infinite := Binary64.div_cases first second positive
  · obtain ⟨n, pred⟩ : ∃ n, 2 ^ k = n + 1 := Nat.exists_eq_add_one.mpr (Nat.two_pow_pos k)
    have sum : 2 ^ k * stepsPerUnit = stepsPerUnit + n * stepsPerUnit := by
      rw [pred, Nat.succ_mul, Nat.add_comm]
    have count := (Binary64.le_iff_of_count counted (Binary64.count?_finite canonical)).mp le
    rw [same] at count
    rw [sum] at representable count ⊢
    exact Binary64.upTo_one_add_sub_one counted
      (Binary64.representable_whole (by omega)) representable count
  · rw [infinite] at le
    cases le

/-- If the powers of two that bound the gains have a product below the largest number, the
equity stays finite. -/
theorem isFinite_equities_of_room {room : Trade → Nat} {trades : List (Option Trade)}
    (bounds : ∀ trade? ∈ trades, ∀ t ∈ trade?, UpTo (2 ^ room t * stepsPerUnit) (1 + t.gain)) :
    ∀ {x : Binary64} {n : Nat}, UpTo (2 ^ n * stepsPerUnit) x →
      n + ((trades.filterMap id).map room).sum ≤ 1023 →
        ∀ y ∈ x :: equities x trades, y.isFinite = true := by
  induction trades with
  | nil =>
    intro x n upTo _
    simpa [equities] using upTo.isFinite
  | cons trade? trades ih =>
    intro x n upTo fits
    obtain ⟨here, there⟩ := List.forall_mem_cons.mp bounds
    rw [equities]
    refine List.forall_mem_cons.mpr ⟨upTo.isFinite, ?_⟩
    cases trade? with
    | none => exact ih there upTo fits
    | some t =>
      rw [List.filterMap_cons_some (f := id) rfl, List.map_cons, List.sum_cons] at fits
      refine ih there (n := n + room t) (upTo.mul (here t rfl) ?_ ?_) (by omega)
      · rw [Binary64.two_pow_mul_stepsPerUnit]
        exact Binary64.representable_two_pow (by omega)
      · refine Nat.le_of_eq ?_
        rw [Nat.pow_add, Nat.mul_mul_mul_comm, Nat.mul_assoc _ stepsPerUnit]

/-! ## The figures -/

/-- What the figures of a report are, whether or not they are finite. -/
structure Report.Meaningful (r : Report) : Prop where
  /-- A gain is a number, and no more can be lost than was paid. -/
  gain : ∀ t ∈ r.trades, t.gain.isNaN = false ∧ t.gain.lt (.neg 1) = false
  /-- The equity is never below zero. -/
  equity : ∀ x ∈ r.equityCurve, x.lt 0 = false
  /-- No more can be lost in all than the equity at the start. -/
  total : r.totalReturn.lt (.neg 1) = false
  /-- The drawdown is a fraction. -/
  drawdown : Binary64.le 0 r.maxDrawdown = true ∧ r.maxDrawdown.le 1 = true
  /-- The total is finite exactly if every gain and the equity after every bar are. -/
  finite : r.totalReturn.isFinite = true ↔
    (∀ t ∈ r.trades, t.gain.isFinite = true) ∧ ∀ x ∈ r.equityCurve, x.isFinite = true
  /-- The total is finite if every trade multiplies the price by at most a power of two
  and the product of these powers is a number of the format. -/
  room : ∀ room : Trade → Nat,
    (∀ t ∈ r.trades, room t ≤ 53 ∧
      (t.exitPrice / t.entryPrice).le (.ofNat (2 ^ room t)) = true) →
    (r.trades.map room).sum ≤ 1023 → r.totalReturn.isFinite = true

/-- The figures of every report have the meaning that they are read with, except that
they can leave the format. -/
theorem runBacktest_meaningful {bars : List Bar} {signals : Signals} {r : Report}
    (run : runBacktest bars signals = .ok r) : r.Meaningful := by
  obtain ⟨trades, last, rfl, priced⟩ := exists_ofWalk_of_runBacktest run
  have gains : ∀ trade? ∈ trades, ∀ t ∈ trade?, t.gain.IsGain :=
    fun trade? member t same => (priced trade? member t same).isGain
  have equity : ∀ x ∈ 1 :: equities 1 trades, IsEquity x :=
    List.forall_mem_cons.mpr
      ⟨.inr isPeak_one.unsigned, isEquity_of_mem_equities (.inr isPeak_one.unsigned) gains⟩
  have fraction := (drawdown_eq_zero_iff isPeak_one (Binary64.upTo_zero _)
    (List.forall_mem_cons.mp equity).2 (pairwise_isFinite_equities 1 trades)).1
  have member := getLast_mem_equities 1 trades
  have each : ∀ t ∈ trades.filterMap id, t.Priced := List.forall_mem_filterMap.mpr priced
  obtain ⟨notBelow, finite⟩ := (equity _ member).sub_one
  refine
    { gain := fun t listed => ⟨(each t listed).isGain.isNaN, (each t listed).isGain.lt_neg_one⟩
      equity := fun x listed => (equity x listed).lt_zero
      total := notBelow
      drawdown := ?_
      finite := finite.trans ⟨fun last => ?_, fun all => all.2 _ member⟩
      room := fun room bounds fits => finite.mpr ?_ }
  · obtain ⟨c, counted, le⟩ := fraction.exists_count?
    exact ⟨(Binary64.le_iff_of_count Binary64.count?_zero counted).mpr (Nat.zero_le c),
      (Binary64.le_iff_of_count counted Binary64.count?_one).mpr le⟩
  · have all := isFinite_of_last last
    exact ⟨List.forall_mem_filterMap.mpr
      (isFinite_gain_of_equities (List.forall_mem_cons.mp all).2), all⟩
  · have factors :
        ∀ trade? ∈ trades, ∀ t ∈ trade?, UpTo (2 ^ room t * stepsPerUnit) (1 + t.gain) := by
      refine List.forall_mem_filterMap.mp fun t listed => ?_
      exact (each t listed).upTo_factor (bounds t listed).1 (bounds t listed).2
    have start : UpTo (2 ^ 0 * stepsPerUnit) 1 := by
      rw [Nat.pow_zero, Nat.one_mul]
      exact Binary64.upTo_one
    exact isFinite_equities_of_room factors start (by rw [Nat.zero_add]; exact fits) _ member

/-- Two trades that do not double the price leave room. -/
theorem fiveDays_meaningful : ∃ r,
    runBacktest fiveDays ⟨[true, false, true, false, false], [false, true, false, true, false]⟩ =
      .ok r ∧ r.trades.length = 2 ∧ r.Meaningful ∧ r.totalReturn.isFinite = true := by
  have figures : (runBacktest fiveDays
      ⟨[true, false, true, false, false], [false, true, false, true, false]⟩).toOption.map
        (fun r => (r.trades.length, r.trades.all fun t =>
          (t.exitPrice / t.entryPrice).le (.ofNat (2 ^ 1)))) = some (2, true) := by
    decide +kernel
  cases run : runBacktest fiveDays
      ⟨[true, false, true, false, false], [false, true, false, true, false]⟩ with
  | error fault =>
    rw [run] at figures
    cases figures
  | ok r =>
    rw [run] at figures
    obtain ⟨count, doubled⟩ := Prod.mk.inj (Option.some.inj figures)
    have meaningful := runBacktest_meaningful run
    refine ⟨r, rfl, count, meaningful, meaningful.room (fun _ => 1) (fun t member => ?_) ?_⟩
    · exact ⟨by decide, List.all_eq_true.mp doubled t member⟩
    · rw [List.map_const', count]
      decide

/-- The check lets a series pass on which the gain of the second trade is infinite and the
equity and the total are a NaN in the end. -/
theorem sixDays_leave_the_format : ∃ r, Bar.checkSeries sixDays = .ok () ∧
    runBacktest sixDays byTurns = .ok r ∧ (r.trades.map Trade.gain)[1]? = some (.infinite false) ∧
      r.equityCurve[4]? = some (.infinite false) ∧ r.equityCurve[6]? = some .nan ∧
        r.totalReturn = .nan := by
  have figures : (runBacktest sixDays byTurns).toOption.map
      (fun r => ((r.trades.map Trade.gain)[1]?, r.equityCurve[4]?, r.equityCurve[6]?,
        r.totalReturn)) =
      some (some (.infinite false), some (.infinite false), some .nan, .nan) := by
    decide +kernel
  cases run : runBacktest sixDays byTurns with
  | error fault =>
    rw [run] at figures
    cases figures
  | ok r =>
    rw [run] at figures
    simp only [Except.toOption, Option.map_some, Option.some.injEq, Prod.mk.injEq] at figures
    exact ⟨r, checkSeries_of_runBacktest run, rfl, figures⟩

end MarketRules
