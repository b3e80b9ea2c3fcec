import Mathlib.Algebra.Order.BigOperators.Group.List
import MarketRules.Backtest.Stats
import MarketRules.Proofs.Backtest.Equity
import MarketRules.Proofs.Calendar.DayNumber

/-!
# Trade statistics and the order of the trades

Every trade is counted once, and the best and the worst gain are gains of trades that no
other passes.  The counts and the days are sums and the extremes are found in any order of
the trades, so these figures are those of the trades and not of the list
(`TradeStats.SameFigures`).  The mean gains are not among them: their sums are rounded term
by term.

The trades of a report are closed after they were opened, so each is held for a day at
least, and the mean is not rounded below one.
-/

namespace MarketRules

namespace TradeStats

/-! ## Counts -/

theorem isLoss_eq_false_of_isWin {gain : Binary64} (win : isWin gain = true) :
    isLoss gain = false := by
  obtain ⟨zero, number⟩ := Binary64.isNaN_eq_false_of_lt win
  rw [isLoss, Binary64.lt_eq_not_le number zero, Binary64.le_of_lt win]
  rfl

/-- Every trade is won, lost or neither. -/
theorem length_won_lost_even (gains : List Binary64) :
    (gains.filter isWin).length + (gains.filter isLoss).length +
      (gains.filter fun g => !isWin g && !isLoss g).length = gains.length := by
  have rest : (gains.filter fun g => !isWin g).filter isLoss = gains.filter isLoss := by
    rw [List.filter_filter]
    refine List.filter_congr fun g _ => ?_
    cases win : isWin g with
    | false => exact Bool.and_true _
    | true => rw [isLoss_eq_false_of_isWin win, Bool.false_and]
  have neither : (gains.filter fun g => !isWin g).filter (fun g => !isLoss g) =
      gains.filter fun g => !isWin g && !isLoss g := by
    rw [List.filter_filter]
    exact List.filter_congr fun g _ => Bool.and_comm _ _
  have won := List.length_eq_length_filter_add (l := gains) isWin
  have lost := List.length_eq_length_filter_add (l := gains.filter fun g => !isWin g) isLoss
  rw [rest, neither] at lost
  omega

/-! ## Extremes -/

/-- What a search through the gains ends with, zero if there are none.  The best gain is what
the search by `max` ends with, and the worst what that by `min` does. -/
def extreme (pick : Binary64 → Binary64 → Binary64) (least : Binary64) (trades : List Trade) :
    Binary64 :=
  if trades.map Trade.gain = [] then 0 else (trades.map Trade.gain).foldl pick least

/-- One of the gains is zero without a sign, and one is zero with a sign. -/
def HaveBothZeros (trades : List Trade) : Prop :=
  ∀ negative, ∃ t ∈ trades, t.gain = Binary64.signedZero negative

section

variable {pick : Binary64 → Binary64 → Binary64} {below : Binary64 → Binary64 → Bool}
  {least : Binary64} {trades trades' : List Trade}

theorem extreme_nil : extreme pick least [] = 0 := rfl

theorem extreme_of_ne_nil (nonempty : trades ≠ []) :
    extreme pick least trades = (trades.map Trade.gain).foldl pick least :=
  if_neg (mt List.map_eq_nil_iff.mp nonempty)

variable (picks : Binary64.Picks pick below least)
  (numbers : ∀ t ∈ trades, t.gain.isNaN = false)

include picks numbers

/-- The extreme gain is one of the gains, and every gain is on the same side of it. -/
theorem extreme_attained (nonempty : trades ≠ []) :
    (∃ t ∈ trades, t.gain = extreme pick least trades) ∧
      ∀ t ∈ trades, below t.gain (extreme pick least trades) = true := by
  rw [extreme_of_ne_nil nonempty]
  obtain ⟨attained, bounds⟩ := picks.foldl_extreme (List.forall_mem_map.mpr numbers)
    (mt List.map_eq_nil_iff.mp nonempty)
  exact ⟨List.mem_map.mp attained, List.forall_mem_map.mp bounds⟩

/-- The order of the trades does not matter to the value of the extreme. -/
theorem extreme_perm (perm : trades.Perm trades') :
    (extreme pick least trades).sameValue (extreme pick least trades') = true := by
  by_cases empty : trades = []
  · subst empty
    rw [← perm.nil_eq, extreme_nil]
    decide +kernel
  · have nonempty' : trades' ≠ [] := fun empty' => empty (empty' ▸ perm).eq_nil
    rw [extreme_of_ne_nil empty, extreme_of_ne_nil nonempty']
    exact picks.foldl_perm (List.forall_mem_map.mpr numbers) (mt List.map_eq_nil_iff.mp empty)
      (perm.map Trade.gain)

/-- Two gains that compare equal are the same number, unless they are the two zeros. -/
theorem extreme_eq_or_haveBothZeros (perm : trades.Perm trades') :
    extreme pick least trades = extreme pick least trades' ∨ HaveBothZeros trades := by
  by_cases empty : trades = []
  · subst empty
    rw [← perm.nil_eq]
    exact .inl rfl
  have nonempty' : trades' ≠ [] := fun empty' => empty (empty' ▸ perm).eq_nil
  obtain same | ⟨n, first, second⟩ :=
    Binary64.eq_or_zeros_of_sameValue (extreme_perm picks numbers perm)
  · exact .inl same
  · have here := (extreme_attained picks numbers empty).1
    obtain ⟨t, member, gain⟩ := (extreme_attained picks
      (fun t member => numbers t (perm.mem_iff.mpr member)) nonempty').1
    rw [first] at here
    refine .inr fun negative => ?_
    by_cases sign : negative = n
    · rwa [sign]
    · obtain rfl : negative = !n := Bool.eq_not.mpr sign
      exact ⟨t, perm.mem_iff.mpr member, gain.trans second⟩

end

/-! ## The figures in any order -/

/-- What the figures on a list of trades mean. -/
structure Describes (s : TradeStats) (trades : List Trade) : Prop where
  /-- Every trade is counted once. -/
  count : s.won + s.lost + s.even = trades.length
  /-- The best gain is a gain, and no other is larger. -/
  best : trades ≠ [] → (∃ t ∈ trades, t.gain = s.best) ∧ ∀ t ∈ trades, t.gain.le s.best = true
  /-- The worst gain is a gain, and no other is smaller. -/
  worst : trades ≠ [] →
    (∃ t ∈ trades, t.gain = s.worst) ∧ ∀ t ∈ trades, s.worst.le t.gain = true

/-- The figures that do not depend on the order of the trades.  The extremes compare equal. -/
structure SameFigures (s u : TradeStats) : Prop where
  won : s.won = u.won
  lost : s.lost = u.lost
  even : s.even = u.even
  winRate : s.winRate = u.winRate
  best : s.best.sameValue u.best = true
  worst : s.worst.sameValue u.worst = true
  averageDays : s.averageDays = u.averageDays

section

variable {trades trades' : List Trade} (numbers : ∀ t ∈ trades, t.gain.isNaN = false)

include numbers

/-- The figures of any list of trades are those that their definitions ask for. -/
theorem describes_ofTrades : (ofTrades trades).Describes trades where
  count := (length_won_lost_even _).trans (List.length_map _)
  best := extreme_attained Binary64.picks_max numbers
  worst := extreme_attained Binary64.picks_min numbers

/-- The figures do not depend on the order of the trades. -/
theorem sameFigures_ofTrades (perm : trades.Perm trades') :
    (ofTrades trades).SameFigures (ofTrades trades') := by
  have gains := perm.map Trade.gain
  have wins := (gains.filter isWin).length_eq
  have days := (perm.map Trade.days).sum_eq
  exact
    { won := wins
      lost := (gains.filter isLoss).length_eq
      even := (gains.filter _).length_eq
      winRate := by
        show mean (.ofNat _) _ = mean (.ofNat _) _
        rw [wins, gains.length_eq]
      best := extreme_perm Binary64.picks_max numbers perm
      worst := extreme_perm Binary64.picks_min numbers perm
      averageDays := by
        show mean (.ofInt (trades.map Trade.days).sum) _ =
          mean (.ofInt (trades'.map Trade.days).sum) _
        rw [days, gains.length_eq] }

/-- The extremes are the same numbers unless the list has both zeros. -/
theorem extremes_eq_or_haveBothZeros (perm : trades.Perm trades') :
    (ofTrades trades).best = (ofTrades trades').best ∧
      (ofTrades trades).worst = (ofTrades trades').worst ∨ HaveBothZeros trades := by
  rcases extreme_eq_or_haveBothZeros Binary64.picks_max numbers perm with best | zeros
  · exact (extreme_eq_or_haveBothZeros Binary64.picks_min numbers perm).imp_left (And.intro best)
  · exact .inr zeros

end

end TradeStats

/-! ## Days -/

/-- Every trade of a report is closed after it was opened. -/
theorem before_of_mem_trades {bars : List Bar} {signals : Signals} {r : Report}
    (run : runBacktest bars signals = .ok r) :
    ∀ t ∈ r.trades, t.entryDate.before t.exitDate = true := by
  obtain ⟨valid, exits, spans, last, trades, position, rfl, runs, follows⟩ :=
    exists_follows_of_runBacktest run
  show ∀ t ∈ trades.filterMap id, _
  rw [follows.trades_eq exits runs]
  exact (runs.trades_apart valid exits).1

/-- Trades of one day or more last one day or more on average, also after rounding. -/
theorem TradeStats.one_le_averageDays {trades : List Trade} (nonempty : trades ≠ [])
    (small : trades.length < 2 ^ 64) (held : ∀ t ∈ trades, 1 ≤ t.days) :
    Binary64.le 1 (ofTrades trades).averageDays = true := by
  have positive : 0 < trades.length := List.length_pos_iff.mpr nonempty
  have atLeast : (trades.length : Int) ≤ (trades.map Trade.days).sum := by
    simpa using List.card_nsmul_le_sum (trades.map Trade.days) 1 (List.forall_mem_map.mpr held)
  have days : (ofTrades trades).averageDays =
      .ofInt (trades.map Trade.days).sum / .ofNat trades.length := by
    show mean _ (trades.map Trade.gain).length = _
    rw [List.length_map, mean, if_neg (Nat.ne_of_gt positive)]
    rfl
  obtain ⟨k, sum⟩ := Int.eq_ofNat_of_zero_le (Int.le_trans (Int.natCast_nonneg _) atLeast)
  rw [sum] at atLeast days
  rw [days]
  exact Binary64.one_le_ofNat_div positive small (Int.ofNat_le.mp atLeast)

/-- The figures on a list of trades mean what they are read as, and in any order of the
trades they are the same.  In a report no mean holding time is below a day, for as many
trades as a list in memory can have. -/
theorem TradeStats.figures_in_any_order :
    (∀ trades : List Trade, (∀ t ∈ trades, t.gain.isNaN = false) →
      (ofTrades trades).Describes trades ∧
        ∀ trades', trades.Perm trades' →
          (ofTrades trades).SameFigures (ofTrades trades') ∧
            ((ofTrades trades).best = (ofTrades trades').best ∧
              (ofTrades trades).worst = (ofTrades trades').worst ∨ HaveBothZeros trades)) ∧
      ∀ bars signals r, runBacktest bars signals = .ok r → r.trades ≠ [] →
        r.trades.length < 2 ^ 64 → Binary64.le 1 (ofTrades r.trades).averageDays = true := by
  constructor
  · exact fun trades numbers => ⟨describes_ofTrades numbers, fun trades' perm =>
      ⟨sameFigures_ofTrades numbers perm, extremes_eq_or_haveBothZeros numbers perm⟩⟩
  · intro bars signals r run nonempty small
    exact one_le_averageDays nonempty small fun t member =>
      Date.one_le_daysUntil (before_of_mem_trades run t member)

/-- Two trades over five days and their figures in either order. -/
theorem TradeStats.fiveDays_figures_reversed : ∃ r,
    runBacktest fiveDays ⟨[true, false, true, false, false], [false, true, false, true, false]⟩ =
      .ok r ∧ r.trades.length = 2 ∧ (ofTrades r.trades).Describes r.trades ∧
        (ofTrades r.trades).SameFigures (ofTrades r.trades.reverse) ∧
          Binary64.le 1 (ofTrades r.trades).averageDays = true := by
  have figures : (runBacktest fiveDays
      ⟨[true, false, true, false, false], [false, true, false, true, false]⟩).toOption.map
        (fun r => (r.trades.length, r.trades.all fun t => !t.gain.isNaN)) = some (2, true) := by
    decide +kernel
  cases run : runBacktest fiveDays
      ⟨[true, false, true, false, false], [false, true, false, true, false]⟩ with
  | error fault =>
    rw [run] at figures
    cases figures
  | ok r =>
    rw [run] at figures
    obtain ⟨count, numbers⟩ := Prod.mk.inj (Option.some.inj figures)
    obtain ⟨describes, order⟩ := figures_in_any_order.1 r.trades fun t member =>
      Bool.not_eq_true' _ ▸ List.all_eq_true.mp numbers t member
    refine ⟨r, rfl, count, describes, (order _ r.trades.reverse_perm.symm).1, ?_⟩
    refine figures_in_any_order.2 _ _ r run (fun empty => ?_) (by rw [count]; decide)
    rw [empty] at count
    cases count

/-- Of two zeros the one that is found first is the best gain. -/
example :
    let even (gain : Binary64) : Trade := ⟨default, 1, default, 1, gain⟩
    (TradeStats.ofTrades [even 0, even (.signedZero true)]).best ≠
      (TradeStats.ofTrades [even (.signedZero true), even 0]).best := by decide +kernel

end MarketRules
