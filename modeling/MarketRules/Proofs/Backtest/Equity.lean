import MarketRules.Proofs.Backtest.NoLookAhead
import MarketRules.Proofs.Number.Unsigned

/-!
# The equity of a backtest

A trade of a backtest is bought at a price above zero and sold at a price that is not
below zero, so its gain is a number that is at least `-1`, and it multiplies the equity
by a number without a sign.  Hence the equity never has a sign (`isEquity_of_mem_equities`).
It can leave the format, by a gain that is infinite or by a product that is; then it is
infinite or a NaN to the end (`pairwise_isFinite_equities`).
-/

namespace MarketRules

open Binary64 (Unsigned IsGain UpTo)

/-! ## Trades -/

/-- A trade between two prices of a valid series. -/
structure Trade.Priced (t : Trade) : Prop where
  exit : ∃ a, t.exitPrice.count? = some a
  entry : ∃ b, t.entryPrice.count? = some b ∧ 0 < b
  gain : t.gain = t.exitPrice / t.entryPrice - 1

/-- Between prices that were checked a gain is a number, and no more than all is lost. -/
theorem Trade.Priced.isGain {t : Trade} (priced : t.Priced) : t.gain.IsGain := by
  obtain ⟨⟨a, first⟩, ⟨b, second, positive⟩, gain⟩ := priced
  rw [gain]
  obtain ⟨c, counted⟩ | infinite := Binary64.div_cases first second positive
  · exact (Binary64.isGain_sub_one counted).1
  · obtain ⟨m, e, canonical, one, -⟩ := Binary64.exists_one
    rw [infinite, one]
    exact .infinite

theorem Bar.exists_count?_closing {b : Bar} (valid : b.badField? = none) :
    ∃ a, b.closing.count? = some a :=
  Binary64.exists_count?_of_validNumber (validNumber_value valid .closing)

/-- A walk that follows the schedule trades between prices of the series. -/
theorem WalkFollows.priced {bars : List Bar} {signals : Signals} {spans : List (Nat × Nat)}
    {last : Option Nat} {trades : List (Option Trade)} {position : Option Position}
    (valid : Bar.checkSeries bars = .ok ()) (exits : signals.exit.length = bars.length)
    (runs : signals.Runs 0 none spans last)
    (follows : WalkFollows bars 0 spans last bars.length (.ok (trades, position))) :
    ∀ t ∈ trades.filterMap id, t.Priced := by
  obtain ⟨-, fields, -⟩ := (Bar.checkSeries_eq_ok_iff bars).mp valid
  rw [follows.trades_eq exits runs]
  intro t member
  obtain ⟨p, span, traded⟩ := List.mem_filterMap.mp member
  obtain ⟨b, c, first, second, made⟩ := runs.exists_trade exits span
  rw [made] at traded
  cases traded
  have worthy : ¬ Bar.Worthless bars p.1 :=
    follows.1 p.1 (List.mem_append_left _ (List.mem_map_of_mem span))
  obtain ⟨count, counted⟩ := Bar.exists_count?_closing (fields b (List.mem_of_getElem? first))
  have positive : 0 < count := by
    refine Nat.pos_of_ne_zero fun zero => worthy ⟨b, first, ?_⟩
    exact (Binary64.le_iff_of_count counted Binary64.count?_zero).mpr (Nat.le_of_eq zero)
  exact
    { exit := Bar.exists_count?_closing (fields c (List.mem_of_getElem? second))
      entry := ⟨count, counted, positive⟩
      gain := rfl }

/-- A report is the report on a walk that follows the schedule. -/
theorem exists_follows_of_runBacktest {bars : List Bar} {signals : Signals} {r : Report}
    (run : runBacktest bars signals = .ok r) :
    Bar.checkSeries bars = .ok () ∧ signals.exit.length = bars.length ∧
      ∃ spans last trades position, r = .ofWalk trades position ∧
        signals.Runs 0 none spans last ∧
        WalkFollows bars 0 spans last bars.length (.ok (trades, position)) := by
  have valid := checkSeries_of_runBacktest run
  obtain ⟨entries, exits⟩ :
      signals.entry.length = bars.length ∧ signals.exit.length = bars.length := by
    rw [runBacktest_of_valid valid] at run
    split at run
    · cases run
    · omega
  obtain ⟨spans, last, runs, follows⟩ :=
    walk_follows entries exits bars.length 0 none (by simp) (by simp)
  rw [Option.bind_none, List.drop_zero] at follows
  rw [runBacktest_eq_walk valid entries exits] at run
  cases walked : walk none (Day.ofSignals bars signals) with
  | error fault =>
    rw [walked] at run
    cases run
  | ok outcome =>
    obtain ⟨trades, position⟩ := outcome
    rw [walked] at run follows
    cases run
    exact ⟨valid, exits, spans, last, trades, position, rfl, runs, follows⟩

/-- The trades of a report are between prices of the series. -/
theorem exists_ofWalk_of_runBacktest {bars : List Bar} {signals : Signals} {r : Report}
    (run : runBacktest bars signals = .ok r) :
    ∃ trades last, r = .ofWalk trades last ∧ ∀ trade? ∈ trades, ∀ t ∈ trade?, t.Priced := by
  obtain ⟨valid, exits, spans, last, trades, position, report, runs, follows⟩ :=
    exists_follows_of_runBacktest run
  exact ⟨trades, position, report,
    List.forall_mem_filterMap.mp (follows.priced valid exits runs)⟩

/-! ## The equity from day to day -/

/-- A number without a sign, or the NaN that the product of zero and an infinity is. -/
def IsEquity (x : Binary64) : Prop := x = .nan ∨ x.Unsigned

theorem IsEquity.lt_zero {x : Binary64} (equity : IsEquity x) : x.lt 0 = false := by
  rcases equity with rfl | unsigned
  · rfl
  · exact unsigned.lt_zero

/-- A trade leaves an equity, since it multiplies by no negative number. -/
theorem IsEquity.after {x : Binary64} {trade? : Option Trade} (equity : IsEquity x)
    (gains : ∀ t ∈ trade?, t.gain.IsGain) : IsEquity (equityAfter x trade?) := by
  cases trade? with
  | none => exact equity
  | some t =>
    rcases equity with rfl | unsigned
    · exact .inl rfl
    · exact unsigned.mul (gains t rfl).unsigned_one_add

/-- What has left the format does not come back. -/
theorem isFinite_of_equityAfter {x : Binary64} {trade? : Option Trade}
    (isFinite : (equityAfter x trade?).isFinite = true) : x.isFinite = true := by
  cases trade? with
  | none => exact isFinite
  | some t => exact (Binary64.isFinite_of_mul isFinite).1

/-! ## The equity over a run -/

section

variable {x : Binary64} {trades : List (Option Trade)}

theorem isEquity_of_mem_equities (equity : IsEquity x)
    (gains : ∀ trade? ∈ trades, ∀ t ∈ trade?, t.gain.IsGain) :
    ∀ y ∈ equities x trades, IsEquity y := by
  induction trades generalizing x with
  | nil => simp [equities]
  | cons trade? trades ih =>
    obtain ⟨here, there⟩ := List.forall_mem_cons.mp gains
    rw [equities]
    exact List.forall_mem_cons.mpr ⟨equity.after here, ih (equity.after here) there⟩

/-- Once the equity is not finite it stays so. -/
theorem pairwise_isFinite_equities (x : Binary64) (trades : List (Option Trade)) :
    (x :: equities x trades).Pairwise fun earlier later =>
      later.isFinite = true → earlier.isFinite = true := by
  induction trades generalizing x with
  | nil => simp [equities]
  | cons trade? trades ih =>
    have later := ih (equityAfter x trade?)
    rw [equities]
    refine .cons ?_ later
    intro y member isFinite
    have after : (equityAfter x trade?).isFinite = true := by
      rcases List.mem_cons.mp member with rfl | behind
      · exact isFinite
      · exact List.rel_of_pairwise_cons later behind isFinite
    exact isFinite_of_equityAfter after

/-- While the equity stays finite, so do the gains. -/
theorem isFinite_gain_of_equities (stays : ∀ y ∈ equities x trades, y.isFinite = true) :
    ∀ trade? ∈ trades, ∀ t ∈ trade?, t.gain.isFinite = true := by
  induction trades generalizing x with
  | nil => simp
  | cons trade? trades ih =>
    rw [equities] at stays
    obtain ⟨here, there⟩ := List.forall_mem_cons.mp stays
    refine List.forall_mem_cons.mpr ⟨fun t same => ?_, ih there⟩
    obtain rfl : trade? = some t := same
    have factor : (1 + t.gain).isFinite = true := (Binary64.isFinite_of_mul here).2
    exact (Binary64.isFinite_of_add factor).2

end

end MarketRules
