import MarketRules.Proofs.Backtest.ScheduledReport
import MarketRules.Proofs.Number.Order
import MarketRules.Proofs.Strategy.SignalPrefix

/-!
# Backtests of the first bars

A backtest does not look ahead.  The walk through the first days is the first
part of the walk through all days (`walk_append`), and the walk goes on from the
position that is held between the two parts.  So the report on the
first bars can be read off the report on all bars (`backtest_take`).
-/

namespace MarketRules

/-! ## What the full report says of the first bars -/

/-- Is there a bar of this day? -/
def Bar.hasDate (bars : List Bar) (d : Date) : Bool := bars.any (·.date = d)

/-- The position that a trade closed. -/
def Trade.position (t : Trade) : Position := ⟨t.entryDate, t.entryPrice⟩

namespace Report

/-- The trades that were closed at one of the first bars. -/
def closedBy (r : Report) (first : List Bar) : List Trade :=
  r.trades.filter fun t => Bar.hasDate first t.exitDate

/-- The position that was held after the last of the first bars: it was opened at
one of them and not closed at one of them. -/
def heldAfter (r : Report) (first : List Bar) : Option Position :=
  let positions := (r.trades.filter fun t => !Bar.hasDate first t.exitDate).map Trade.position
  (positions ++ r.openPosition.toList).find? fun p => Bar.hasDate first p.entryDate

/-- The report on the first bars is the first part of the report on all bars. -/
structure Begins (r full : Report) (first : List Bar) : Prop where
  /-- The equity is the first part of the equity. -/
  equity : r.equityCurve = full.equityCurve.take (first.length + 1)
  /-- The trades are those that were closed at the first bars. -/
  closed : r.trades = full.closedBy first
  leading : r.trades <+: full.trades
  /-- The open position is the one that was held after the first bars. -/
  held : r.openPosition = full.heldAfter first
  drawdown : r.maxDrawdown.le full.maxDrawdown = true

end Report

/-! ## The walk in two parts -/

/-- What one day does, if it does not fail: nothing, or it opens a position, or it
closes one. -/
theorem Day.step_cases {day : Day} {held next : Option Position} {trade? : Option Trade}
    (stepped : day.step held = .ok (next, trade?)) :
    (held = next ∧ trade? = none) ∨
      (held = none ∧ next = some ⟨day.bar.date, day.bar.closing⟩ ∧ trade? = none) ∨
        ∃ p, held = some p ∧ next = none ∧
          trade? = some (p.close day.bar.date day.bar.closing) := by
  cases held with
  | none =>
    simp only [Day.step] at stepped
    split at stepped
    · split at stepped
      · cases stepped
      · cases stepped
        exact .inr (.inl ⟨rfl, rfl, rfl⟩)
    · cases stepped
      exact .inl ⟨rfl, rfl⟩
  | some p =>
    simp only [Day.step] at stepped
    split at stepped
    · cases stepped
      exact .inr (.inr ⟨p, rfl, rfl, rfl⟩)
    · cases stepped
      exact .inl ⟨rfl, rfl⟩

/-- A walk that succeeds has gone through its first day and then through the others. -/
theorem walk_cons_ok {held last : Option Position} {day : Day} {days : List Day}
    {trades : List (Option Trade)} (walked : walk held (day :: days) = .ok (trades, last)) :
    ∃ next trade? rest, day.step held = .ok (next, trade?) ∧ walk next days = .ok (rest, last) ∧
      trades = trade? :: rest := by
  cases stepped : day.step held with
  | error fault =>
    rw [walk_cons_error stepped] at walked
    cases walked
  | ok outcome =>
    obtain ⟨next, trade?⟩ := outcome
    rw [walk_cons stepped] at walked
    cases later : walk next days with
    | error fault =>
      rw [later] at walked
      cases walked
    | ok rest =>
      rw [later] at walked
      cases walked
      exact ⟨next, trade?, rest.1, rfl, later, rfl⟩

/-- A walk goes through the first days, and then on from the position that is held between the
two parts.  The induction is on the days of the first part, along which the position moves. -/
theorem walk_append {held last : Option Position} {days later : List Day}
    {trades : List (Option Trade)} (walked : walk held (days ++ later) = .ok (trades, last)) :
    ∃ first between rest, walk held days = .ok (first, between) ∧
      walk between later = .ok (rest, last) ∧ trades = first ++ rest := by
  induction days generalizing held trades with
  | nil => exact ⟨[], held, trades, rfl, walked, rfl⟩
  | cons day days ih =>
    obtain ⟨next, trade?, trades, stepped, onward, rfl⟩ := walk_cons_ok walked
    obtain ⟨first, between, rest, before, after, rfl⟩ := ih onward
    refine ⟨trade? :: first, between, rest, ?_, after, rfl⟩
    rw [walk_cons stepped, before]
    rfl

/-- A walk has an entry for every day, and every trade is closed on one of the
days. -/
theorem walk_trades {held last : Option Position} {days : List Day}
    {trades : List (Option Trade)} (walked : walk held days = .ok (trades, last)) :
    trades.length = days.length ∧
      ∀ t ∈ trades.filterMap id, ∃ day ∈ days, t.exitDate = day.bar.date := by
  induction days generalizing held trades with
  | nil =>
    cases walked
    simp
  | cons day days ih =>
    obtain ⟨next, trade?, rest, stepped, later, rfl⟩ := walk_cons_ok walked
    obtain ⟨length, exits⟩ := ih later
    refine ⟨by simp [length], fun t ht => ?_⟩
    rcases List.mem_filterMap.mp ht with ⟨entry, member, rfl⟩
    rcases List.mem_cons.mp member with here | there
    · rcases Day.step_cases stepped with ⟨-, none_made⟩ | ⟨-, -, none_made⟩ | ⟨p, -, -, made⟩
      · rw [none_made] at here
        cases here
      · rw [none_made] at here
        cases here
      · rw [made] at here
        cases here
        exact ⟨day, List.mem_cons_self, rfl⟩
    · obtain ⟨day', member', date⟩ := exits t (List.mem_filterMap.mpr ⟨_, there, rfl⟩)
      exact ⟨day', List.mem_cons_of_mem _ member', date⟩

/-- The positions of a walk, in order, are the one that is held at its start and others that
are opened on the days of the walk.  An opening adds to the positions, and a closing only
moves one into the trades. -/
theorem walk_positions {held last : Option Position} {days : List Day}
    {trades : List (Option Trade)} (walked : walk held days = .ok (trades, last)) :
    ∃ opened, (trades.filterMap id).map Trade.position ++ last.toList = held.toList ++ opened ∧
      ∀ p ∈ opened, ∃ day ∈ days, p.entryDate = day.bar.date := by
  induction days generalizing held trades with
  | nil =>
    cases walked
    exact ⟨[], by simp, by simp⟩
  | cons day days ih =>
    obtain ⟨next, trade?, rest, stepped, later, rfl⟩ := walk_cons_ok walked
    obtain ⟨opened, positions, entries⟩ := ih later
    have entries' : ∀ p ∈ opened, ∃ day' ∈ day :: days, p.entryDate = day'.bar.date := by
      intro p hp
      obtain ⟨day', member, date⟩ := entries p hp
      exact ⟨day', List.mem_cons_of_mem _ member, date⟩
    rcases Day.step_cases stepped with ⟨rfl, rfl⟩ | ⟨rfl, rfl, rfl⟩ | ⟨p, rfl, rfl, rfl⟩
    · exact ⟨opened, by simpa using positions, entries'⟩
    · refine ⟨⟨day.bar.date, day.bar.closing⟩ :: opened, by simpa using positions, ?_⟩
      exact List.forall_mem_cons.mpr ⟨⟨day, List.mem_cons_self, rfl⟩, entries'⟩
    · refine ⟨opened, ?_, entries'⟩
      simpa [Trade.position, Position.close] using positions

/-! ## Figures in two parts -/

/-- Later trades do not change the equities before them. -/
theorem equities_append (equity : Binary64) (trades later : List (Option Trade)) :
    ∃ rest, equities equity (trades ++ later) = equities equity trades ++ rest := by
  induction trades generalizing equity with
  | nil => exact ⟨equities equity later, rfl⟩
  | cons t ts ih =>
    obtain ⟨rest, appended⟩ := ih (equityAfter equity t)
    exact ⟨rest, by simp [equities, appended]⟩

/-- A decline that was seen counts to the end. -/
theorem le_drawdown (peak : Binary64) {worst : Binary64} (number : worst.isNaN = false)
    (curve : List Binary64) : worst.le (drawdown peak worst curve) = true := by
  induction curve generalizing peak worst with
  | nil => exact Binary64.le_refl number
  | cons e es ih =>
    rw [drawdown]
    exact Binary64.le_trans (Binary64.le_max_left number) (ih _ (Binary64.isNaN_max number))

/-- A longer curve can only fall deeper. -/
theorem drawdown_le_append (peak : Binary64) {worst : Binary64} (number : worst.isNaN = false)
    (curve later : List Binary64) :
    (drawdown peak worst curve).le (drawdown peak worst (curve ++ later)) = true := by
  induction curve generalizing peak worst with
  | nil => exact le_drawdown peak number later
  | cons e es ih =>
    rw [List.cons_append, drawdown, drawdown]
    exact ih _ (Binary64.isNaN_max number)

/-! ## The report on the first bars -/

section FirstBars

variable {bars : List Bar} {signals : Signals} {m : Nat}

/-- The days of the first bars are the first days. -/
theorem Day.ofSignals_take (bars : List Bar) (signals : Signals) (m : Nat) :
    Day.ofSignals (bars.take m) ⟨signals.entry.take m, signals.exit.take m⟩ =
      (Day.ofSignals bars signals).take m := by
  simp only [Day.ofSignals, List.zip, List.take_zipWith]

theorem Day.map_bar (entries : signals.entry.length = bars.length)
    (exits : signals.exit.length = bars.length) :
    (Day.ofSignals bars signals).map Day.bar = bars := by
  have covered : bars.length ≤ (signals.entry.zip signals.exit).length := by simp [entries, exits]
  have zipped := List.map_fst_zip covered
  rw [List.zip, List.map_zipWith] at zipped
  rw [Day.ofSignals, List.map_zipWith]
  exact zipped

/-- The date of one of the first days is a date of the first bars. -/
theorem Day.hasDate_of_mem_take (entries : signals.entry.length = bars.length)
    (exits : signals.exit.length = bars.length) {d : Date}
    (known : ∃ day ∈ (Day.ofSignals bars signals).take m, d = day.bar.date) :
    Bar.hasDate (bars.take m) d = true := by
  obtain ⟨day, member, rfl⟩ := known
  have bar : day.bar ∈ bars.take m := by
    rw [← Day.map_bar entries exits, ← List.map_take]
    exact List.mem_map_of_mem member
  exact List.any_eq_true.mpr ⟨day.bar, bar, by simp⟩

/-- No date of a later day is a date of the first bars, since dates rise. -/
theorem Day.hasDate_of_mem_drop (valid : Bar.checkSeries bars = .ok ())
    (entries : signals.entry.length = bars.length) (exits : signals.exit.length = bars.length)
    {d : Date} (known : ∃ day ∈ (Day.ofSignals bars signals).drop m, d = day.bar.date) :
    Bar.hasDate (bars.take m) d = false := by
  obtain ⟨day, member, rfl⟩ := known
  have bar : day.bar ∈ bars.drop m := by
    rw [← Day.map_bar entries exits, ← List.map_drop]
    exact List.mem_map_of_mem member
  refine List.any_eq_false.mpr fun b hb => ?_
  have later := Bar.date_before_of_mem_drop valid hb bar
  intro same
  rw [of_decide_eq_true same, Date.before_irrefl] at later
  cases later

/-- The trades of two walks, the second behind the first bars, are told apart by
the first bars. -/
theorem filter_closed {first rest : List (Option Trade)}
    (early : ∀ t ∈ first.filterMap id, Bar.hasDate (bars.take m) t.exitDate = true)
    (late : ∀ t ∈ rest.filterMap id, Bar.hasDate (bars.take m) t.exitDate = false) :
    ((first ++ rest).filterMap id).filter (fun t => Bar.hasDate (bars.take m) t.exitDate) =
        first.filterMap id ∧
      ((first ++ rest).filterMap id).filter (fun t => !Bar.hasDate (bars.take m) t.exitDate) =
        rest.filterMap id := by
  have kept : (first.filterMap id).filter (fun t => Bar.hasDate (bars.take m) t.exitDate) =
      first.filterMap id := List.filter_eq_self.mpr early
  have dropped : (rest.filterMap id).filter (fun t => Bar.hasDate (bars.take m) t.exitDate) = [] :=
    List.filter_eq_nil_iff.mpr fun t ht => by simp [late t ht]
  have dropped' :
      (first.filterMap id).filter (fun t => !Bar.hasDate (bars.take m) t.exitDate) = [] :=
    List.filter_eq_nil_iff.mpr fun t ht => by simp [early t ht]
  have kept' : (rest.filterMap id).filter (fun t => !Bar.hasDate (bars.take m) t.exitDate) =
      rest.filterMap id := List.filter_eq_self.mpr fun t ht => by simp [late t ht]
  rw [List.filterMap_append, List.filter_append, List.filter_append, kept, dropped, dropped', kept']
  exact ⟨List.append_nil _, List.nil_append _⟩

/-- The position between two walks is the only one that was opened before and not
closed before. -/
theorem find?_held {between : Option Position} {opened : List Position}
    (early : ∀ p, between = some p → Bar.hasDate (bars.take m) p.entryDate = true)
    (late : ∀ p ∈ opened, Bar.hasDate (bars.take m) p.entryDate = false) :
    (between.toList ++ opened).find? (fun p => Bar.hasDate (bars.take m) p.entryDate) =
      between := by
  cases between with
  | none => exact List.find?_eq_none.mpr fun p hp => by simp [late p hp]
  | some p => exact List.find?_cons_of_pos (early p rfl)

/-- The report on the first part of a walk is the first part of the report.  Of all positions
of the run, those behind the cut are told by their entries, and those that were closed before
it are no longer listed. -/
theorem Report.begins_ofWalk (valid : Bar.checkSeries bars = .ok ())
    (entries : signals.entry.length = bars.length) (exits : signals.exit.length = bars.length)
    {first rest : List (Option Trade)} {between last : Option Position}
    (before : walk none ((Day.ofSignals bars signals).take m) = .ok (first, between))
    (after : walk between ((Day.ofSignals bars signals).drop m) = .ok (rest, last)) :
    (Report.ofWalk first between).Begins (Report.ofWalk (first ++ rest) last) (bars.take m) := by
  obtain ⟨length, exits_before⟩ := walk_trades before
  obtain ⟨-, exits_after⟩ := walk_trades after
  obtain ⟨closed, closed_later⟩ := filter_closed
    (fun t ht => Day.hasDate_of_mem_take entries exits (exits_before t ht))
    (fun t ht => Day.hasDate_of_mem_drop valid entries exits (exits_after t ht))
  obtain ⟨curve_later, curve⟩ := equities_append 1 first rest
  have curve_length : (equities 1 first).length = (bars.take m).length := by
    have same := congrArg List.length (Day.map_bar entries exits)
    rw [List.length_map] at same
    rw [length_equities, length, List.length_take, List.length_take, same]
  refine
    { equity := ?_
      closed := closed.symm
      leading := ?_
      held := ?_
      drawdown := ?_ }
  · show 1 :: equities 1 first = (1 :: equities 1 (first ++ rest)).take _
    rw [List.take_succ_cons, curve, List.take_left' curve_length]
  · show first.filterMap id <+: (first ++ rest).filterMap id
    rw [List.filterMap_append]
    exact List.prefix_append _ _
  · obtain ⟨opened_before, positions_before, entries_before⟩ := walk_positions before
    obtain ⟨opened_after, positions_after, entries_after⟩ := walk_positions after
    show between = List.find? _
      ((((first ++ rest).filterMap id).filter _).map Trade.position ++ last.toList)
    rw [closed_later, positions_after]
    refine (find?_held (fun p held => ?_) fun p hp => ?_).symm
    · refine Day.hasDate_of_mem_take entries exits (entries_before p ?_)
      have member : p ∈ Option.toList none ++ opened_before := by
        rw [← positions_before, held]
        simp
      simpa using member
    · exact Day.hasDate_of_mem_drop valid entries exits (entries_after p hp)
  · show (drawdown 1 0 (equities 1 first)).le (drawdown 1 0 (equities 1 (first ++ rest))) = true
    rw [curve]
    exact drawdown_le_append 1 Binary64.isNaN_zero _ _

end FirstBars

theorem checkSeries_of_runBacktest {bars : List Bar} {signals : Signals} {r : Report}
    (run : runBacktest bars signals = .ok r) : Bar.checkSeries bars = .ok () := by
  cases valid : Bar.checkSeries bars with
  | error fault =>
    rw [runBacktest_of_invalid valid] at run
    cases run
  | ok _ => rfl

/-- A backtest does not look ahead: its signals on the first bars are the first
signals, it has a report on the first bars if it has one on all bars, and the
report on the first bars is the first part of the other one. -/
theorem CheckedStrategy.backtest_take (s : CheckedStrategy) (bars : List Bar) (m : Nat)
    (some_bar : 1 ≤ m) :
    s.signals (bars.take m) = ⟨(s.signals bars).entry.take m, (s.signals bars).exit.take m⟩ ∧
      ∀ full, s.backtest bars = .ok full →
        ∃ r, s.backtest (bars.take m) = .ok r ∧ r.Begins full (bars.take m) := by
  refine ⟨s.signals_take bars m, fun full run => ?_⟩
  have valid := checkSeries_of_runBacktest run
  obtain ⟨entries, exits⟩ := s.length_signals bars
  rw [backtest, runBacktest_eq_walk valid entries exits] at run
  cases walked : walk none (Day.ofSignals bars (s.signals bars)) with
  | error fault =>
    rw [walked] at run
    cases run
  | ok outcome =>
    obtain ⟨trades, last⟩ := outcome
    rw [walked] at run
    cases run
    rw [← List.take_append_drop m (Day.ofSignals bars (s.signals bars))] at walked
    obtain ⟨first, between, rest, before, after, appended⟩ := walk_append walked
    refine ⟨.ofWalk first between, ?_, ?_⟩
    · rw [backtest, s.signals_take, runBacktest_eq_walk (Bar.checkSeries_take valid some_bar)
        (by simp [entries]) (by simp [exits]), Day.ofSignals_take, before]
      rfl
    · subst appended
      exact Report.begins_ofWalk valid entries exits before after

/-- Buy above the mean of two days and sell below it. -/
def crossing : CheckedStrategy where
  entry := .compare .greater (.field .closing) (.indicator ⟨.movingAverage, .closing, 2⟩)
  exit := .compare .less (.field .closing) (.indicator ⟨.movingAverage, .closing, 2⟩)
  count_le := by rintro ⟨⟩ <;> decide
  period_pos := by decide

/-- A series on which `crossing` holds a position after the third day, sells on
the fourth and buys again on the fifth. -/
def fiveDays : List Bar :=
  [ ⟨⟨2024, 1, 1, by decide⟩, 10, 10, 10, 10, 100⟩, ⟨⟨2024, 1, 2, by decide⟩, 11, 11, 11, 11, 100⟩,
    ⟨⟨2024, 1, 3, by decide⟩, 12, 12, 12, 12, 100⟩, ⟨⟨2024, 1, 4, by decide⟩, 9, 9, 9, 9, 100⟩,
    ⟨⟨2024, 1, 5, by decide⟩, 13, 13, 13, 13, 100⟩ ]

/-- With a position that is held at the cut. -/
theorem crossing_backtest_take :
    1 ≤ 3 ∧ ∃ full r, crossing.backtest fiveDays = .ok full ∧ full.trades.length = 1 ∧
      crossing.backtest (fiveDays.take 3) = .ok r ∧ r.openPosition.isSome = true ∧
        r.Begins full (fiveDays.take 3) := by
  have trades : (crossing.backtest fiveDays).toOption.map (·.trades.length) = some 1 := by
    decide +kernel
  have held : (crossing.backtest (fiveDays.take 3)).toOption.map (·.openPosition.isSome) =
      some true := by
    decide +kernel
  cases run : crossing.backtest fiveDays with
  | error fault =>
    rw [run] at trades
    cases trades
  | ok full =>
    obtain ⟨r, run_first, begins⟩ :=
      (CheckedStrategy.backtest_take crossing fiveDays 3 (by decide)).2 full run
    rw [run] at trades
    rw [run_first] at held
    exact ⟨by decide, full, r, rfl, Option.some.inj trades, run_first, Option.some.inj held, begins⟩

end MarketRules
