import MarketRules.Proofs.Backtest.Schedule
import MarketRules.Proofs.Market.ValidSeries

/-!
# Backtests follow the schedule

The walk through the days makes the trades of the schedule.  It fails exactly if
the schedule opens a position at a price of zero (`walk_follows`).  So the whole
report can be read off the bars and the schedule, without a walk
(`runBacktest_follows_schedule`).
-/

namespace MarketRules

/-! ## What the schedule asks for -/

namespace Bar

def positionAt? (bars : List Bar) (e : Nat) : Option Position := do
  let b ← bars[e]?
  return ⟨b.date, b.closing⟩

/-- The trade that is opened and closed at the bars of a span. -/
def tradeOf? (bars : List Bar) (span : Nat × Nat) : Option Trade := do
  let b ← bars[span.1]?
  let c ← bars[span.2]?
  return ⟨b.date, b.closing, c.date, c.closing, c.closing / b.closing - 1⟩

/-- Is there a bar with this index and a last price of at most zero? -/
def Worthless (bars : List Bar) (e : Nat) : Prop :=
  ∃ b, bars[e]? = some b ∧ b.closing.le 0 = true

end Bar

/-- The product of one and the gains of some trades, from left to right. -/
def compounded (equity : Binary64) (trades : List Trade) : Binary64 :=
  trades.foldl (fun q t => q * (1 + t.gain)) equity

/-- There can be no report: the series is not valid, a signal is missing or there
is one too many, or the schedule has an entry at a price of zero. -/
def Rejected (bars : List Bar) (signals : Signals) : Prop :=
  (∃ fault, Bar.checkSeries bars = .error fault) ∨
    signals.entry.length ≠ bars.length ∨ signals.exit.length ≠ bars.length ∨
    ∃ k e, signals.entryFrom? 0 k = some e ∧ Bar.Worthless bars e

/-- The report is the one that the schedule asks for. -/
structure Report.Follows (r : Report) (bars : List Bar) (signals : Signals) : Prop where
  /-- The spans of the schedule are its entries with their exits, by number. -/
  span : ∀ k : Nat, signals.spans[k]? = signals.span? k
  /-- Every span makes a trade, and there are no other trades. -/
  trade : ∀ k : Nat, r.trades[k]? = (signals.spans[k]?).bind (Bar.tradeOf? bars)
  /-- Trades are counted. -/
  count : r.tradeCount = r.trades.length
  /-- The position that is still held is that of an entry without an exit. -/
  position : ∀ p, r.openPosition = some p ↔ ∃ k e,
    signals.entryFrom? 0 k = some e ∧ signals.exitFrom? 0 k = none ∧
      Bar.positionAt? bars e = some p
  /-- The equity has a value at the start and one for every bar. -/
  length : r.equityCurve.length = bars.length + 1
  /-- The equity starts at one. -/
  start : r.equityCurve[0]? = some 1
  /-- After a bar, the equity is the product of the trades that are closed by
  then. -/
  equity : ∀ i, i < bars.length → r.equityCurve[i + 1]? =
    some (compounded 1 ((signals.spans.filter (·.2 ≤ i)).filterMap (Bar.tradeOf? bars)))
  /-- The total is the last equity less one. -/
  total : ∃ last, r.equityCurve.getLast? = some last ∧ r.totalReturn = last - 1
  /-- A trade is closed after it was opened. -/
  inside : ∀ t ∈ r.trades, t.entryDate.before t.exitDate = true
  /-- A trade is opened after the trades in front of it were closed. -/
  apart : r.trades.Pairwise fun t u => t.exitDate.before u.entryDate = true

/-! ## The walk -/

theorem walk_cons_error {held : Option Position} {day : Day} {fault : BacktestError}
    (failed : day.step held = .error fault) (days : List Day) :
    walk held (day :: days) = .error fault := by
  rw [walk, failed]
  rfl

theorem walk_cons {held next : Option Position} {day : Day} {trade? : Option Trade}
    (stepped : day.step held = .ok (next, trade?)) (days : List Day) :
    walk held (day :: days) =
      (walk next days).map fun (trades, last) => (trade? :: trades, last) := by
  rw [walk, stepped]
  simp only [bind, Except.bind]
  cases walk next days <;> rfl

/-- The result of a walk from the bar `i` on is that of the schedule. -/
def WalkFollows (bars : List Bar) (i : Nat) (spans : List (Nat × Nat)) (last : Option Nat)
    (days : Nat) : Except BacktestError (List (Option Trade) × Option Position) → Prop
  | .error _ => ∃ e ∈ spans.map Prod.fst ++ last.toList, Bar.Worthless bars e
  | .ok (trades, position) =>
    (∀ e ∈ spans.map Prod.fst ++ last.toList, ¬ Bar.Worthless bars e) ∧
      position = last.bind (Bar.positionAt? bars) ∧ trades.length = days ∧
      ∀ n, (trades.take n).filterMap id =
        (spans.filter (·.2 < i + n)).filterMap (Bar.tradeOf? bars)

section Walk

variable {bars : List Bar} {signals : Signals} {i : Nat} {spans : List (Nat × Nat)}
  {last : Option Nat} {days : Nat}
  {result : Except BacktestError (List (Option Trade) × Option Position)}

/-- A day on which no trade is closed. -/
theorem WalkFollows.skip (h : WalkFollows bars (i + 1) spans last days result)
    (behind : ∀ p ∈ spans, i ≤ p.2) :
    WalkFollows bars i spans last (days + 1)
      (result.map fun (trades, last) => (none :: trades, last)) := by
  cases result with
  | error fault => exact h
  | ok outcome =>
    obtain ⟨worth, position, length, closed⟩ := h
    refine ⟨worth, position, by simp [length], fun n => ?_⟩
    cases n with
    | zero =>
      have none_closed : spans.filter (·.2 < i + 0) = [] :=
        List.filter_eq_nil_iff.mpr fun p hp => by simpa using behind p hp
      rw [none_closed]
      rfl
    | succ n =>
      have shifted : i + (n + 1) = i + 1 + n := by omega
      rw [List.take_succ_cons, List.filterMap_cons_none rfl, closed n, shifted]

/-- A day on which the position of the bar `e` is closed. -/
theorem WalkFollows.close {e : Nat} {t : Trade}
    (h : WalkFollows bars (i + 1) spans last days result) (behind : ∀ p ∈ spans, i ≤ p.2)
    (traded : Bar.tradeOf? bars (e, i) = some t) (worthy : ¬ Bar.Worthless bars e) :
    WalkFollows bars i ((e, i) :: spans) last (days + 1)
      (result.map fun (trades, last) => (some t :: trades, last)) := by
  cases result with
  | error fault =>
    obtain ⟨e', he', worthless⟩ := h
    exact ⟨e', List.mem_cons_of_mem _ he', worthless⟩
  | ok outcome =>
    obtain ⟨worth, position, length, closed⟩ := h
    refine ⟨?_, position, by simp [length], fun n => ?_⟩
    · intro e' he'
      rcases List.mem_cons.mp he' with rfl | he'
      · exact worthy
      · exact worth e' he'
    cases n with
    | zero =>
      have none_closed : ((e, i) :: spans).filter (·.2 < i + 0) = [] := by
        refine List.filter_eq_nil_iff.mpr fun p hp => ?_
        rcases List.mem_cons.mp hp with rfl | hp
        · simp
        · simpa using behind p hp
      rw [none_closed]
      rfl
    | succ n =>
      have shifted : i + (n + 1) = i + 1 + n := by omega
      rw [List.take_succ_cons, List.filterMap_cons_some (f := id) rfl, closed n,
        List.filter_cons_of_pos (by simp), List.filterMap_cons_some traded, shifted]

/-- Where bar and signals have a value, the days go on with the day that these make. -/
theorem Day.drop_ofSignals {b : Bar} {e x : Bool} (bar : bars[i]? = some b)
    (entry : signals.entry[i]? = some e) (exit : signals.exit[i]? = some x) :
    (Day.ofSignals bars signals).drop i =
      ⟨b, e, x⟩ :: (Day.ofSignals bars signals).drop (i + 1) := by
  have day : (Day.ofSignals bars signals)[i]? = some ⟨b, e, x⟩ := by
    have both : (signals.entry.zip signals.exit)[i]? = some (e, x) :=
      List.getElem?_zip_eq_some.mpr ⟨entry, exit⟩
    simp [Day.ofSignals, List.getElem?_zipWith, bar, both]
  obtain ⟨bound, value⟩ := List.getElem?_eq_some_iff.mp day
  rw [List.drop_eq_getElem_cons bound, value]

/-- From the bar `i` on, where `held` is the entry of the position that is held
there, the walk through the remaining days follows a schedule. -/
def WalkFollowed (bars : List Bar) (signals : Signals) (remaining i : Nat) (held : Option Nat) :
    Prop :=
  ∃ spans last, signals.Runs i held spans last ∧
    WalkFollows bars i spans last remaining
      (walk (held.bind (Bar.positionAt? bars)) ((Day.ofSignals bars signals).drop i))

/-- The spans of what remains end behind the bars that were walked. -/
theorem Signals.Runs.behind {held : Option Nat} (runs : signals.Runs (i + 1) held spans last)
    (before : ∀ e, held = some e → e < i + 1) : ∀ p ∈ spans, i ≤ p.2 := fun p hp =>
  Nat.le_of_succ_le ((runs.ordered before).1 p hp).2.2

section Day

variable {remaining : Nat} {b : Bar} {entering exiting : Bool} (bar : bars[i]? = some b)
  (entry : signals.entry[i]? = some entering) (exit : signals.exit[i]? = some exiting)

include bar entry exit

/-- A day that begins without a position.  If the day fails the walk stops there, but the
schedule is defined by the signals alone and goes on, and its next entry is the reason. -/
theorem WalkFollowed.flat_day (fits : i + 1 + remaining = bars.length)
    (entries : signals.entry.length = bars.length) (exits : signals.exit.length = bars.length)
    (flat : WalkFollowed bars signals remaining (i + 1) none)
    (opens : ¬ Bar.Worthless bars i → WalkFollowed bars signals remaining (i + 1) (some i)) :
    WalkFollowed bars signals (remaining + 1) i none := by
  unfold WalkFollowed
  rw [Option.bind_none, Day.drop_ofSignals bar entry exit]
  cases entering with
  | false =>
    obtain ⟨spans, last, runs, follows⟩ := flat
    have stepped : Day.step ⟨b, false, exiting⟩ none = .ok (none, none) := rfl
    refine ⟨spans, last, runs.stay_flat entry, ?_⟩
    rw [walk_cons stepped]
    exact follows.skip (runs.behind (by simp))
  | true =>
    by_cases price : b.closing.le 0 = true
    · have failed : Day.step ⟨b, true, exiting⟩ none = .error (.zeroPrice b.date) := by
        simp [Day.step, price]
      obtain ⟨spans, last, runs⟩ := signals.exists_runs remaining (i + 1) (some i) (by omega)
      refine ⟨spans, last, runs.enter_now entry, ?_⟩
      rw [walk_cons_error failed]
      exact ⟨i, runs.held_mem, b, bar, price⟩
    · have stepped : Day.step ⟨b, true, exiting⟩ none = .ok (some ⟨b.date, b.closing⟩, none) := by
        simp [Day.step, price]
      have worthy : ¬ Bar.Worthless bars i := by
        rintro ⟨b', bar', price'⟩
        rw [bar] at bar'
        cases bar'
        exact price price'
      have position : (some i).bind (Bar.positionAt? bars) = some ⟨b.date, b.closing⟩ := by
        simp [Bar.positionAt?, bar]
      obtain ⟨spans, last, runs, follows⟩ := opens worthy
      refine ⟨spans, last, runs.enter_now entry, ?_⟩
      rw [walk_cons stepped, ← position]
      exact follows.skip (runs.behind (by rintro _ ⟨⟩; exact Nat.lt_succ_self i))

/-- A day that begins with the position of the bar `e`. -/
theorem WalkFollowed.held_day {e : Nat} {c : Bar} (before : e < i) (first : bars[e]? = some c)
    (worthy : ¬ Bar.Worthless bars e)
    (stays : WalkFollowed bars signals remaining (i + 1) (some e))
    (closes : WalkFollowed bars signals remaining (i + 1) none) :
    WalkFollowed bars signals (remaining + 1) i (some e) := by
  have position : (some e).bind (Bar.positionAt? bars) = some ⟨c.date, c.closing⟩ := by
    simp [Bar.positionAt?, first]
  unfold WalkFollowed
  rw [position, Day.drop_ofSignals bar entry exit]
  cases exiting with
  | false =>
    obtain ⟨spans, last, runs, follows⟩ := stays
    have stepped : Day.step ⟨b, entering, false⟩ (some ⟨c.date, c.closing⟩) =
        .ok (some ⟨c.date, c.closing⟩, none) := rfl
    refine ⟨spans, last, runs.stay_held exit, ?_⟩
    rw [walk_cons stepped, ← position]
    exact follows.skip (runs.behind (by rintro _ ⟨⟩; omega))
  | true =>
    obtain ⟨spans, last, runs, follows⟩ := closes
    have traded : Bar.tradeOf? bars (e, i) =
        some (Position.close ⟨c.date, c.closing⟩ b.date b.closing) := by
      simp only [Bar.tradeOf?, first, bar]
      rfl
    have stepped : Day.step ⟨b, entering, true⟩ (some ⟨c.date, c.closing⟩) =
        .ok (none, some (Position.close ⟨c.date, c.closing⟩ b.date b.closing)) := rfl
    refine ⟨(e, i) :: spans, last, runs.leave_now exit, ?_⟩
    rw [walk_cons stepped]
    exact follows.close (runs.behind (by simp)) traded worthy

end Day

/-- Behind the last bar nothing is left to walk, and the schedule has ended too. -/
theorem WalkFollowed.at_end {held : Option Nat} (past : bars.length ≤ i)
    (entries : signals.entry.length = bars.length) (exits : signals.exit.length = bars.length)
    (worthy : ∀ e, held = some e → ¬ Bar.Worthless bars e) :
    WalkFollowed bars signals 0 i held := by
  have no_days : (Day.ofSignals bars signals).drop i = [] := by
    apply List.drop_eq_nil_of_le
    simp [Day.ofSignals]
    omega
  unfold WalkFollowed
  rw [no_days, walk]
  cases held with
  | none =>
    exact ⟨[], none, .idle (nextSet?_of_length_le (by omega)), by simp, rfl, rfl, by simp⟩
  | some e =>
    refine ⟨[], some e, .hold (nextSet?_of_length_le (by omega)), ?_, rfl, rfl, by simp⟩
    simpa using worthy e rfl

/-- The walk from any bar on, with or without a position, follows the schedule from there on.
Both ways to go on from a day are at hand before its case is known: without a position, and
with the one that the day would leave. -/
theorem walk_follows (entries : signals.entry.length = bars.length)
    (exits : signals.exit.length = bars.length) (remaining : Nat) (i : Nat) (held : Option Nat)
    (fits : i + remaining = bars.length)
    (opened : ∀ e, held = some e → e < i ∧ ¬ Bar.Worthless bars e) :
    WalkFollowed bars signals remaining i held := by
  induction remaining generalizing i held with
  | zero => exact .at_end (by omega) entries exits fun e he => (opened e he).2
  | succ remaining ih =>
    have bar : bars[i]? = some bars[i] := List.getElem?_eq_getElem (by omega)
    obtain ⟨entering, entry⟩ : ∃ entering, signals.entry[i]? = some entering :=
      ⟨_, List.getElem?_eq_getElem (by omega)⟩
    obtain ⟨exiting, exit⟩ : ∃ exiting, signals.exit[i]? = some exiting :=
      ⟨_, List.getElem?_eq_getElem (by omega)⟩
    have flat : WalkFollowed bars signals remaining (i + 1) none := ih _ _ (by omega) (by simp)
    cases held with
    | none =>
      refine .flat_day bar entry exit (by omega) entries exits flat fun worthy => ?_
      exact ih _ _ (by omega) (by rintro _ ⟨⟩; exact ⟨Nat.lt_succ_self i, worthy⟩)
    | some e =>
      obtain ⟨before, worthy⟩ := opened e rfl
      have first : bars[e]? = some bars[e] := List.getElem?_eq_getElem (by omega)
      refine .held_day bar entry exit before first worthy ?_ flat
      exact ih _ _ (by omega) (by rintro _ ⟨⟩; exact ⟨by omega, worthy⟩)

end Walk

/-! ## The equity -/

/-- The equity after a day is the product of the trades that are closed by
then. -/
theorem getElem?_equities (equity : Binary64) (trades : List (Option Trade)) (i : Nat)
    (bound : i < trades.length) :
    (equities equity trades)[i]? =
      some (compounded equity ((trades.take (i + 1)).filterMap id)) := by
  induction trades generalizing equity i with
  | nil => simp at bound
  | cons t ts ih =>
    cases i with
    | zero => cases t <;> simp [equities, equityAfter, compounded]
    | succ i =>
      rw [equities, List.getElem?_cons_succ, ih _ i (by simpa using bound)]
      cases t <;> simp [equityAfter, compounded]

theorem length_equities (equity : Binary64) (trades : List (Option Trade)) :
    (equities equity trades).length = trades.length := by
  induction trades generalizing equity with
  | nil => rfl
  | cons t ts ih => simp [equities, ih]

/-! ## The report -/

section Checks

variable {bars : List Bar} {signals : Signals}

theorem runBacktest_of_invalid {fault : SeriesError} (invalid : Bar.checkSeries bars = .error fault)
    (signals : Signals) : runBacktest bars signals = .error (.series fault) := by
  rw [runBacktest, invalid]
  rfl

/-- A series that passes the check fails at the lengths or in the walk, and nowhere else. -/
theorem runBacktest_of_valid (valid : Bar.checkSeries bars = .ok ()) (signals : Signals) :
    runBacktest bars signals =
      if signals.entry.length ≠ bars.length ∨ signals.exit.length ≠ bars.length then
        .error (.lengthMismatch bars.length signals.entry.length signals.exit.length)
      else
        (walk none (Day.ofSignals bars signals)).map fun (trades, last) => .ofWalk trades last := by
  rw [runBacktest, valid]
  split
  · rfl
  · cases walk none (Day.ofSignals bars signals) with
    | error fault => rfl
    | ok outcome => rfl

/-- With a valid series and a signal of each kind for every bar, a backtest is a
walk. -/
theorem runBacktest_eq_walk (valid : Bar.checkSeries bars = .ok ())
    (entries : signals.entry.length = bars.length) (exits : signals.exit.length = bars.length) :
    runBacktest bars signals =
      (walk none (Day.ofSignals bars signals)).map fun (trades, last) => .ofWalk trades last := by
  rw [runBacktest_of_valid valid, if_neg]
  rintro (different | different)
  · exact different entries
  · exact different exits

end Checks

/-- A list that a function maps without a gap, read by number. -/
theorem getElem?_filterMap_of_isSome {α β : Type} {f : α → Option β} {l : List α}
    (total : ∀ a ∈ l, (f a).isSome = true) (k : Nat) : (l.filterMap f)[k]? = l[k]?.bind f := by
  induction l generalizing k with
  | nil => rfl
  | cons a l ih =>
    obtain ⟨here, there⟩ := List.forall_mem_cons.mp total
    obtain ⟨b, hb⟩ := Option.isSome_iff_exists.mp here
    rw [List.filterMap_cons_some hb]
    cases k with
    | zero => simp [hb]
    | succ k => simpa using ih there k

section Report

variable {bars : List Bar} {signals : Signals} {spans : List (Nat × Nat)} {last : Option Nat}
  {trades : List (Option Trade)} {position : Option Position}

/-- The scheduled entries are those of the spans and of the position at the end. -/
theorem Signals.Runs.exists_entry_iff (runs : signals.Runs 0 none spans last) (p : Nat → Prop) :
    (∃ k e, signals.entryFrom? 0 k = some e ∧ p e) ↔
      ∃ e ∈ spans.map Prod.fst ++ last.toList, p e := by
  constructor
  · rintro ⟨k, e, entered, he⟩
    rw [(runs.lookup 0 rfl k).1] at entered
    exact ⟨e, List.mem_of_getElem? entered, he⟩
  · rintro ⟨e, member, he⟩
    obtain ⟨k, entered⟩ := List.mem_iff_getElem?.mp member
    exact ⟨k, e, (runs.lookup 0 rfl k).1.trans entered, he⟩

/-- The entry without an exit is the last one. -/
theorem Signals.Runs.last_iff (runs : signals.Runs 0 none spans last) (e : Nat) :
    last = some e ↔
      ∃ k, signals.entryFrom? 0 k = some e ∧ signals.exitFrom? 0 k = none := by
  constructor
  · rintro rfl
    refine ⟨spans.length, ?_, ?_⟩
    · rw [(runs.lookup 0 rfl _).1]
      simp
    · rw [(runs.lookup 0 rfl _).2]
      simp
  · rintro ⟨k, entered, not_left⟩
    rw [(runs.lookup 0 rfl k).1] at entered
    rw [(runs.lookup 0 rfl k).2, List.getElem?_eq_none_iff, List.length_map] at not_left
    rw [List.getElem?_append_right (by simpa using not_left)] at entered
    exact Option.mem_toList.mp (List.mem_of_getElem? entered)

/-- Every span of a schedule makes a trade. -/
theorem Signals.Runs.exists_trade (runs : signals.Runs 0 none spans last)
    (exits : signals.exit.length = bars.length) {p : Nat × Nat} (member : p ∈ spans) :
    ∃ b c, bars[p.1]? = some b ∧ bars[p.2]? = some c ∧ Bar.tradeOf? bars p =
      some ⟨b.date, b.closing, c.date, c.closing, c.closing / b.closing - 1⟩ := by
  have inside := ((runs.ordered (by simp)).1 p member).2.1
  have bound := runs.exit_lt p member
  have first : bars[p.1]? = some bars[p.1] := List.getElem?_eq_getElem (by omega)
  have second : bars[p.2]? = some bars[p.2] := List.getElem?_eq_getElem (by omega)
  exact ⟨_, _, first, second, by simp only [Bar.tradeOf?, first, second]; rfl⟩

/-- The trades of a walk that follows the schedule are those of its spans. -/
theorem WalkFollows.trades_eq (exits : signals.exit.length = bars.length)
    (runs : signals.Runs 0 none spans last)
    (follows : WalkFollows bars 0 spans last bars.length (.ok (trades, position))) :
    trades.filterMap id = spans.filterMap (Bar.tradeOf? bars) := by
  obtain ⟨-, -, length, closed⟩ := follows
  have early : spans.filter (·.2 < 0 + bars.length) = spans := by
    refine List.filter_eq_self.mpr fun p hp => ?_
    simpa [exits] using runs.exit_lt p hp
  have whole := closed bars.length
  rwa [List.take_of_length_le (Nat.le_of_eq length), early] at whole

/-- Every trade ends after it began and before the next one begins. -/
theorem Signals.Runs.trades_apart (valid : Bar.checkSeries bars = .ok ())
    (exits : signals.exit.length = bars.length) (runs : signals.Runs 0 none spans last) :
    (∀ t ∈ spans.filterMap (Bar.tradeOf? bars), t.entryDate.before t.exitDate = true) ∧
      (spans.filterMap (Bar.tradeOf? bars)).Pairwise
        fun t u => t.exitDate.before u.entryDate = true := by
  obtain ⟨bounds, pairwise⟩ := runs.ordered (by simp)
  constructor
  · intro t ht
    obtain ⟨p, hp, traded⟩ := List.mem_filterMap.mp ht
    obtain ⟨b, c, first, second, made⟩ := runs.exists_trade exits hp
    rw [traded] at made
    cases made
    exact Bar.date_before_of_lt valid (bounds p hp).2.1 first second
  · rw [List.pairwise_filterMap]
    refine pairwise.imp_of_mem ?_
    intro p q hp hq order t traded u traded'
    obtain ⟨b, c, -, second, made⟩ := runs.exists_trade exits hp
    obtain ⟨b', c', first, -, made'⟩ := runs.exists_trade exits hq
    rw [traded] at made
    rw [traded'] at made'
    cases made
    cases made'
    exact Bar.date_before_of_lt valid order second first

/-- The report on a walk that follows the schedule is the one that the schedule
asks for. -/
theorem Report.follows_ofWalk (valid : Bar.checkSeries bars = .ok ())
    (exits : signals.exit.length = bars.length) (runs : signals.Runs 0 none spans last)
    (follows : WalkFollows bars 0 spans last bars.length (.ok (trades, position))) :
    (Report.ofWalk trades position).Follows bars signals := by
  have all := follows.trades_eq exits runs
  have apart := runs.trades_apart valid exits
  obtain ⟨-, held, length, closed⟩ := follows
  refine
    { span := fun k => by rw [runs.spans_eq, runs.span?_eq]
      trade := fun k => ?_
      count := rfl
      position := fun p => ?_
      length := by simp [ofWalk, length_equities, length]
      start := rfl
      equity := fun i hi => ?_
      total := ⟨(equities 1 trades).getLast?.getD 1, by simp [ofWalk, List.getLast?_cons], rfl⟩
      inside := by simpa only [ofWalk, all] using apart.1
      apart := by simpa only [ofWalk, all] using apart.2 }
  · show (trades.filterMap id)[k]? = _
    rw [runs.spans_eq, all]
    refine getElem?_filterMap_of_isSome (fun p hp => ?_) k
    obtain ⟨b, c, -, -, made⟩ := runs.exists_trade exits hp
    rw [made]
    rfl
  · show position = some p ↔ _
    rw [held, Option.bind_eq_some_iff]
    constructor
    · rintro ⟨e, open_at, opened⟩
      obtain ⟨k, entered, not_left⟩ := (runs.last_iff e).mp open_at
      exact ⟨k, e, entered, not_left, opened⟩
    · rintro ⟨k, e, entered, not_left, opened⟩
      exact ⟨e, (runs.last_iff e).mpr ⟨k, entered, not_left⟩, opened⟩
  · show (1 :: equities 1 trades)[i + 1]? = _
    rw [List.getElem?_cons_succ, getElem?_equities _ _ _ (by omega), closed, runs.spans_eq]
    simp only [Nat.zero_add, Nat.lt_succ_iff]

end Report

/-- A backtest has a report exactly if the schedule can be followed, and the
report is then the one that the schedule asks for. -/
theorem runBacktest_follows_schedule (bars : List Bar) (signals : Signals) :
    match runBacktest bars signals with
    | .error _ => Rejected bars signals
    | .ok report => ¬ Rejected bars signals ∧ report.Follows bars signals := by
  cases valid : Bar.checkSeries bars with
  | error fault =>
    rw [runBacktest_of_invalid valid]
    exact .inl ⟨fault, valid⟩
  | ok _ =>
    by_cases lengths : signals.entry.length = bars.length ∧ signals.exit.length = bars.length
    · obtain ⟨entries, exits⟩ := lengths
      obtain ⟨spans, last, runs, follows⟩ :=
        walk_follows entries exits bars.length 0 none (by simp) (by simp)
      rw [runBacktest_eq_walk valid entries exits]
      rw [Option.bind_none, List.drop_zero] at follows
      cases walked : walk none (Day.ofSignals bars signals) with
      | error fault =>
        rw [walked] at follows
        exact .inr (.inr (.inr ((runs.exists_entry_iff _).mpr follows)))
      | ok outcome =>
        rw [walked] at follows
        refine ⟨?_, Report.follows_ofWalk valid exits runs follows⟩
        rintro (⟨fault, refused⟩ | different | different | worthless)
        · rw [valid] at refused
          cases refused
        · exact different entries
        · exact different exits
        · obtain ⟨e, member, zero⟩ := (runs.exists_entry_iff _).mp worthless
          exact follows.1 e member zero
    · have mismatch : signals.entry.length ≠ bars.length ∨ signals.exit.length ≠ bars.length := by
        omega
      rw [runBacktest_of_valid valid, if_pos mismatch]
      rcases mismatch with entries | exits
      · exact .inr (.inl entries)
      · exact .inr (.inr (.inl exits))

end MarketRules
