import MarketRules.Backtest.Trade
import MarketRules.Strategy.Signals

/-!
# Backtests

A backtest follows the signals through a series.  At most one position is held.
While none is held the entry signal opens one, and while one is held the exit
signal closes it, each at the last price of the bar.  So a position is never
opened and closed on one bar, and an exit signal means nothing while no position
is held.

The equity starts at one and changes only when a position is closed.  A position
that is still held after the last bar counts for nothing.
-/

namespace MarketRules

/-! ## Errors -/

/-- Why a backtest cannot be run. -/
inductive BacktestError where
  /-- The series is not valid. -/
  | series (fault : SeriesError)
  /-- There is not one signal of each kind for every bar. -/
  | lengthMismatch (bars entry exit : Nat)
  /-- A position would be opened at a price of zero. -/
  | zeroPrice (date : Date)
deriving DecidableEq

def BacktestError.message : BacktestError → String
  | .series fault => fault.message
  | .lengthMismatch bars entry exit =>
    s!"signal length mismatch: {decimal bars} bars, {decimal entry} entry, {decimal exit} exit"
  | .zeroPrice date => s!"cannot enter at a zero close on {date.text}"

/-! ## The walk through the series -/

/-- A bar with its two signals. -/
structure Day where
  bar : Bar
  /-- Does the entry rule hold? -/
  entry : Bool
  /-- Does the exit rule hold? -/
  exit : Bool

/-- The bars of a series with their signals. -/
def Day.ofSignals (bars : List Bar) (signals : Signals) : List Day :=
  List.zipWith (fun b (e, x) => ⟨b, e, x⟩) bars (signals.entry.zip signals.exit)

/-- What one day does to the position: the position after it, and the trade that
was closed. -/
def Day.step (day : Day) :
    Option Position → Except BacktestError (Option Position × Option Trade)
  | none =>
    if day.entry then
      if day.bar.closing.le 0 then .error (.zeroPrice day.bar.date)
      else .ok (some ⟨day.bar.date, day.bar.closing⟩, none)
    else .ok (none, none)
  | some held =>
    if day.exit then .ok (none, some (held.close day.bar.date day.bar.closing))
    else .ok (some held, none)

/-- Walk through the days.  The result has an entry for every day, the trade that
was closed there, and the position after the last day. -/
def walk (held : Option Position) :
    List Day → Except BacktestError (List (Option Trade) × Option Position)
  | [] => .ok ([], held)
  | day :: days => do
    let (held, trade?) ← day.step held
    let (trades, last) ← walk held days
    return (trade? :: trades, last)
termination_by structural days => days

/-! ## Equity -/

/-- The equity after a day. -/
def equityAfter (equity : Binary64) : Option Trade → Binary64
  | some t => equity * (1 + t.gain)
  | none => equity

/-- The equity after each day. -/
def equities (equity : Binary64) : List (Option Trade) → List Binary64
  | [] => []
  | t :: ts => equityAfter equity t :: equities (equityAfter equity t) ts
termination_by structural ts => ts

/-- The largest decline from the highest equity so far, as a fraction of it.  `peak`
and `worst` are the highest equity and the largest decline up to now. -/
def drawdown (peak worst : Binary64) : List Binary64 → Binary64
  | [] => worst
  | e :: es =>
    drawdown (peak.max e) (worst.max ((peak.max e - e) / peak.max e)) es
termination_by structural es => es

/-! ## Reports -/

/-- The result of a backtest. -/
structure Report where
  /-- The last equity less the first. -/
  totalReturn : Binary64
  /-- The largest decline from the highest equity so far. -/
  maxDrawdown : Binary64
  tradeCount : Nat
  trades : List Trade
  /-- The equity at the start and after each bar. -/
  equityCurve : List Binary64
  /-- The position that is still held after the last bar. -/
  openPosition : Option Position
deriving DecidableEq

/-- The equity at the end. -/
def Report.finalEquity (r : Report) : Binary64 := r.equityCurve.getLast?.getD 1

/-- The report on a walk. -/
def Report.ofWalk (steps : List (Option Trade)) (last : Option Position) : Report :=
  let curve := equities 1 steps
  let trades := steps.filterMap id
  { totalReturn := curve.getLast?.getD 1 - 1
    maxDrawdown := drawdown 1 0 curve
    tradeCount := trades.length
    trades := trades
    equityCurve := 1 :: curve
    openPosition := last }

/-- Run signals over a series. -/
def runBacktest (bars : List Bar) (signals : Signals) : Except BacktestError Report := do
  (Bar.checkSeries bars).mapError .series
  if signals.entry.length ≠ bars.length ∨ signals.exit.length ≠ bars.length then
    throw (.lengthMismatch bars.length signals.entry.length signals.exit.length)
  let (steps, last) ← walk none (Day.ofSignals bars signals)
  return .ofWalk steps last

/-- Run a strategy over a series. -/
def CheckedStrategy.backtest (s : CheckedStrategy) (bars : List Bar) :
    Except BacktestError Report :=
  runBacktest bars (s.signals bars)

end MarketRules
