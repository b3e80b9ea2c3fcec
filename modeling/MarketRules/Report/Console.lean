import MarketRules.Backtest.Run
import MarketRules.Backtest.Stats
import MarketRules.Number.Fixed

/-!
# Reports for a terminal

A report as lines of text: the figures, the position that is still held, and if
it is wanted the list of trades.
-/

namespace MarketRules

/-! ## Columns -/

/-- The text with blanks in front of it, at least `width` characters long. -/
def padLeft (width : Nat) (s : String) : String :=
  String.ofList (List.replicate (width - s.length) ' ') ++ s

/-- The text with blanks behind it, at least `width` characters long. -/
def padRight (width : Nat) (s : String) : String :=
  s ++ String.ofList (List.replicate (width - s.length) ' ')

/-- A fraction in percent. -/
def percent (x : Binary64) : String := (x * 100).fixed 2 ++ "%"

/-- Lines of text, each with its end. -/
def ofLines (lines : List String) : String := String.join (lines.map (· ++ "\n"))

/-! ## Reports -/

namespace Report

/-- A line of the list of trades. -/
def tradeRow (entry price exit price' gain : String) : String :=
  String.intercalate " "
    [padRight 12 entry, padLeft 10 price, padRight 12 exit, padLeft 10 price', padLeft 9 gain]

/-- A trade as a line of the list. -/
def tradeLine (t : Trade) : String :=
  tradeRow t.entryDate.text (t.entryPrice.fixed 2) t.exitDate.text (t.exitPrice.fixed 2)
    (percent t.gain)

/-- The lines about the equity. -/
def equityLines (r : Report) : List String :=
  [ "=== Backtest Results ===",
    s!"Total Return:     {percent r.totalReturn}",
    s!"Max Drawdown:     {percent r.maxDrawdown}",
    s!"Total Trades:     {decimal r.tradeCount}" ]

/-- The lines about the trades as a whole.  There are none without trades. -/
def statsLines (r : Report) (stats : TradeStats) : List String :=
  if r.tradeCount = 0 then []
  else
    [ s!"Win Rate:         {percent stats.winRate}",
      s!"Average Return:   {percent stats.averageGain}",
      s!"Best Trade:       {percent stats.best}",
      s!"Worst Trade:      {percent stats.worst}",
      s!"Avg Holding:      {stats.averageDays.fixed 1} days" ]

/-- The line about the position that is still held. -/
def openLines (r : Report) : List String :=
  r.openPosition.toList.map fun p =>
    s!"Open Position:    entered {p.entryDate.text} at {p.entryPrice.fixed 2} (not included above)"

/-- The list of trades with its heading.  There is none without trades. -/
def tradeLines (r : Report) : List String :=
  if r.trades = [] then []
  else ["", "=== Trade Log ===", tradeRow "Entry" "Price" "Exit" "Price" "Return"]
    ++ r.trades.map tradeLine

/-- A report as text.  `showTrades` asks for the list of trades. -/
def console (r : Report) (stats : TradeStats) (showTrades : Bool) : String :=
  ofLines (r.equityLines ++ r.statsLines stats ++ r.openLines
    ++ if showTrades then r.tradeLines else [])

end Report

example : padLeft 4 "ab" = "  ab" ∧ padRight 4 "ab" = "ab  " ∧ padLeft 1 "ab" = "ab" := by
  decide
example : percent (.ofRatio true 1 8) = "-12.50%" := by decide +kernel

end MarketRules
