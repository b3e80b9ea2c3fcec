import MarketRules.Indicator.Series
import MarketRules.Rule.Meaning
import MarketRules.Strategy.Basic

/-!
# Signals

A strategy run over a series says for every bar whether its entry rule and its
exit rule hold there.  Each different indicator call is computed once.
-/

namespace MarketRules

/-- For every bar, whether the two rules hold. -/
structure Signals where
  /-- Where the entry rule holds. -/
  entry : List Bool
  /-- Where the exit rule holds. -/
  exit : List Bool
deriving DecidableEq

/-- Does a rule hold at the bar `index`, by the indicators that were computed? -/
def Rule.holdsAt (r : Rule) (bars : List Bar) (table : IndicatorTable) (index : Nat) : Bool :=
  r.holds (table.operandAt? bars index)

/-- The signals of a strategy. -/
def CheckedStrategy.signals (s : CheckedStrategy) (bars : List Bar) : Signals :=
  let table := IndicatorTable.ofCalls s.indicators bars
  { entry := (List.range bars.length).map (s.entry.holdsAt bars table)
    exit := (List.range bars.length).map (s.exit.holdsAt bars table) }

end MarketRules
