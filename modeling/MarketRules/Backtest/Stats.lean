import MarketRules.Backtest.Trade

/-!
# Trade statistics

Figures on a list of trades.  A trade is won if its gain is positive, lost if it
is negative, and even otherwise.  Without trades every figure is zero.
-/

namespace MarketRules

/-- Figures on a list of trades. -/
structure TradeStats where
  /-- How many trades were won. -/
  won : Nat
  /-- How many were lost. -/
  lost : Nat
  /-- How many were neither. -/
  even : Nat
  /-- The share of the trades that were won. -/
  winRate : Binary64
  /-- The mean gain. -/
  averageGain : Binary64
  /-- The mean gain of the trades that were won. -/
  averageWin : Binary64
  /-- The mean gain of the trades that were lost. -/
  averageLoss : Binary64
  /-- The largest gain. -/
  best : Binary64
  /-- The smallest gain. -/
  worst : Binary64
  /-- The mean number of days between entry and exit. -/
  averageDays : Binary64
deriving DecidableEq

namespace TradeStats

/-- Was the gain positive? -/
def isWin (gain : Binary64) : Bool := Binary64.lt 0 gain

/-- Was the gain negative? -/
def isLoss (gain : Binary64) : Bool := gain.lt 0

/-- The sum of a list of numbers, from left to right. -/
def total (xs : List Binary64) : Binary64 := xs.foldl (· + ·) 0

/-- The quotient of a sum and a number of terms, zero for no terms. -/
def mean (sum : Binary64) (count : Nat) : Binary64 := if count = 0 then 0 else sum / .ofNat count

/-- The figures on a list of trades. -/
def ofTrades (trades : List Trade) : TradeStats :=
  let gains := trades.map Trade.gain
  let wins := gains.filter isWin
  let losses := gains.filter isLoss
  { won := wins.length
    lost := losses.length
    even := (gains.filter fun g => !isWin g && !isLoss g).length
    winRate := mean (.ofNat wins.length) gains.length
    averageGain := mean (total gains) gains.length
    averageWin := mean (total wins) wins.length
    averageLoss := mean (total losses) losses.length
    best := if gains = [] then 0 else gains.foldl .max (.infinite true)
    worst := if gains = [] then 0 else gains.foldl .min (.infinite false)
    averageDays := mean (.ofInt ((trades.map Trade.days).foldr (· + ·) 0)) gains.length }

end TradeStats

end MarketRules
