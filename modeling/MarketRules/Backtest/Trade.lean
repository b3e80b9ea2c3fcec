import MarketRules.Market.Bar

/-!
# Positions and trades

A position is opened at the last price of a day, and closing it at the last price
of another day makes a trade.
-/

namespace MarketRules

/-- A position that is held. -/
structure Position where
  /-- The day on which it was opened. -/
  entryDate : Date
  /-- The price that was paid. -/
  entryPrice : Binary64
deriving DecidableEq

/-- A position that was closed. -/
structure Trade where
  /-- The day on which it was opened. -/
  entryDate : Date
  /-- The price that was paid. -/
  entryPrice : Binary64
  /-- The day on which it was closed. -/
  exitDate : Date
  /-- The price that was received. -/
  exitPrice : Binary64
  /-- The gain as a fraction of the price that was paid. -/
  gain : Binary64
deriving DecidableEq

/-- The gain of a position at a price, as a fraction of the price that was
paid. -/
def Position.gainAt (p : Position) (price : Binary64) : Binary64 := price / p.entryPrice - 1

/-- Close a position. -/
def Position.close (p : Position) (date : Date) (price : Binary64) : Trade where
  entryDate := p.entryDate
  entryPrice := p.entryPrice
  exitDate := date
  exitPrice := price
  gain := p.gainAt price

/-- The number of days a position was held. -/
def Trade.days (t : Trade) : Int := t.entryDate.daysUntil t.exitDate

end MarketRules
