import MarketRules.Backtest.Run
import MarketRules.Backtest.Stats
import MarketRules.Number.Shortest

/-!
# Reports as JSON

A JSON document and its text, in which every element of a list and every member
of an object stands on a line of its own, and the document of a report.
-/

namespace MarketRules

/-! ## Documents -/

/-- A JSON document. -/
inductive JsonDocument where
  /-- Nothing. -/
  | null
  | number (x : Binary64)
  /-- A count. -/
  | count (n : Nat)
  | text (s : String)
  | list (elements : List JsonDocument)
  /-- An object with its members in order. -/
  | object (members : List (String × JsonDocument))

namespace JsonDocument

/-- A document that may be missing. -/
def ofOption {α : Type} (f : α → JsonDocument) : Option α → JsonDocument
  | some x => f x
  | none => .null

/-! ## Numbers -/

/-- A decimal in scientific notation. -/
def scientific (d : Decimal) : List Char :=
  let exponent := d.point - 1
  d.digits.take 1 ++ (if d.digits.length ≤ 1 then [] else '.' :: d.digits.drop 1)
    ++ 'e' :: (if exponent < 0 then '-' else '+') :: digits exponent.natAbs

/-- A decimal: positional from `10^-5` up to `10^16`, with a point in any case, and
scientific outside these bounds. -/
def decimalChars (d : Decimal) : List Char :=
  if -5 < d.point ∧ d.point ≤ 16 then
    d.positional ++ if d.digits.length ≤ d.point then ".0".toList else []
  else scientific d

/-- A number: its shortest decimal, the even one of two.  What is not finite has no
number in JSON. -/
def numberChars : Binary64 → List Char
  | .finite n m e _ =>
    Binary64.sign n ++
      if m = 0 then "0.0".toList else decimalChars (Binary64.shortest .even m e)
  | _ => "null".toList

/-! ## Text -/

/-- A character of a text in quotes.  Quotes, backslashes and control characters are
escaped. -/
def quotedChar (c : Char) : List Char :=
  if c = '"' then ['\\', '"']
  else if c = '\\' then ['\\', '\\']
  else if c = '\n' then ['\\', 'n']
  else if c = '\r' then ['\\', 'r']
  else if c = '\t' then ['\\', 't']
  else if c = '\x08' then ['\\', 'b']
  else if c = '\x0c' then ['\\', 'f']
  else if c.toNat < 32 then
    ['\\', 'u', '0', '0', Nat.digitChar (c.toNat / 16), Nat.digitChar (c.toNat % 16)]
  else [c]

/-- A text in quotes. -/
def quoted (cs : List Char) : List Char := '"' :: cs.flatMap quotedChar ++ ['"']

/-! ## Layout -/

/-- The beginning of a line at a depth. -/
def newLine (depth : Nat) : List Char := '\n' :: List.replicate (2 * depth) ' '

/-- Items between brackets, each on a line of its own one level deeper. -/
def block (depth : Nat) (opening closing : Char) (items : List (List Char)) : List Char :=
  if items = [] then [opening, closing]
  else
    opening :: List.intercalate [','] (items.map (newLine (depth + 1) ++ ·))
      ++ newLine depth ++ [closing]

mutual

/-- A document that begins at a depth, as characters. -/
def chars (depth : Nat) : JsonDocument → List Char
  | .null => "null".toList
  | .number x => numberChars x
  | .count n => digits n
  | .text s => quoted s.toList
  | .list elements => block depth '[' ']' (elementChars (depth + 1) elements)
  | .object members => block depth '\x7b' '\x7d' (memberChars (depth + 1) members)

/-- The elements of a list. -/
def elementChars (depth : Nat) : List JsonDocument → List (List Char)
  | [] => []
  | d :: ds => chars depth d :: elementChars depth ds

/-- The members of an object. -/
def memberChars (depth : Nat) : List (String × JsonDocument) → List (List Char)
  | [] => []
  | (name, d) :: ms => (quoted name.toList ++ ": ".toList ++ chars depth d) :: memberChars depth ms

end

/-- The text of a document. -/
def render (d : JsonDocument) : String := String.ofList (d.chars 0)

end JsonDocument

/-! ## Reports -/

def Date.json (d : Date) : JsonDocument := .text d.text

def Trade.json (t : Trade) : JsonDocument :=
  .object [
    ("entry_date", t.entryDate.json),
    ("entry_price", .number t.entryPrice),
    ("exit_date", t.exitDate.json),
    ("exit_price", .number t.exitPrice),
    ("return", .number t.gain)]

def Position.json (p : Position) : JsonDocument :=
  .object [("entry_date", p.entryDate.json), ("entry_price", .number p.entryPrice)]

def TradeStats.json (s : TradeStats) : JsonDocument :=
  .object [
    ("trades_won", .count s.won),
    ("trades_lost", .count s.lost),
    ("trades_breakeven", .count s.even),
    ("win_rate", .number s.winRate),
    ("avg_return", .number s.averageGain),
    ("avg_win", .number s.averageWin),
    ("avg_loss", .number s.averageLoss),
    ("best_return", .number s.best),
    ("worst_return", .number s.worst),
    ("avg_holding_days", .number s.averageDays)]

/-- A report on a strategy as JSON. -/
def Report.json (r : Report) (strategy : Strategy) : JsonDocument :=
  .object [
    ("strategy", .text strategy.text),
    ("total_return", .number r.totalReturn),
    ("max_drawdown", .number r.maxDrawdown),
    ("trade_count", .count r.tradeCount),
    ("trades", .list (r.trades.map Trade.json)),
    ("equity_curve", .list (r.equityCurve.map .number)),
    ("open_position", .ofOption Position.json r.openPosition),
    ("stats", (TradeStats.ofTrades r.trades).json)]

/-! ## Tests -/

example : (JsonDocument.number 1).render = "1.0" ∧
    (JsonDocument.number (.ofRatio true 1 8)).render = "-0.125" := by decide +kernel
example : (JsonDocument.number (.ofNat (10 ^ 16))).render = "1e+16" ∧
    (JsonDocument.number (.ofNat (10 ^ 15))).render = "1000000000000000.0" := by decide +kernel
example : (JsonDocument.number (.ofRatio false 1 100000)).render = "0.00001" ∧
    (JsonDocument.number (.ofRatio false 1 800000)).render = "1.25e-6" := by decide +kernel

end MarketRules
