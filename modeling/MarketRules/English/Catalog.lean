import MarketRules.Text.Blank
import MarketRules.Text.Casing

/-!
# Examples

What a person is shown who wants to know which sentences are understood: a few
strategies in English, and the supported phrases by subject.
-/

namespace MarketRules

/-! ## Strategies -/

/-- A strategy in English with a name. -/
structure ExampleStrategy where
  name : String
  /-- The sentences. -/
  text : String
deriving DecidableEq

namespace ExampleStrategy

def all : List ExampleStrategy := [
  { name := "Moving Average"
    text := "Buy when close is above 20-day moving average and volume is above 1 million. "
      ++ "Sell when close drops below 50-day moving average." },
  { name := "Breakout"
    text := "Enter when close is above 30-day moving average. "
      ++ "Exit when close falls below 10-day moving average." },
  { name := "Volume Breakout"
    text := "Buy when volume is greater than 2 million and close price is above "
      ++ "the 20-day moving average. Sell when volume drops below 500000." }]

/-- The example with a name, in any ASCII letter case and with blanks around it. -/
def ofName? (name : String) : Option ExampleStrategy :=
  all.find? fun e => sameIgnoringAsciiCase e.name (trimText name)

end ExampleStrategy

/-! ## Phrases -/

/-- Phrases on one subject. -/
structure PhraseGroup where
  title : String
  phrases : List String
deriving DecidableEq

/-- The supported phrases. -/
def PhraseGroup.all : List PhraseGroup := [
  ⟨"Price Fields", ["close price", "volume", "high", "low", "open"]⟩,
  ⟨"Comparison Operators", ["above", "below", "greater than", "less than", "equal to"]⟩,
  ⟨"Indicators", ["20-day moving average", "50 day moving average",
    "RSI(14), RSI(21) (recognized, not yet computable)"]⟩,
  ⟨"Logic", ["and", "or (with any amount of parentheses)"]⟩,
  ⟨"Numbers", ["1 million", "2 million", "500000", "1,200,000"]⟩,
  ⟨"Entry/Exit", ["buy when", "enter when", "sell when", "exit when"]⟩]

example : (ExampleStrategy.ofName? " breakout ").map (·.name) = some "Breakout" := by
  decide +kernel

end MarketRules
