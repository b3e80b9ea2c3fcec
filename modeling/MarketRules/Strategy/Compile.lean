import MarketRules.English.Translation
import MarketRules.Language.Build
import MarketRules.Strategy.Basic

/-!
# From text to checked strategies

A text of the rule language is parsed, its names and numbers are looked up, and
the strategy is checked.  An English sentence is translated first.
-/

namespace MarketRules

/-- Why a text is not a strategy that can be run. -/
inductive CompileError where
  /-- The text is not a sentence of the language. -/
  | parsing (e : SyntaxError)
  /-- A name or a number in it means nothing. -/
  | building (e : BuildError)
  /-- The strategy cannot be run. -/
  | checking (e : StrategyError)
deriving DecidableEq

namespace CompileError

def message : CompileError → String
  | .parsing e => e.text
  | .building (.unknownIndicator name) => s!"unknown indicator '{name}'"
  | .building (.notAnOperand text) =>
    s!"malformed rule tree: '{text}' is neither a number nor a price field"
  | .building (.badPeriod text) =>
    s!"malformed rule tree: indicator period must be a positive integer, got {text}"
  | .checking e => s!"malformed rule tree: {e.message}"

/-- The wording of the fault for a reader who has the text before him. -/
def inContext (text : String) : CompileError → String
  | .parsing e => "failed to parse strategy:\n" ++ e.inContext text
  | e => e.message

end CompileError

/-- The strategy of a text in the rule language. -/
def Strategy.ofText (text : String) : Except CompileError Strategy := do
  let tree ← (StrategyTree.ofText text).mapError .parsing
  tree.build.mapError .building

/-- Check a strategy. -/
def CheckedStrategy.ofStrategy (s : Strategy) : Except CompileError CheckedStrategy :=
  s.check.mapError .checking

/-- The checked strategy of a text in the rule language. -/
def CheckedStrategy.ofText (text : String) : Except CompileError CheckedStrategy := do
  CheckedStrategy.ofStrategy (← Strategy.ofText text)

/-- The checked strategy of an English sentence. -/
def CheckedStrategy.ofEnglish (sentence : String) : Except CompileError CheckedStrategy :=
  CheckedStrategy.ofText (Translation.ofText sentence).strategyText

end MarketRules
