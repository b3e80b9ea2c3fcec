import MarketRules.Rule.Text

/-!
# Strategies

A strategy is an entry rule and an exit rule.  It is *checked* if it can be run:
neither rule is larger than the limit, and no indicator looks at zero bars.
-/

namespace MarketRules

/-- One of the two rules of a strategy. -/
inductive Clause where
  /-- The rule that opens a position. -/
  | entry
  /-- The rule that closes it. -/
  | exit
deriving DecidableEq

/-- The name of a clause. -/
def Clause.name : Clause → String
  | .entry => "entry"
  | .exit => "exit"

/-- When to open a position and when to close it. -/
structure Strategy where
  /-- The rule that opens a position. -/
  entry : Rule
  /-- The rule that closes it. -/
  exit : Rule := .never
deriving DecidableEq

namespace Strategy

/-- The rule of a clause. -/
def rule (s : Strategy) : Clause → Rule
  | .entry => s.entry
  | .exit => s.exit

/-- The different indicator calls of both rules, in the order in which they first
occur: those of the entry rule, and what is new in the exit rule. -/
def indicators (s : Strategy) : List IndicatorCall :=
  s.exit.indicators.foldl IndicatorCall.addNew s.entry.indicators

/-- The characters of `text`. -/
def chars (s : Strategy) : List Char :=
  "ENTRY: ".toList ++ s.entry.chars ++ " EXIT: ".toList ++ s.exit.chars

/-- The canonical text of a strategy. -/
def text (s : Strategy) : String := String.ofList s.chars

end Strategy

/-! ## Checked strategies -/

/-- Why a strategy cannot be run. -/
inductive StrategyError where
  /-- A rule has too many comparisons. -/
  | tooLarge (clause : Clause) (count : Nat)
  /-- An indicator looks at no bar. -/
  | zeroPeriod (call : IndicatorCall)
deriving DecidableEq

def StrategyError.message : StrategyError → String
  | .tooLarge clause count =>
    s!"{clause.name} rule has {decimal count} comparisons, limit is {decimal Rule.maxComparisons}"
  | .zeroPeriod call => s!"{call.text} has a zero period"

/-- A strategy that can be run. -/
structure CheckedStrategy extends Strategy where
  /-- Neither rule is larger than the limit. -/
  count_le : ∀ clause, (toStrategy.rule clause).comparisonCount ≤ Rule.maxComparisons
  /-- Every indicator looks at a bar. -/
  period_pos : ∀ call ∈ toStrategy.indicators, 0 < call.period

namespace Strategy

/-- The first fault of a strategy: the size of the entry rule, then that of the
exit rule, then the first indicator that looks at no bar. -/
def fault? (s : Strategy) : Option StrategyError :=
  if Rule.maxComparisons < s.entry.comparisonCount then
    some (.tooLarge .entry s.entry.comparisonCount)
  else if Rule.maxComparisons < s.exit.comparisonCount then
    some (.tooLarge .exit s.exit.comparisonCount)
  else (s.indicators.find? (·.period = 0)).map .zeroPeriod

/-- A strategy without a fault has what a checked one needs. -/
theorem checked_of_fault?_eq_none {s : Strategy} (h : s.fault? = none) :
    (∀ clause, (s.rule clause).comparisonCount ≤ Rule.maxComparisons) ∧
      ∀ call ∈ s.indicators, 0 < call.period := by
  unfold fault? at h
  split at h
  · cases h
  · next hentry =>
    split at h
    · cases h
    · next hexit =>
      refine ⟨fun clause => ?_, fun call hcall => ?_⟩
      · cases clause
        · exact Nat.le_of_not_lt hentry
        · exact Nat.le_of_not_lt hexit
      · have hnone := List.find?_eq_none.mp (Option.map_eq_none_iff.mp h) call hcall
        exact Nat.pos_of_ne_zero fun hzero => hnone (by simp [hzero])

/-- Check a strategy and give its first fault. -/
def check (s : Strategy) : Except StrategyError CheckedStrategy :=
  match h : s.fault? with
  | some e => .error e
  | none => .ok ⟨s, (checked_of_fault?_eq_none h).1, (checked_of_fault?_eq_none h).2⟩

end Strategy

/-- The largest number of bars that an indicator of the strategy has to see before
it has a value, the first such bar not counted. -/
def CheckedStrategy.warmup (s : CheckedStrategy) : Nat :=
  (s.indicators.map (·.period - 1)).foldl max 0

end MarketRules
