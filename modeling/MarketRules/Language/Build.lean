import MarketRules.Language.Parse
import MarketRules.Strategy.Basic

/-!
# From trees to strategies

A tree becomes a strategy when its names and numbers are looked up: a number has
to be finite, an indicator has to be known, and its period has to be a whole
number of bars.  A rule is read from left to right, and the first fault counts.
Parentheses leave no trace of their own, since the shape of the tree holds what
they say.
-/

namespace MarketRules

/-! ## Errors -/

/-- Why a tree is not a strategy. -/
inductive BuildError where
  /-- There is no indicator with this name. -/
  | unknownIndicator (name : String)
  /-- A text is neither a finite number nor a field. -/
  | notAnOperand (text : String)
  /-- A period is not a positive whole number. -/
  | badPeriod (text : String)
deriving DecidableEq

/-! ## Operands -/

/-- The largest period, which is the largest number of 64 bits. -/
def maxPeriod : Nat := 18446744073709551615

/-- The period that a number stands for: a whole number of at least one.  The first
number past the largest period stands for the largest period. -/
def periodOf? (x : Binary64) : Option Nat :=
  x.whole?.bind fun n =>
    if 1 ≤ n ∧ n ≤ maxPeriod + 1 then some (min n.toNat maxPeriod) else none

/-- The operand that is written with one word or number. -/
def Operand.ofText (text : String) : Except BuildError Operand :=
  match (readNumeral? text.toList).filter Binary64.isFinite, PriceField.ofName? text with
  | some x, _ => .ok (.value x)
  | none, some f => .ok (.field f)
  | none, none => .error (.notAnOperand text)

/-- An indicator call from its name, its field and the text of its period. -/
def IndicatorCall.ofTexts (name : String) (f : PriceField) (period : String) :
    Except BuildError IndicatorCall :=
  match IndicatorKind.ofName? name, (readNumeral? period.toList).bind periodOf? with
  | none, _ => .error (.unknownIndicator name)
  | some _, none => .error (.badPeriod period)
  | some kind, some n => .ok ⟨kind, f, n⟩

/-! ## Rules -/

/-- The operand of a tree. -/
def OperandTree.build : OperandTree → Except BuildError Operand
  | .field _ f => .ok (.field f)
  | .number t => Operand.ofText t.text
  | .call name _ _ f _ period _ => (IndicatorCall.ofTexts name.text f period.text).map .indicator

/-- The rule of a comparison. -/
def ComparisonTree.build (c : ComparisonTree) : Except BuildError Rule := do
  let left ← c.left.build
  let right ← c.right.build
  return .compare c.op left right

mutual

/-- The rule of a chain. -/
def RuleTree.build : RuleTree → Except BuildError Rule
  | .one c => c.build
  | .chain before _ op last => do
    let left ← before.build
    let right ← last.build
    return .combine op left right

/-- The rule of a condition. -/
def ConditionTree.build : ConditionTree → Except BuildError Rule
  | .comparison c => c.build
  | .group _ rule _ => rule.build

end

/-- The strategy of a tree. -/
def StrategyTree.build (s : StrategyTree) : Except BuildError Strategy := do
  let entry ← s.entry.build
  let exit ← s.exit.build
  return { entry, exit }

end MarketRules
