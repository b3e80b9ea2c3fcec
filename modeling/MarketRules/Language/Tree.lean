import MarketRules.Language.Token

/-!
# Parse trees

The grammar of the rule language, as a type of trees.

* strategy: `ENTRY:` rule `EXIT:` rule
* rule: conditions with a connective between each two
* condition: comparison, or rule in parentheses
* comparison: operand operator operand
* operand: field, number, or indicator name `(` field `,` number `)`

A tree holds every token of its text, and `tokens` lists them from left to right.
A chain of conditions is a tree that leans to the left, since connectives
associate that way.
-/

namespace MarketRules

/-! ## Trees -/

/-- An operand with its tokens. -/
inductive OperandTree where
  | field (token : Token) (f : PriceField)
  | number (token : Token)
  | call (name leftParen field : Token) (f : PriceField) (comma period rightParen : Token)
deriving DecidableEq

/-- A comparison with its tokens. -/
structure ComparisonTree where
  left : OperandTree
  /-- The token of the operator. -/
  token : Token
  op : CompareOp
  right : OperandTree
deriving DecidableEq

mutual

/-- A chain of conditions with its tokens. -/
inductive RuleTree where
  | one (condition : ConditionTree)
  /-- A chain, a connective and one more condition. -/
  | chain (before : RuleTree) (token : Token) (op : LogicOp) (last : ConditionTree)

/-- A condition with its tokens. -/
inductive ConditionTree where
  | comparison (c : ComparisonTree)
  /-- A rule in parentheses. -/
  | group (leftParen : Token) (rule : RuleTree) (rightParen : Token)

end

/-- A strategy with its tokens. -/
structure StrategyTree where
  entryLabel : Token
  entry : RuleTree
  exitLabel : Token
  exit : RuleTree

/-! ## The tokens of a tree -/

/-- The tokens of an operand. -/
def OperandTree.tokens : OperandTree → List Token
  | .field t _ => [t]
  | .number t => [t]
  | .call name lp ft _ comma period rp => [name, lp, ft, comma, period, rp]

/-- The tokens of a comparison. -/
def ComparisonTree.tokens (c : ComparisonTree) : List Token :=
  c.left.tokens ++ c.token :: c.right.tokens

mutual

/-- The tokens of a chain. -/
def RuleTree.tokens : RuleTree → List Token
  | .one c => c.tokens
  | .chain before t _ last => before.tokens ++ t :: last.tokens

/-- The tokens of a condition. -/
def ConditionTree.tokens : ConditionTree → List Token
  | .comparison c => c.tokens
  | .group lp rule rp => lp :: rule.tokens ++ [rp]

end

/-- The tokens of a strategy. -/
def StrategyTree.tokens (s : StrategyTree) : List Token :=
  s.entryLabel :: s.entry.tokens ++ s.exitLabel :: s.exit.tokens

end MarketRules
