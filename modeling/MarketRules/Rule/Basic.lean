import MarketRules.Market.Bar

/-!
# Rules

A rule says of every bar whether something holds there.  It is a tree: at the
leaves two operands are compared, and above them rules are combined by `AND` and
`OR`.  An operand is a constant, a field of the bar, or an indicator computed
from one field over a number of bars.
-/

namespace MarketRules

/-! ## Operators -/

/-- How two operands are compared. -/
inductive CompareOp where
  | greater
  | less
  | atLeast
  | atMost
  | equal
  | notEqual
deriving DecidableEq

namespace CompareOp

/-- The comparisons. -/
def all : List CompareOp := [.greater, .less, .atLeast, .atMost, .equal, .notEqual]

/-- The symbol of a comparison. -/
def symbol : CompareOp → String
  | .greater => ">"
  | .less => "<"
  | .atLeast => ">="
  | .atMost => "<="
  | .equal => "=="
  | .notEqual => "!="

/-- The word for a comparison. -/
def word : CompareOp → String
  | .greater => "GT"
  | .less => "LT"
  | .atLeast => "GTE"
  | .atMost => "LTE"
  | .equal => "EQ"
  | .notEqual => "NEQ"

/-- The comparison with a symbol or a word, in any ASCII letter case. -/
def ofName? (s : String) : Option CompareOp :=
  all.find? fun op => s == op.symbol || sameIgnoringAsciiCase s op.word

theorem ofName?_symbol (op : CompareOp) : ofName? op.symbol = some op := by
  cases op <;> decide

theorem ofName?_word (op : CompareOp) : ofName? op.word = some op := by
  cases op <;> decide

end CompareOp

/-- How two rules are combined. -/
inductive LogicOp where
  | and
  | or
deriving DecidableEq

namespace LogicOp

/-- The connectives. -/
def all : List LogicOp := [.and, .or]

/-- The word for a connective. -/
def word : LogicOp → String
  | .and => "AND"
  | .or => "OR"

/-- The connective with a word, in any ASCII letter case. -/
def ofName? (s : String) : Option LogicOp := all.find? fun op => sameIgnoringAsciiCase s op.word

theorem ofName?_word (op : LogicOp) : ofName? op.word = some op := by
  cases op <;> decide

end LogicOp

/-! ## Operands -/

/-- The indicators that can be computed. -/
inductive IndicatorKind where
  /-- The mean of the last bars. -/
  | movingAverage
deriving DecidableEq

namespace IndicatorKind

/-- The name of an indicator. -/
def name : IndicatorKind → String
  | .movingAverage => "SMA"

/-- The indicator with a name, in any ASCII letter case.  A name of anything
else, such as `RSI`, is unknown. -/
def ofName? (s : String) : Option IndicatorKind :=
  [movingAverage].find? fun k => sameIgnoringAsciiCase s k.name

theorem ofName?_name (k : IndicatorKind) : ofName? k.name = some k := by
  cases k; decide

end IndicatorKind

/-- An indicator of one field over a number of bars. -/
structure IndicatorCall where
  kind : IndicatorKind
  /-- The field it is computed from. -/
  field : PriceField
  /-- The number of bars it looks at. -/
  period : Nat
deriving DecidableEq

/-- Put a call behind those found before, unless it is one of them. -/
def IndicatorCall.addNew (found : List IndicatorCall) (call : IndicatorCall) :
    List IndicatorCall :=
  if call ∈ found then found else found ++ [call]

/-- What a comparison compares. -/
inductive Operand where
  | value (x : Binary64)
  | field (f : PriceField)
  | indicator (call : IndicatorCall)
deriving DecidableEq

/-- The call of an operand that is an indicator. -/
def Operand.call? : Operand → Option IndicatorCall
  | .indicator call => some call
  | _ => none

/-! ## Rules -/

/-- A tree of comparisons. -/
inductive Rule where
  | compare (op : CompareOp) (left right : Operand)
  | combine (op : LogicOp) (left right : Rule)
deriving DecidableEq

namespace Rule

/-- The rule `0 > 1`, which never holds. -/
def never : Rule := .compare .greater (.value 0) (.value 1)

/-- The number of nodes of a rule. -/
def nodes : Rule → Nat
  | .compare .. => 1
  | .combine _ l r => l.nodes + r.nodes + 1

/-- Count the comparisons of the rules on a stack, from `count` on.  A rule that is
combined leaves its two sides on the stack. -/
@[semireducible]
def countPending (count : Nat) : List Rule → Nat
  | [] => count
  | .compare .. :: pending => countPending (count + 1) pending
  | .combine _ l r :: pending => countPending count (r :: l :: pending)
termination_by pending => (pending.map nodes).foldr (· + ·) 0
decreasing_by
  all_goals simp only [List.map_cons, List.foldr_cons, nodes]; omega

/-- The number of comparisons in a rule.  A stack stands in for the recursion, so the
rule can be of any depth. -/
def comparisonCount (r : Rule) : Nat := countPending 0 [r]

/-- The most comparisons a rule may have. -/
def maxComparisons : Nat := 256

/-- The operands of a rule from left to right. -/
def operands : Rule → List Operand
  | .compare _ l r => [l, r]
  | .combine _ l r => l.operands ++ r.operands

/-- The indicator calls of a rule from left to right. -/
def calls (r : Rule) : List IndicatorCall := r.operands.filterMap Operand.call?

/-- Put the indicator calls of a rule that are new behind those found before, in the
order in which they first occur. -/
def collect (found : List IndicatorCall) : Rule → List IndicatorCall
  | .compare _ l r => ([l, r].filterMap Operand.call?).foldl IndicatorCall.addNew found
  | .combine _ l r => r.collect (l.collect found)

/-- The different indicator calls of a rule, in the order in which they first
occur. -/
def indicators (r : Rule) : List IndicatorCall := r.collect []

/-! ## The stack -/

theorem countPending_nil (count : Nat) : countPending count [] = count := by
  rw [countPending]

theorem comparisonCount_compare (op : CompareOp) (l r : Operand) :
    (compare op l r).comparisonCount = 1 := by
  rw [comparisonCount, countPending, countPending_nil]

/-- A rule on the stack is counted in full before those below it. -/
theorem countPending_cons (r : Rule) : ∀ (count : Nat) (pending : List Rule),
    countPending count (r :: pending) = countPending (count + r.comparisonCount) pending := by
  induction r with
  | compare op l r =>
    intro count pending
    rw [countPending, comparisonCount_compare]
  | combine op l r ihl ihr =>
    intro count pending
    have whole : (combine op l r).comparisonCount = r.comparisonCount + l.comparisonCount := by
      rw [comparisonCount, countPending, ihr, ihl, countPending_nil, Nat.zero_add]
    rw [countPending, ihr, ihl, whole, Nat.add_assoc]

/-- The count of a combined rule is that of its parts, although it is taken with a stack. -/
theorem comparisonCount_combine (op : LogicOp) (l r : Rule) :
    (combine op l r).comparisonCount = l.comparisonCount + r.comparisonCount := by
  rw [comparisonCount, countPending, countPending_cons, countPending_cons, countPending_nil,
    Nat.zero_add, Nat.add_comm]

/-- Every rule has a comparison. -/
theorem comparisonCount_pos (r : Rule) : 0 < r.comparisonCount := by
  induction r with
  | compare op l r =>
    rw [comparisonCount_compare]
    exact Nat.one_pos
  | combine op l r ihl _ =>
    rw [comparisonCount_combine]
    exact Nat.lt_of_lt_of_le ihl (Nat.le_add_right _ _)

end Rule

end MarketRules
