import MarketRules.Rule.Basic

/-!
# Rules as text

The canonical text of a rule.  Operators stand between single blanks, and
constants are in plain text.  `AND` and `OR` have the same rank and associate to
the left, so parentheses are needed only around a combined rule on the right.
-/

namespace MarketRules

/-- The characters of `IndicatorCall.text`. -/
def IndicatorCall.chars (c : IndicatorCall) : List Char :=
  c.kind.name.toList ++ '(' :: c.field.name.toList ++ ", ".toList ++ digits c.period ++ [')']

/-- An indicator call as text. -/
def IndicatorCall.text (c : IndicatorCall) : String := String.ofList c.chars

/-- The characters of an operand. -/
def Operand.chars : Operand → List Char
  | .value x => x.plainChars
  | .field f => f.name.toList
  | .indicator call => call.chars

/-- A text in parentheses. -/
def parenthesized (cs : List Char) : List Char := '(' :: cs ++ [')']

/-- The characters of `Rule.text`. -/
def Rule.chars : Rule → List Char
  | .compare op l r => l.chars ++ ' ' :: op.symbol.toList ++ ' ' :: r.chars
  | .combine op l (.compare op' l' r') =>
    l.chars ++ ' ' :: op.word.toList ++ ' ' :: (Rule.compare op' l' r').chars
  | .combine op l (.combine op' l' r') =>
    l.chars ++ ' ' :: op.word.toList ++ ' ' :: parenthesized (Rule.combine op' l' r').chars

/-- The canonical text of a rule. -/
def Rule.text (r : Rule) : String := String.ofList r.chars

example : Rule.never.text = "0 > 1" := by decide +kernel
example : (Rule.combine .and .never (.combine .or .never .never)).text =
    "0 > 1 AND (0 > 1 OR 0 > 1)" := by decide +kernel
example : (Rule.combine .and (.combine .or .never .never) .never).text =
    "0 > 1 OR 0 > 1 AND 0 > 1" := by decide +kernel

end MarketRules
