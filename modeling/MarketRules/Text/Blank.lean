/-!
# Blanks

A blank is a character of the Unicode property `White_Space`.  The control
characters U+001C to U+001F and the zero-width characters are no blanks.
-/

namespace MarketRules

/-- Is the character white space? -/
def isBlank (c : Char) : Bool :=
  let n := c.toNat
  (9 ≤ n && n ≤ 13) || n == 0x20 || n == 0x85 || n == 0xa0 || n == 0x1680
    || (0x2000 ≤ n && n ≤ 0x200a) || n == 0x2028 || n == 0x2029 || n == 0x202f || n == 0x205f
    || n == 0x3000

/-- The text without the blanks at its start. -/
def trimStart (cs : List Char) : List Char := cs.dropWhile isBlank

/-- The text without the blanks at its end. -/
def trimEnd (cs : List Char) : List Char := (cs.reverse.dropWhile isBlank).reverse

/-- The text without the blanks at either end. -/
def trim (cs : List Char) : List Char := trimEnd (trimStart cs)

/-- The text without the blanks at either end. -/
def trimText (s : String) : String := String.ofList (trim s.toList)

example : trimText "  a b \u3000" = "a b" ∧ trimText "\u200b" = "\u200b" := by decide

end MarketRules
