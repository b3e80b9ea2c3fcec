/-!
# Ranges of code points

A character class of the Unicode standard is a set of code points, held as a
list of ranges with both ends included.
-/

namespace MarketRules

/-- Ranges of code points, each with its first and last. -/
abbrev CodeRanges := List (Nat × Nat)

/-- Does a character lie in one of the ranges? -/
def CodeRanges.contains (ranges : CodeRanges) (c : Char) : Bool :=
  ranges.any fun (first, last) => first ≤ c.toNat && c.toNat ≤ last

end MarketRules
