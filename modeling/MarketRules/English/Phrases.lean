import MarketRules.Number.Numeral
import MarketRules.Number.Shortest
import MarketRules.Rule.Text
import MarketRules.Text.Pattern

/-!
# Phrases

The English phrases that are understood, each with what it becomes in the rule
language.  A `Phrase` is a pattern and a rewriting of its matches.

The phrases are applied one after the other to a text in lower case, and their
order matters.  Indicators go first, since their words are also words of other
phrases.  Longer phrases for a field or a comparison go before the shorter ones
that they contain.  What a phrase writes is in upper case or consists of digits.
-/

namespace MarketRules

/-- A pattern with a rewriting of its matches. -/
structure Phrase where
  /-- What is looked for. -/
  pattern : Pattern
  /-- What is written for a match, given the pieces it remembered. -/
  rewrite : List (List Char) → List Char

/-- Rewrite every match in a text. -/
def Phrase.apply (p : Phrase) (cs : List Char) : List Char := p.pattern.replaceAll p.rewrite cs

namespace Phrase

open Pattern (text optional oneOrMore oneOf word edge most capture many one)

/-! ## Building blocks -/

/-- Blanks that may be missing. -/
def gap : Pattern := most .blank

/-- At least one blank. -/
def blanks : Pattern := oneOrMore .blank

/-- At least one digit. -/
def digitRun : Pattern := oneOrMore .digit

/-- Words with blanks between them. -/
def words : List String → Pattern
  | [] => text ""
  | [w] => text w
  | w :: ws => text w ++ (blanks ++ words ws)

/-- The phrase that becomes a fixed text. -/
def fixed (pattern : Pattern) (s : String) : Phrase := ⟨pattern, fun _ => s.toList⟩

/-! ## Indicators -/

/-- An indicator of the last price over the number of bars that was remembered. -/
def overClose (name : String) (pieces : List (List Char)) : List Char :=
  name.toList ++ "(CLOSE, ".toList ++ pieces.headD [] ++ [')']

/-- A number of days and the words `moving average`, as in
`20-day simple moving average`. -/
def movingAverage : Pattern :=
  capture digitRun ++ (gap ++ (optional (text "-" ++ gap) ++
    (optional (text "day" ++ (optional (text "s") ++ gap)) ++
      (optional (text "simple" ++ blanks) ++ (text "moving" ++ (gap ++ text "average"))))))

/-- A name with a number in parentheses, as in `sma(20)`. -/
def shortCall (name : String) : Pattern :=
  edge ++ (text name ++ (gap ++ (text "(" ++ (gap ++ (capture digitRun ++ (gap ++ text ")"))))))

def indicators : List Phrase :=
  [⟨movingAverage, overClose "SMA"⟩, ⟨shortCall "sma", overClose "SMA"⟩,
   ⟨shortCall "rsi", overClose "RSI"⟩]

/-! ## Fields -/

/-- A phrase for a field. -/
def forField (pattern : Pattern) (f : PriceField) : Phrase := fixed (word pattern) f.name

def fields : List Phrase :=
  [forField (text "clos" ++ ((text "e" <|> text "ing") ++ (blanks ++ text "price"))) .closing,
   forField (text "open" ++ (optional (text "ing") ++ (blanks ++ text "price"))) .opening,
   forField (words ["high", "price"]) .high,
   forField (words ["low", "price"]) .low,
   forField (words ["trading", "volume"]) .volume,
   forField (text "close") .closing,
   forField (text "volume") .volume,
   forField (text "high") .high,
   forField (text "low") .low,
   forField (text "open") .opening,
   forField (text "price") .closing]

/-! ## Comparisons and connectives -/

/-- The word `is`, which may be missing, in front of a piece. -/
def afterIs (pattern : Pattern) : Pattern := optional (text "is" ++ blanks) ++ pattern

/-- A phrase for a comparison. -/
def forComparison (pattern : Pattern) (op : CompareOp) : Phrase :=
  fixed (word pattern) (" " ++ op.word ++ " ")

def comparisons : List Phrase :=
  [forComparison (afterIs (words ["greater", "than", "or", "equal", "to"])) .atLeast,
   forComparison (afterIs (words ["less", "than", "or", "equal", "to"])) .atMost,
   forComparison (afterIs (words ["at", "least"])) .atLeast,
   forComparison (afterIs (words ["at", "most"])) .atMost,
   forComparison (afterIs (words ["not", "equal", "to"])) .notEqual,
   forComparison (afterIs (text "above")) .greater,
   forComparison (afterIs ((text "greater" <|> text "higher" <|> text "more") ++
     (blanks ++ text "than"))) .greater,
   forComparison (afterIs (text "below")) .less,
   forComparison (afterIs ((text "less" <|> text "lower") ++ (blanks ++ text "than"))) .less,
   forComparison (afterIs (words ["equal", "to"])) .equal,
   forComparison (text "equals") .equal]

def connectives : List Phrase :=
  [fixed (word (text "and")) " AND ", fixed (word (text "or")) " OR "]

/-! ## Numbers -/

/-- Digits in groups of three with commas between them. -/
def digitGroups : Pattern :=
  let group := text "," ++ (one .digit ++ (one .digit ++ one .digit))
  word (capture (one .digit ++ (optional (one .digit ++ optional (one .digit)) ++
    (group ++ many group))))

/-- The number that a unit stands for. -/
def unitValue (unit : List Char) : Binary64 :=
  if unit = "thousand".toList then .ofNat (Nat.pow 10 3)
  else if unit = "million".toList then .ofNat (Nat.pow 10 6)
  else .ofNat (Nat.pow 10 9)

/-- A number and a unit as one number.  Digits that are no numeral stay as they
are. -/
def expandUnit : List (List Char) → List Char
  | number :: unit :: _ =>
    match readNumeral? number with
    | some x => (x * unitValue unit).plainChars
    | none => number ++ ' ' :: unit
  | _ => []

/-- A number with a unit, as in `1.5 million`. -/
def withUnit : Pattern :=
  capture (digitRun ++ optional (text "." ++ digitRun)) ++
    (gap ++ (capture (text "thousand" <|> text "million" <|> text "billion") ++ edge))

def numbers : List Phrase :=
  [⟨digitGroups, fun pieces => (pieces.headD []).filter (· ≠ ',')⟩, ⟨withUnit, expandUnit⟩]

/-! ## Words without meaning -/

/-- The words that are left out. -/
def fillerWords : List String :=
  ["the", "a", "an", "is", "are", "it", "its", "when", "if", "than", "of", "by", "drops", "drop",
   "falls", "fall", "goes", "go", "moves", "move", "gets", "get", "rises", "rise", "day", "days",
   "average"]

/-- The phrase that leaves them out. -/
def fillers : Phrase := fixed (word (oneOf (text "the") (fillerWords.tail.map text))) " "

/-- All phrases in their order. -/
def all : List Phrase :=
  indicators ++ fields ++ comparisons ++ connectives ++ numbers ++ [fillers]

end Phrase

end MarketRules
