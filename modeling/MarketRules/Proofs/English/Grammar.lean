import MarketRules.Proofs.Language.Spelling

/-!
# English rules

The part of English that is translated word for word:

```text
rule       := condition ((" and " | " or ") condition)*
condition  := comparison | "(" rule ")"
comparison := operand " " comparison_phrase " " operand
operand    := ["the "] field_phrase | number | days ("-" | " ") "day moving average"
```

A rule is a tree with a piece of text at every place.  There are finitely many
pieces besides numbers, and each of them has a wording in English and one in the
rule language, which are spelled out side by side.  `EnglishRule.text` puts a rule
down in either.
-/

namespace MarketRules

/-! ## Phrases -/

/-- The phrases for a field, each with the name of the field. -/
def fieldPhrases : List (String × String) :=
  [("close price", "CLOSE"), ("closing price", "CLOSE"), ("close", "CLOSE"), ("price", "CLOSE"),
   ("open price", "OPEN"), ("opening price", "OPEN"), ("open", "OPEN"),
   ("high price", "HIGH"), ("high", "HIGH"), ("low price", "LOW"), ("low", "LOW"),
   ("trading volume", "VOLUME"), ("volume", "VOLUME")]

/-- The phrases for a comparison that can stand behind `is`, each with the word for the
comparison. -/
def plainComparisons : List (String × String) :=
  [("above", "GT"), ("greater than", "GT"), ("higher than", "GT"), ("more than", "GT"),
   ("below", "LT"), ("less than", "LT"), ("lower than", "LT"),
   ("at least", "GTE"), ("greater than or equal to", "GTE"),
   ("at most", "LTE"), ("less than or equal to", "LTE"),
   ("equal to", "EQ"), ("not equal to", "NEQ")]

/-- The phrases for a comparison. -/
def comparisonPhrases : List (String × String) :=
  plainComparisons ++ plainComparisons.map (fun (phrase, word) => ("is " ++ phrase, word)) ++
    [("equals", "EQ")]

/-- One of the phrases for a field. -/
abbrev FieldPhrase := { phrase // phrase ∈ fieldPhrases }

/-- One of the phrases for a comparison. -/
abbrev ComparisonPhrase := { phrase // phrase ∈ comparisonPhrases }

/-- A number of days in ASCII digits. -/
structure DayCount where
  digits : List Char
  ne_nil : digits ≠ []
  isDigit : ∀ c ∈ digits, c.isDigit = true

/-- The text between the digits and the end of a moving average. -/
def averageWords (hyphen : Bool) : String :=
  if hyphen then "-day moving average" else " day moving average"

/-! ## Pieces -/

/-- A piece of a rule in English. -/
inductive EnglishPiece where
  | article
  | field (phrase : FieldPhrase)
  | number (n : PlainNumeral)
  | average (days : DayCount) (hyphen : Bool)
  | comparison (phrase : ComparisonPhrase)
  | connective (op : LogicOp)

namespace EnglishPiece

/-- The wording in English, with the blanks around it. -/
def english : EnglishPiece → List Char
  | article => "the ".toList
  | field phrase => phrase.1.1.toList
  | number n => n.chars
  | average days hyphen => days.digits ++ (averageWords hyphen).toList
  | comparison phrase => " ".toList ++ phrase.1.1.toList ++ " ".toList
  | connective .and => " and ".toList
  | connective .or => " or ".toList

/-- The wording in the rule language. -/
def language : EnglishPiece → List Char
  | article => []
  | field phrase => phrase.1.2.toList
  | number n => n.chars
  | average days _ => "SMA(CLOSE, ".toList ++ days.digits ++ ")".toList
  | comparison phrase => " ".toList ++ phrase.1.2.toList ++ " ".toList
  | connective .and => " AND ".toList
  | connective .or => " OR ".toList

/-- The pieces that are words. -/
def words : List EnglishPiece :=
  article :: (fieldPhrases.attach.map field ++
    (comparisonPhrases.attach.map comparison ++ [connective .and, connective .or]))

/-- Words are finitely many, so only numbers and moving averages need an argument of their
own. -/
@[elab_as_elim]
theorem byKind {motive : EnglishPiece → Prop} (word : ∀ piece ∈ words, motive piece)
    (number : ∀ n, motive (number n)) (average : ∀ days hyphen, motive (average days hyphen))
    (piece : EnglishPiece) : motive piece := by
  cases piece with
  | article => exact word _ (.head _)
  | field phrase =>
    refine word _ (.tail _ (List.mem_append_left _ ?_))
    exact List.mem_map_of_mem (List.mem_attach _ _)
  | number n => exact number n
  | average days hyphen => exact average days hyphen
  | comparison phrase =>
    refine word _ (.tail _ (List.mem_append_right _ (List.mem_append_left _ ?_)))
    exact List.mem_map_of_mem (List.mem_attach _ _)
  | connective op =>
    refine word _ (.tail _ (List.mem_append_right _ (List.mem_append_right _ ?_)))
    cases op with
    | and => exact .head _
    | or => exact .tail _ (.head _)

end EnglishPiece

/-! ## Rules -/

/-- What a comparison in English compares. -/
inductive EnglishOperand where
  | field (article : Bool) (phrase : FieldPhrase)
  | number (n : PlainNumeral)
  | average (days : DayCount) (hyphen : Bool)

mutual

/-- Conditions with connectives between them. -/
inductive EnglishRule where
  | one (condition : EnglishCondition)
  | chain (before : EnglishRule) (op : LogicOp) (last : EnglishCondition)

/-- A comparison, or a rule in parentheses. -/
inductive EnglishCondition where
  | comparison (left : EnglishOperand) (phrase : ComparisonPhrase) (right : EnglishOperand)
  | group (rule : EnglishRule)

end

section

variable (wording : EnglishPiece → List Char)

def EnglishOperand.text : EnglishOperand → List Char
  | field true phrase => wording .article ++ wording (.field phrase)
  | field false phrase => wording (.field phrase)
  | number n => wording (.number n)
  | average days hyphen => wording (.average days hyphen)

mutual

def EnglishRule.text : EnglishRule → List Char
  | .one c => c.text
  | .chain before op last => before.text ++ (wording (.connective op) ++ last.text)

def EnglishCondition.text : EnglishCondition → List Char
  | .comparison left phrase right =>
    left.text wording ++ (wording (.comparison phrase) ++ right.text wording)
  | .group rule => ['('] ++ (rule.text ++ [')'])

end

end

/-- The rule in English. -/
def EnglishRule.english (r : EnglishRule) : List Char := r.text EnglishPiece.english

/-- The rule in the rule language. -/
def EnglishRule.language (r : EnglishRule) : List Char := r.text EnglishPiece.language

end MarketRules
