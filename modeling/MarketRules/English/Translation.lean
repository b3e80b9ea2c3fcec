import MarketRules.English.Phrases
import MarketRules.Text.Casing

/-!
# From English to the rule language

A sentence such as `Buy when close is above the 20-day moving average.  Sell when
close drops below 10.` is split into an entry clause and an exit clause, and each
is rewritten phrase by phrase.  The translation never fails.  What it does not
understand it leaves for the rule language to refuse.
-/

namespace MarketRules

/-! ## Tidying -/

/-- The text without its points, except those between two ASCII digits.  `before`
is the character in front of it. -/
def dropPeriods (before : Option Char) : List Char → List Char
  | [] => []
  | c :: cs =>
    if c = '.' ∧ ¬(before.any Char.isDigit ∧ cs.head?.any Char.isDigit) then
      dropPeriods c cs
    else c :: dropPeriods c cs
termination_by structural cs => cs

/-- The text with one ordinary blank for every run of blanks.  `inRun` says whether
the text stands behind a blank. -/
def squeezeBlanks (inRun : Bool) : List Char → List Char
  | [] => []
  | c :: cs =>
    if isBlank c then (if inRun then [] else [' ']) ++ squeezeBlanks true cs
    else c :: squeezeBlanks false cs
termination_by structural cs => cs

/-- The text without a blank behind an opening parenthesis.  `afterParen` says
whether the text stands behind one. -/
def tightenOpening (afterParen : Bool) : List Char → List Char
  | [] => []
  | c :: cs =>
    if afterParen ∧ c = ' ' then tightenOpening false cs
    else c :: tightenOpening (c == '(') cs
termination_by structural cs => cs

/-- The text without a blank in front of a closing parenthesis. -/
def tightenClosing : List Char → List Char
  | [] => []
  | c :: cs =>
    if c = ' ' ∧ cs.head? = some ')' then tightenClosing cs else c :: tightenClosing cs
termination_by structural cs => cs

/-- Upper case, no points but decimal points, single blanks, and none at the ends or
at the inner side of a parenthesis. -/
def tidy (cs : List Char) : List Char :=
  tightenClosing (tightenOpening false (trim (squeezeBlanks false (dropPeriods none (upper cs)))))

/-! ## Clauses -/

/-- A clause in the rule language, as characters. -/
def rewriteClauseChars (cs : List Char) : List Char :=
  tidy (Phrase.all.foldl (fun text phrase => phrase.apply text) (lower cs))

/-- A clause in the rule language. -/
def rewriteClause (clause : String) : String := String.ofList (rewriteClauseChars clause.toList)

/-! ## Sentences -/

/-- The two clauses of a sentence in the rule language. -/
structure Translation where
  entry : String
  exit : String
  /-- The sentence has no exit clause, and the one given here never holds. -/
  exitSupplied : Bool
deriving DecidableEq

namespace Translation

open Pattern (text edge one)

/-- One of two verbs, the word `when` and a blank. -/
def opening (verb verb' : String) : Pattern :=
  (text verb <|> text verb') ++ (Phrase.blanks ++ (text "when" ++ one .blank))

/-- The words that begin an entry clause, such as `buy when`. -/
def entryOpening : Pattern := edge ++ opening "buy" "enter"

/-- The words that begin an exit clause, such as `sell when`, behind a blank. -/
def exitOpening : Pattern := one .blank ++ opening "exit" "sell"

/-- The entry clause and the exit clause of a sentence in lower case.  A sentence
without the words that begin an entry clause is an entry clause as a whole.  The
words for the exit clause may follow at once if there are two blanks between them,
but those that have text in front of them are preferred. -/
def splitClauses (cs : List Char) : List Char × List Char :=
  match entryOpening.split? none cs with
  | none => (trim cs, [])
  | some (_, rest) =>
    match exitOpening.split? none (trimStart rest) <|> exitOpening.split? none rest with
    | none => (trim rest, [])
    | some (entry, exit) => (trim entry, trim exit)

/-- The exit clause of a sentence that has none. -/
def neverExit : String := Rule.never.text

/-- Translate a sentence. -/
def ofText (s : String) : Translation :=
  let (entry, exit) := splitClauses (lower s.toList)
  let exit := rewriteClauseChars exit
  { entry := String.ofList (rewriteClauseChars entry)
    exit := if exit = [] then neverExit else String.ofList exit
    exitSupplied := exit = [] }

/-- The two clauses as a strategy of the rule language. -/
def strategyText (t : Translation) : String := "ENTRY: " ++ t.entry ++ " EXIT: " ++ t.exit

end Translation

end MarketRules
