import MarketRules.Proofs.English.ClauseText

/-!
# Sentences word for word

A sentence that says to buy under one English rule and to sell under another is
translated to the two rules in the rule language.  The words that begin the exit clause
are found where they were written, since nothing within a rule looks like them.
-/

namespace MarketRules

open Pattern (GoesOn any_isWordChar_mem goesOn_unknown passes_of_passesEach
  passes_of_passesWithin split?_of_matchWithin?)
open EnglishPiece Translation

/-! ## The words that begin the clauses -/

/-- The words that begin an exit clause do not begin within a piece. -/
theorem EnglishPiece.passes_exitOpening (piece : EnglishPiece) {rest : List Char}
    (goesOn : GoesOn (piece.ahead [.unknown]) rest) (before : Option Char) :
    exitOpening.Passes before piece.english rest := by
  have numbers : exitOpening.passesEach numberChars = true := by decide
  induction piece using byKind with
  | word piece member =>
    have settled : ∀ piece ∈ words, exitOpening.passesWithin (piece.ahead [.unknown])
        [false, true] piece.english = true := by
      decide
    exact passes_of_passesWithin goesOn (settled piece member) (any_isWordChar_mem before)
  | number n => exact passes_of_passesEach numbers n.mem_numberChars rest before
  | average days hyphen =>
    have settled : ∀ hyphen, exitOpening.passesWithin [.unknown] [false, true]
        (averageWords hyphen).toList = true := by
      decide
    have tail := passes_of_passesWithin (goesOn_unknown rest) (settled hyphen)
      (any_isWordChar_mem (Pattern.behind before days.digits))
    exact (passes_of_passesEach numbers days.mem_numberChars _ before).append tail

/-- They do not begin within a rule, or at the point behind it. -/
theorem EnglishRule.passes_exitOpening (r : EnglishRule) (rest : List Char) :
    exitOpening.Passes none (r.english ++ fullStop true) rest := by
  have marks : exitOpening.passesEach ['(', ')', '.'] = true := by decide
  have parts : Composes.OfPieces [.unknown]
      (fun _ _ cs _ rest => ∀ before, exitOpening.Passes before cs rest)
      EnglishPiece.english EnglishPiece.english :=
    { composes := composes_passes exitOpening
      worded := english_mem_wordings
      pieces := fun piece _ => piece.passes_exitOpening
      opening := passes_of_passesEach marks (by simp)
      closing := passes_of_passesEach marks (by simp) }
  exact (r.relate parts (goesOn_unknown_append _) none).append
    (passes_of_passesEach marks (by simp [fullStop]) rest _)

/-- The opening words of a sentence are found at its beginning. -/
theorem split?_entryOpening (rest : List Char) :
    entryOpening.split? none ("buy when ".toList ++ rest) = some ([], rest) :=
  split?_of_matchWithin? (by decide) (by decide) rfl rest

/-- A sentence is cut where its exit clause begins, if that is not found before. -/
theorem Translation.splitClauses_of_passes {entry exit : List Char} (begins : BeginsSolid entry)
    (ends : EndsSolid entry) (begins' : BeginsSolid exit) (ends' : EndsSolid exit)
    (passes : exitOpening.Passes none entry (" sell when ".toList ++ exit)) :
    splitClauses ("buy when ".toList ++ (entry ++ (" sell when ".toList ++ exit))) =
      (entry, exit) := by
  have found (before : Option Char) : exitOpening.split? before (" sell when ".toList ++ exit) =
      some ([], exit) := by
    have settled : ∀ inWord,
        exitOpening.matchWithin? false ⟨inWord, " sell when ".toList⟩ = some (some []) := by
      decide
    exact split?_of_matchWithin? (by decide) (settled _) rfl exit
  rw [splitClauses, split?_entryOpening]
  dsimp only
  rw [(begins.append _).trimStart, passes.split?, found, Option.map_some]
  show (trim (entry ++ []), trim exit) = _
  rw [List.append_nil, trim_eq_self begins ends, trim_eq_self begins' ends']

/-! ## Translation -/

/-- A sentence that gives two rules in English. -/
def englishSentence (entry exit : EnglishRule) (point : Bool) : String :=
  String.ofList ("Buy when ".toList ++ (entry.english ++ fullStop true ++
    (" Sell when ".toList ++ (exit.english ++ fullStop point))))

theorem toList_englishSentence (entry exit : EnglishRule) (point : Bool) :
    (englishSentence entry exit point).toList = "Buy when ".toList ++ (entry.english ++
      fullStop true ++ (" Sell when ".toList ++ (exit.english ++ fullStop point))) :=
  String.toList_ofList

namespace EnglishRule

theorem beginsSolid_clause (r : EnglishRule) (point : Bool) :
    BeginsSolid (r.english ++ fullStop point) :=
  r.beginsSolid_english.append _

theorem endsSolid_clause (r : EnglishRule) (point : Bool) :
    EndsSolid (r.english ++ fullStop point) := by
  cases point with
  | false =>
    rw [fullStop, if_neg (by decide), List.append_nil]
    exact r.endsSolid_text english_mem_wordings
  | true =>
    have solid : EndsSolid (fullStop true) := by decide
    exact solid.append _

theorem language_ne_nil (r : EnglishRule) : r.language ≠ [] := by
  have solid : EndsSolid r.language := r.endsSolid_text language_mem_wordings
  intro empty
  rw [empty] at solid
  cases solid

end EnglishRule

/-- A sentence is split into the clauses that it was made of, each with its point. -/
theorem splitClauses_sentence (entry exit : EnglishRule) (point : Bool) :
    splitClauses ("buy when ".toList ++ (entry.english ++ fullStop true ++
      (" sell when ".toList ++ (exit.english ++ fullStop point)))) =
        (entry.english ++ fullStop true, exit.english ++ fullStop point) :=
  splitClauses_of_passes (entry.beginsSolid_clause true) (entry.endsSolid_clause true)
    (exit.beginsSolid_clause point) (exit.endsSolid_clause point) (entry.passes_exitOpening _)

/-- In lower case the sentence is put together from the same clauses, in whatever case it
was written. -/
theorem lower_sentence {entry exit : EnglishRule} {point : Bool} {sentence : String}
    (spelled : sameIgnoringAsciiCase sentence (englishSentence entry exit point) = true) :
    lower sentence.toList = "buy when ".toList ++ (entry.english ++ fullStop true ++
      (" sell when ".toList ++ (exit.english ++ fullStop point))) := by
  have buy : "Buy when ".toList.map Char.toLower = "buy when ".toList := by decide
  have sell : " Sell when ".toList.map Char.toLower = " sell when ".toList := by decide
  refine lower_of_sameIgnoringAsciiCase spelled ?_ ?_
  · rw [toList_englishSentence, List.map_append, buy, List.map_append,
      map_toLower_eq_self (entry.all_clause true), List.map_append, sell,
      map_toLower_eq_self (exit.all_clause point)]
  · have buySmall : "buy when ".toList.all isSmallAscii = true := by decide
    have sellSmall : " sell when ".toList.all isSmallAscii = true := by decide
    rw [List.all_append, buySmall, List.all_append, entry.all_clause, List.all_append, sellSmall,
      exit.all_clause]
    rfl

/-- A sentence in English, in any ASCII letter case, is translated to the same two rules in
the rule language. -/
theorem Translation.ofText_english (entry exit : EnglishRule) (point : Bool) (sentence : String)
    (spelled : sameIgnoringAsciiCase sentence (englishSentence entry exit point) = true) :
    Translation.ofText sentence =
      ⟨String.ofList entry.language, String.ofList exit.language, false⟩ := by
  rw [Translation.ofText, lower_sentence spelled, splitClauses_sentence]
  dsimp only
  rw [entry.rewriteClauseChars_english, exit.rewriteClauseChars_english,
    if_neg exit.language_ne_nil, decide_eq_false exit.language_ne_nil]

/-- The rule `the closing price is above 20-day moving average and (volume is at least
0.5 or high equals low)`. -/
def crossoverEntry : EnglishRule :=
  .chain
    (.one (.comparison (.field true ⟨("closing price", "CLOSE"), by decide⟩)
      ⟨("is above", "GT"), by decide⟩
      (.average ⟨"20".toList, by decide, List.all_eq_true.mp rfl⟩ true)))
    .and
    (.group (.chain
      (.one (.comparison (.field false ⟨("volume", "VOLUME"), by decide⟩)
        ⟨("is at least", "GTE"), by decide⟩
        (.number
          ⟨"0".toList, "5".toList, by decide, List.all_eq_true.mp rfl, List.all_eq_true.mp rfl⟩)))
      .or
      (.comparison (.field false ⟨("high", "HIGH"), by decide⟩) ⟨("equals", "EQ"), by decide⟩
        (.field false ⟨("low", "LOW"), by decide⟩))))

/-- The rule `close is below 50 day moving average`. -/
def crossoverExit : EnglishRule :=
  .one (.comparison (.field false ⟨("close", "CLOSE"), by decide⟩)
    ⟨("is below", "LT"), by decide⟩
    (.average ⟨"50".toList, by decide, List.all_eq_true.mp rfl⟩ false))

/-- A sentence with averages, an article, parentheses and capitals, and what it becomes. -/
theorem Translation.ofText_crossover :
    Translation.ofText ("BUY when the Closing Price is above 20-day moving average AND " ++
      "(volume is at least 0.5 or high equals low). sell when close is below 50 day moving " ++
      "average.") =
      ⟨"CLOSE GT SMA(CLOSE, 20) AND (VOLUME GTE 0.5 OR HIGH EQ LOW)",
        "CLOSE LT SMA(CLOSE, 50)", false⟩ := by
  have entry : String.ofList crossoverEntry.language =
      "CLOSE GT SMA(CLOSE, 20) AND (VOLUME GTE 0.5 OR HIGH EQ LOW)" := by
    decide
  have exit : String.ofList crossoverExit.language = "CLOSE LT SMA(CLOSE, 50)" := by
    decide
  rw [ofText_english crossoverEntry crossoverExit true _ ?spelled, entry, exit]
  rw [sameIgnoringAsciiCase, toList_englishSentence]
  decide +kernel

end MarketRules
