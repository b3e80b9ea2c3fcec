import MarketRules.Proofs.English.CanonicalPieces
import MarketRules.Proofs.English.Sentences

/-!
# The rule language as English

A clause that is the canonical text of a rule is translated to itself.  So a sentence that
says to buy under one rule and to sell under another, both in the rule language, gives the
strategy of these two rules.
-/

namespace MarketRules

open Pattern (any_isWordChar_mem passes_of_passesEach passes_of_passesWithin)

namespace RulePiece

/-! ## Letter case -/

theorem ascii_of_mem_wordings {piece : RulePiece} {cs : List Char} (worded : cs ∈ piece.wordings) :
    ∀ c ∈ cs, c.toNat < 128 := by
  induction piece using byKind with
  | word piece member =>
    have all : ∀ piece ∈ words, ∀ cs ∈ piece.wordings, cs.all (·.toNat < 128) = true := by decide
    exact forall_ascii_of_all (all piece member cs worded)
  | number negative n =>
    have all : signedChars.all (·.toNat < 128) = true := by decide
    rw [eq_chars_of_mem_wordings worded]
    exact fun c member => forall_ascii_of_all all c (mem_signedChars negative n c member)

/-- In the wording that the phrases see there are small ASCII characters only. -/
theorem all_small (piece : RulePiece) : piece.small.all isSmallAscii = true := by
  induction piece using byKind with
  | word piece member =>
    have all : ∀ piece ∈ words, piece.small.all isSmallAscii = true := by decide
    exact all piece member
  | number negative n =>
    have all : signedChars.all isSmallAscii = true := by decide
    rw [eq_chars_of_mem_wordings (small_mem_wordings _)]
    exact List.all_eq_true.mpr fun c member =>
      List.all_eq_true.mp all c (mem_signedChars negative n c member)

variable (pieces : List RulePiece)

theorem ascii_flatMap {wording : RulePiece → List Char}
    (worded : ∀ piece, wording piece ∈ piece.wordings) :
    ∀ c ∈ pieces.flatMap wording, c.toNat < 128 := by
  intro c member
  obtain ⟨piece, -, inside⟩ := List.mem_flatMap.mp member
  exact ascii_of_mem_wordings (worded piece) c inside

theorem map_toLower_chars : (pieces.flatMap chars).map Char.toLower = pieces.flatMap small :=
  List.map_flatMap

/-- A canonical text is put in lower case piece by piece. -/
theorem lower_chars : lower (pieces.flatMap chars) = pieces.flatMap small := by
  rw [lower_ascii (ascii_flatMap pieces chars_mem_wordings), map_toLower_chars]

theorem lower_small : lower (pieces.flatMap small) = pieces.flatMap small := by
  refine lower_eq_self ?_
  rw [List.all_flatMap]
  exact List.all_eq_true.mpr fun piece _ => piece.all_small

/-- What the phrases leave is put in upper case piece by piece. -/
theorem upper_rewritten : upper (pieces.flatMap rewritten) = pieces.flatMap capital := by
  rw [upper_ascii (ascii_flatMap pieces rewritten_mem_wordings), List.map_flatMap]
  rfl

/-! ## Tidying -/

theorem solid_of_mem_signedChars {c : Char} (member : c ∈ signedChars) :
    isBlank c = false ∧ c ≠ '(' := by
  rcases List.mem_cons.mp member with rfl | inNumber
  · decide
  · exact not_isBlank_of_mem_numberChars inNumber

theorem number_ne_nil (negative : Bool) (n : PlainNumeral) : (number negative n).chars ≠ [] := by
  obtain ⟨c, cs, begins, -⟩ := exists_number_eq_cons negative n
  rw [begins]
  exact List.cons_ne_nil c cs

/-- A piece of canonical text loses no point. -/
theorem dropsPoints_capital (piece : RulePiece) (rest : List Char) :
    DropsPoints piece.start piece.stop piece.capital piece.capital rest := by
  induction piece using byKind with
  | word piece member =>
    have noPoint : ∀ piece ∈ words, '.' ∉ piece.capital := by decide
    exact dropPeriods_of_notMem (noPoint piece member)
  | number negative n =>
    rw [eq_chars_of_mem_wordings (capital_mem_wordings _)]
    intro before
    have noPoint : '.' ∉ Binary64.sign negative := by cases negative <;> decide
    show dropPeriods before (Binary64.sign negative ++ n.chars ++ rest) =
      Binary64.sign negative ++ n.chars ++ _
    rw [List.append_assoc, dropPeriods_of_notMem noPoint, n.dropPeriods_chars, List.append_assoc,
      ← Pattern.behind_append]
    rfl

/-- A piece in upper case gets the blanks of the canonical text. -/
theorem compacts_capital (piece : RulePiece) (rest : List Char) :
    Compacts piece.start piece.stop piece.capital piece.chars rest := by
  induction piece using byKind with
  | word piece member =>
    have settled : ∀ piece ∈ words,
        compact (piece.start == .before) piece.capital = piece.chars ∧
          closedBehind (piece.start == .before) piece.capital = (piece.stop == .before) := by
      decide
    exact compacts_of_settled (settled piece member)
  | number negative n =>
    rw [eq_chars_of_mem_wordings (capital_mem_wordings _)]
    exact compact_solid (number_ne_nil negative n)
      (fun c member => solid_of_mem_signedChars (mem_signedChars negative n c member)) true

/-- A piece of canonical text has no blank in front of a closing parenthesis. -/
theorem tightensClosing_chars (piece : RulePiece) {rest : List Char}
    (goesOn : Pattern.GoesOn (piece.stop.ahead [.unknown]) rest) :
    TightensClosing piece.start piece.stop piece.chars piece.chars rest := by
  induction piece using byKind with
  | word piece member =>
    have settled : ∀ piece ∈ words, ' ' ∉ piece.chars ∨
        ')' ∉ piece.chars ∧
          ∀ a ∈ piece.stop.ahead [.unknown], (a.chars.head?.any fun c => c != ')') = true := by
      decide
    exact tightensClosing_of_settled (settled piece member) goesOn
  | number negative n =>
    have noBlank : ' ' ∉ signedChars := by decide
    exact tightenClosing_of_blank_notMem
      (fun member => noBlank (mem_signedChars negative n _ member)) rest

theorem beginsSolid_small {piece : RulePiece} (starts : piece.start = .before) :
    BeginsSolid piece.small := by
  induction piece using byKind with
  | word piece member =>
    have solid : ∀ piece ∈ words, piece.start = .before → BeginsSolid piece.small := by decide
    exact solid piece member starts
  | number negative n =>
    rw [eq_chars_of_mem_wordings (small_mem_wordings _)]
    exact beginsSolid_of_forall_mem (number_ne_nil negative n)
      fun c member => (solid_of_mem_signedChars (mem_signedChars negative n c member)).1

theorem endsSolid_of_mem_wordings {piece : RulePiece} (stops : piece.stop = .after)
    {cs : List Char} (worded : cs ∈ piece.wordings) : EndsSolid cs := by
  induction piece using byKind with
  | word piece member =>
    have solid : ∀ piece ∈ words, piece.stop = .after → ∀ cs ∈ piece.wordings, EndsSolid cs := by
      decide
    exact solid piece member stops cs worded
  | number negative n =>
    rw [eq_chars_of_mem_wordings worded]
    exact endsSolid_of_forall_mem (number_ne_nil negative n)
      fun c member => (solid_of_mem_signedChars (mem_signedChars negative n c member)).1

/-- The words that begin an exit clause do not begin within a piece. -/
theorem passes_exitOpening (piece : RulePiece) {rest : List Char}
    (goesOn : Pattern.GoesOn (piece.stop.ahead [.unknown]) rest) (before : Option Char) :
    Translation.exitOpening.Passes before piece.small rest := by
  induction piece using byKind with
  | word piece member =>
    have settled : ∀ piece ∈ words, Translation.exitOpening.passesWithin
        (piece.stop.ahead [.unknown]) [false, true] piece.small = true := by
      decide
    exact passes_of_passesWithin goesOn (settled piece member) (any_isWordChar_mem before)
  | number negative n =>
    have settled : Translation.exitOpening.passesEach signedChars = true := by decide
    rw [eq_chars_of_mem_wordings (small_mem_wordings _)]
    exact passes_of_passesEach settled (mem_signedChars negative n) rest before

end RulePiece

/-! ## Clauses -/

namespace Joined

open RulePiece

section

variable {pieces : List RulePiece} (joined : Joined .before pieces .after)

include joined

theorem beginsSolid_small : BeginsSolid (pieces.flatMap small) :=
  joined.relate_anywhere small small composes_beginsSolid small_mem_wordings
    (fun _ _ _ => RulePiece.beginsSolid_small) [] rfl

/-- Whatever its wordings, a joined text ends with no blank. -/
theorem endsSolid {wording : RulePiece → List Char}
    (worded : ∀ piece, wording piece ∈ piece.wordings) : EndsSolid (pieces.flatMap wording) :=
  joined.relate_anywhere wording wording composes_endsSolid worded
    (fun piece _ _ stops => endsSolid_of_mem_wordings stops (worded piece)) [] rfl

theorem passes_exitOpening (rest : List Char) :
    Translation.exitOpening.Passes none (pieces.flatMap small) rest :=
  joined.relate_anywhere small small (composes_passes Translation.exitOpening) small_mem_wordings
    (fun piece _ => piece.passes_exitOpening) rest none

/-- Tidying what the phrases leave of a rule gives its canonical text. -/
theorem tidy_rewritten : tidy (pieces.flatMap rewritten) = pieces.flatMap chars := by
  have points : dropPeriods none (pieces.flatMap capital) = pieces.flatMap capital := by
    have dropped := joined.relate_anywhere capital capital composes_dropsPoints
      capital_mem_wordings (fun piece rest _ => piece.dropsPoints_capital rest) [] none
    rw [List.append_nil] at dropped
    exact dropped.trans (List.append_nil _)
  have blanks : compact true (pieces.flatMap capital) = pieces.flatMap chars := by
    have compacted := joined.relate_anywhere capital chars composes_compacts
      capital_mem_wordings (fun piece rest _ => piece.compacts_capital rest) []
    rw [Compacts, List.append_nil] at compacted
    exact compacted.trans (List.append_nil _)
  have parentheses : tightenClosing (pieces.flatMap chars) = pieces.flatMap chars := by
    have tightened := joined.relate_anywhere chars chars composes_tightensClosing
      chars_mem_wordings (fun piece _ => piece.tightensClosing_chars) []
    rw [TightensClosing, List.append_nil] at tightened
    exact tightened.trans (List.append_nil _)
  rw [tidy, upper_rewritten, points, tidyBlanks (joined.endsSolid capital_mem_wordings), blanks,
    parentheses]

/-- A clause that is a rule in the rule language, in any letter case, is translated to the
canonical text of the rule. -/
theorem rewriteClauseChars {clause : List Char} (lowered : lower clause = pieces.flatMap small) :
    rewriteClauseChars clause = pieces.flatMap chars := by
  rw [MarketRules.rewriteClauseChars, lowered, joined.foldl_apply, joined.tidy_rewritten]

end

end Joined

/-! ## Sentences -/

section

open RulePiece

/-- In lower case a sentence that gives two rules in the rule language is cut between
them. -/
theorem Translation.splitClauses_pieces {pieces pieces' : List RulePiece}
    (joined : Joined .before pieces .after) (joined' : Joined .before pieces' .after) :
    splitClauses (lower ("buy when ".toList ++ (pieces.flatMap chars ++
      (" sell when ".toList ++ pieces'.flatMap chars)))) =
        (pieces.flatMap small, pieces'.flatMap small) := by
  have buy : "buy when ".toList.map Char.toLower = "buy when ".toList := by decide
  have sell : " sell when ".toList.map Char.toLower = " sell when ".toList := by decide
  have ascii : ∀ c ∈ "buy when ".toList ++ (pieces.flatMap chars ++
      (" sell when ".toList ++ pieces'.flatMap chars)), c.toNat < 128 := by
    refine List.forall_mem_append.mpr ⟨forall_ascii_of_all (by decide),
      List.forall_mem_append.mpr ⟨?_, List.forall_mem_append.mpr ⟨?_, ?_⟩⟩⟩
    · exact ascii_flatMap pieces chars_mem_wordings
    · exact forall_ascii_of_all (by decide)
    · exact ascii_flatMap pieces' chars_mem_wordings
  rw [lower_ascii ascii, List.map_append, buy, List.map_append, map_toLower_chars, List.map_append,
    sell, map_toLower_chars]
  exact splitClauses_of_passes joined.beginsSolid_small (joined.endsSolid small_mem_wordings)
    joined'.beginsSolid_small (joined'.endsSolid small_mem_wordings) (joined.passes_exitOpening _)

end

/-- A canonical rule is rewritten to itself. -/
theorem Rule.rewriteClause_text {r : Rule} (finite : r.FiniteConstants) :
    rewriteClause r.text = r.text := by
  obtain ⟨pieces, joined, same⟩ := r.exists_pieces finite
  rw [rewriteClause, Rule.text, String.toList_ofList, same,
    joined.rewriteClauseChars (RulePiece.lower_chars pieces)]

namespace Strategy

/-- The sentence that gives the rules of a strategy in the rule language. -/
def sentence (s : Strategy) : String :=
  "buy when " ++ s.entry.text ++ " sell when " ++ s.exit.text

/-- A sentence made of two canonical rules is translated to these rules. -/
theorem ofText_sentence {s : Strategy} (finite : ∀ clause, (s.rule clause).FiniteConstants) :
    Translation.ofText s.sentence = ⟨s.entry.text, s.exit.text, false⟩ := by
  obtain ⟨pieces, joined, same⟩ := s.entry.exists_pieces (finite .entry)
  obtain ⟨pieces', joined', same'⟩ := s.exit.exists_pieces (finite .exit)
  have chars : s.sentence.toList = "buy when ".toList ++ (pieces.flatMap RulePiece.chars ++
      (" sell when ".toList ++ pieces'.flatMap RulePiece.chars)) := by
    simp only [sentence, Rule.text, String.toList_append, String.toList_ofList, same, same',
      List.append_assoc]
  have nonempty : pieces'.flatMap RulePiece.chars ≠ [] := by
    have solid := joined'.endsSolid RulePiece.chars_mem_wordings
    intro empty
    rw [empty] at solid
    cases solid
  rw [Translation.ofText, chars, Translation.splitClauses_pieces joined joined']
  dsimp only
  rw [joined.rewriteClauseChars (RulePiece.lower_small pieces),
    joined'.rewriteClauseChars (RulePiece.lower_small pieces'), if_neg nonempty,
    decide_eq_false nonempty, ← same, ← same']
  rfl

theorem strategyText_eq_text (s : Strategy) (exitSupplied : Bool) :
    (⟨s.entry.text, s.exit.text, exitSupplied⟩ : Translation).strategyText = s.text := by
  have entry : s.entry.text.toList = s.entry.chars := String.toList_ofList
  have exit : s.exit.text.toList = s.exit.chars := String.toList_ofList
  have text : s.text.toList = s.chars := String.toList_ofList
  apply String.toList_inj.mp
  rw [text, Translation.strategyText, String.toList_append, String.toList_append,
    String.toList_append, entry, exit]
  rfl

/-- The translation keeps rules that are already in the rule language, so a strategy
compiles from the sentence as it does from its canonical text. -/
theorem translation_keeps_text (s : Strategy)
    (finite : ∀ clause, (s.rule clause).FiniteConstants) :
    (∀ clause, rewriteClause (s.rule clause).text = (s.rule clause).text) ∧
      Translation.ofText ("buy when " ++ s.entry.text ++ " sell when " ++ s.exit.text) =
        ⟨s.entry.text, s.exit.text, false⟩ ∧
      CheckedStrategy.ofEnglish ("buy when " ++ s.entry.text ++ " sell when " ++ s.exit.text) =
        CheckedStrategy.ofText s.text := by
  have translated := ofText_sentence finite
  refine ⟨fun clause => Rule.rewriteClause_text (finite clause), translated, ?_⟩
  rw [CheckedStrategy.ofEnglish, ← sentence, translated, strategyText_eq_text]

/-- Buy above the mean of 20 days unless both the volume is small and the low is -2.5, and
sell below the mean of 50 days. -/
def trend : Strategy where
  entry := .combine .and
    (.compare .greater (.field .closing) (.indicator ⟨.movingAverage, .closing, 20⟩))
    (.combine .or (.compare .atLeast (.field .volume) (.value 1000000))
      (.compare .notEqual (.value (.ofRatio true 5 2)) (.field .low)))
  exit := .compare .less (.field .closing) (.indicator ⟨.movingAverage, .closing, 50⟩)

/-- A strategy with indicators, parentheses and a negative number is kept. -/
theorem translation_keeps_trend :
    Translation.ofText ("buy when CLOSE > SMA(CLOSE, 20) AND (VOLUME >= 1000000 OR -2.5 != LOW) " ++
      "sell when CLOSE < SMA(CLOSE, 50)") =
      ⟨"CLOSE > SMA(CLOSE, 20) AND (VOLUME >= 1000000 OR -2.5 != LOW)",
        "CLOSE < SMA(CLOSE, 50)", false⟩ := by
  have finite : ∀ clause, (trend.rule clause).FiniteConstants := by
    intro clause
    cases clause <;> decide +kernel
  have entry : trend.entry.text =
      "CLOSE > SMA(CLOSE, 20) AND (VOLUME >= 1000000 OR -2.5 != LOW)" := by
    decide +kernel
  have exit : trend.exit.text = "CLOSE < SMA(CLOSE, 50)" := by decide +kernel
  have translated := (trend.translation_keeps_text finite).2.1
  rw [entry, exit] at translated
  exact translated

end Strategy

end MarketRules
