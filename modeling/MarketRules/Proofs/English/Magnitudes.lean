import MarketRules.Proofs.English.Comparisons
import MarketRules.Proofs.Number.ExactProducts

/-!
# Numbers with a unit

`volume is above 1.5 million` becomes a comparison with one number.  The number in front of
the unit is read as the nearest number of the format, and the product is rounded again.  So
the literal is the number nearest to the exact product if the format has the number in front
of the unit, and need not be otherwise.
-/

namespace MarketRules

open Pattern (GoesOn Passes Prefers behind passes_of_passesWithin)
open EnglishPiece

/-! ## Units -/

/-- A power of ten that has a name. -/
inductive Magnitude where
  | thousand
  | million
  | billion
deriving DecidableEq

namespace Magnitude

def all : List Magnitude := [thousand, million, billion]

theorem mem_all (u : Magnitude) : u ∈ all := by cases u <;> decide

/-- The name. -/
def word : Magnitude → String
  | thousand => "thousand"
  | million => "million"
  | billion => "billion"

/-- The power. -/
def factor : Magnitude → Nat
  | thousand => 10 ^ 3
  | million => 10 ^ 6
  | billion => 10 ^ 9

theorem unitValue_word (u : Magnitude) : Phrase.unitValue u.word.toList = .ofNat u.factor := by
  cases u with
  | thousand => exact if_pos rfl
  | million => exact (if_neg (by decide)).trans (if_pos rfl)
  | billion => exact (if_neg (by decide)).trans (if_neg (by decide))

/-- The factor of a unit is a number of the format. -/
theorem factor_le (u : Magnitude) : u.factor ≤ 2 ^ 53 := by cases u <;> decide

/-- The name behind a number. -/
def behindNumber (u : Magnitude) : List Char := ' ' :: u.word.toList

/-- The text goes on with the unit and ends. -/
theorem goesOn_behindNumber (u : Magnitude) : GoesOn countEnds (u.behindNumber ++ []) := by
  have listed : ∀ u ∈ all, u.behindNumber ∈ unitStarts := by decide
  have begins := goesOn_beginning ⟨_, listed u u.mem_all, List.prefix_refl _⟩ []
  obtain ⟨a, member, shape⟩ := begins
  exact ⟨a, List.mem_append_right _ member, shape⟩

/-- No phrase finds anything in the unit alone. -/
theorem passes_behindNumber {p : Phrase} (member : p ∈ Phrase.all) (u : Magnitude)
    (before : Option Char) : p.pattern.Passes before u.behindNumber [] := by
  have atEnd : GoesOn [⟨[], true⟩] [] := ⟨_, .head _, [], rfl, fun _ => rfl⟩
  have settled : ∀ p ∈ Phrase.all, ∀ u ∈ all,
      p.pattern.passesWithin [⟨[], true⟩] [false, true] u.behindNumber = true := by
    decide
  exact passes_of_passesWithin atEnd (settled p member u u.mem_all) (Joint.allows_after before)

end Magnitude

/-! ## The phrase for units -/

/-- The number in front of the unit is read to its end. -/
theorem PlainNumeral.prefers_chars (n : PlainNumeral) {rest : List Char}
    (stops : ∀ c ∈ rest.head?, isDecimalDigit c = false ∧ c ≠ '.') (before : Option Char)
    (spans : List Pattern.Span) :
    (Pattern.seq Phrase.digitRun (.optional (.seq (.text ".") Phrase.digitRun))).Prefers
      ⟨before, n.chars ++ rest, spans⟩ ⟨behind before n.chars, rest, spans⟩ := by
  have noDigit : ∀ c ∈ rest.head?, isDecimalDigit c = false := fun c member => (stops c member).1
  rw [chars, pointed]
  by_cases noFraction : n.fraction = []
  · have noPoint : (Pattern.seq (.text ".") Phrase.digitRun).ends
        ⟨behind before n.whole, rest, spans⟩ = [] := by
      cases rest with
      | nil => rfl
      | cons c cs =>
        have other : '.' ≠ c := fun point => (stops c rfl).2 point.symm
        show (Option.toList (if '.' = c then _ else none)).flatMap _ = []
        rw [if_neg other]
        rfl
    rw [if_pos noFraction, List.append_nil]
    exact (prefers_digitRun n.whole_ne_nil n.isDigit_whole noDigit before spans).seq
      (.right noPoint ⟨[], rfl⟩)
  · have atPoint : ∀ c ∈ ('.' :: (n.fraction ++ rest)).head?, isDecimalDigit c = false := by
      rintro c ⟨⟩
      decide
    have point : (Pattern.text ".").Prefers
        ⟨behind before n.whole, '.' :: (n.fraction ++ rest), spans⟩
        ⟨some '.', n.fraction ++ rest, spans⟩ := ⟨[], rfl⟩
    rw [if_neg noFraction, List.append_assoc, Pattern.behind_append]
    exact (prefers_digitRun n.whole_ne_nil n.isDigit_whole atPoint before spans).seq
      (.left (point.seq (prefers_digitRun noFraction n.isDigit_fraction noDigit _ spans)))

/-- The unit is read behind the number. -/
theorem exists_unitTail : ∃ tail, Phrase.withUnit = .seq (.capture (.seq Phrase.digitRun
      (.optional (.seq (.text ".") Phrase.digitRun)))) tail ∧
    ∀ (u : Magnitude) before spans, ∃ last, tail.Prefers ⟨before, u.behindNumber, spans⟩
      ⟨some last, [], spans ++ [⟨u.word.toList, []⟩]⟩ := by
  refine ⟨_, rfl, fun u before spans => ?_⟩
  cases u <;> exact ⟨_, _, rfl⟩

/-- A numeral and its unit become the product. -/
theorem turns_withUnit (n : PlainNumeral) (u : Magnitude) (before : Option Char) :
    Phrase.withUnit.Turns Phrase.expandUnit before (n.chars ++ u.behindNumber)
      (n.value * .ofNat u.factor).plainChars [] := by
  obtain ⟨tail, shape, reads⟩ := exists_unitTail
  have stops : ∀ c ∈ u.behindNumber.head?, isDecimalDigit c = false ∧ c ≠ '.' := by
    rintro c ⟨⟩
    decide
  have number := (n.prefers_chars stops before []).capture
  obtain ⟨last, unit⟩ := reads u (behind before n.chars)
    ([] ++ [⟨n.chars ++ u.behindNumber, u.behindNumber⟩])
  have way := number.seq unit
  rw [← shape] at way
  have nonempty : n.chars ++ u.behindNumber ≠ [] :=
    List.append_ne_nil_of_left_ne_nil n.chars_ne_nil _
  have matched := way.matchAt? (List.length_pos_of_ne_nil nonempty)
  rw [← List.append_nil (n.chars ++ u.behindNumber)] at matched
  have turned := Pattern.turns_of_matchAt? (f := Phrase.expandUnit) nonempty matched rfl
  have written : Phrase.expandUnit [n.chars, u.word.toList] =
      (n.value * .ofNat u.factor).plainChars := by
    rw [Phrase.expandUnit, n.readNumeral?_chars, u.unitValue_word]
  simpa [Pattern.Span.chars, written] using turned

/-- The phrase for units is the last but one, and is the only one with its pattern. -/
theorem exists_all_eq_withUnit : ∃ front,
    Phrase.all = front ++ [⟨Phrase.withUnit, Phrase.expandUnit⟩, Phrase.fillers] ∧
      ∀ p ∈ front, p.pattern ≠ Phrase.withUnit :=
  ⟨Phrase.all.take (Phrase.all.length - 2), rfl, by decide⟩

/-- A numeral with a unit at the end of a clause, which becomes `literal`. -/
def countedPassage (n literal : PlainNumeral) (u : Magnitude) : Passage where
  start := .before
  stop := .after
  ahead := [⟨[], true⟩]
  wording done := if done then literal.chars else n.chars ++ u.behindNumber

/-- A number with its unit is an operand: it waits for the phrase for units and is a number
from then on. -/
theorem countedPassage_isOperand {n literal : PlainNumeral} {u : Magnitude}
    (written : (n.value * .ofNat u.factor).plainChars = literal.chars) :
    (countedPassage n literal u).IsOperand := by
  obtain ⟨front, shape, others⟩ := exists_all_eq_withUnit
  have member : ∀ p ∈ front, p ∈ Phrase.all := by
    rw [shape]
    exact fun p => List.mem_append_left _
  have last : Phrase.fillers ∈ Phrase.all := by
    rw [shape]
    exact List.mem_append_right _ (.tail _ (.head _))
  have atEnd : GoesOn numeralEnds [] :=
    ⟨⟨[], true⟩, List.mem_append_left _ (.head _), [], rfl, fun _ => rfl⟩
  refine ⟨rfl, rfl, ?_⟩
  rw [shape]
  refine Passage.settles_append (fun p listed => ?_) ⟨true, ?_, true, ?_, rfl⟩
  · refine Passage.moves_of_turns_at_end rfl rfl fun before => ?_
    have number := p.passes_number_of_ne (member p listed) (others p listed) n.mem_numberChars
      u.goesOn_behindNumber before
    exact (number.append (u.passes_behindNumber (member p listed) _)).turns
  · refine Passage.moves_of_turns_at_end rfl rfl fun before => ?_
    have turned := turns_withUnit n u before
    rw [written] at turned
    exact turned
  · refine Passage.moves_of_turns_at_end rfl rfl fun before => ?_
    exact (Phrase.fillers.passes_number last literal.mem_numberChars atEnd before).turns

/-! ## Clauses -/

theorem volume_listed : ("volume", "VOLUME") ∈ fieldPhrases := by decide

/-- The phrase `volume`. -/
def volumePhrase : FieldPhrase := ⟨("volume", "VOLUME"), volume_listed⟩

/-- The rewritten clause has the literal in place of the number and its unit. -/
theorem rewriteClauseChars_counted {n literal : PlainNumeral} {u : Magnitude}
    (written : (n.value * .ofNat u.factor).plainChars = literal.chars) :
    rewriteClauseChars ("volume is above ".toList ++ (n.chars ++ u.behindNumber)) =
      "VOLUME GT ".toList ++ literal.chars := by
  let compared : EnglishRule :=
    .one (.comparison (.field false volumePhrase) isAbove (.number literal))
  have unit : ∀ u ∈ Magnitude.all, u.behindNumber.all isSmallAscii = true := by decide
  have number : n.chars.all isSmallAscii = true :=
    all_of_numberChars (by decide) n.mem_numberChars
  have front : "volume is above ".toList.all isSmallAscii = true := by decide
  have small : ("volume is above ".toList ++ (n.chars ++ u.behindNumber)).all isSmallAscii =
      true := by
    rw [List.all_append, front, List.all_append, number, unit u u.mem_all]
    rfl
  have rewritten := rewriteClauseChars_above volumePhrase (countedPassage_isOperand written)
    (lower_eq_self small)
  have tidied := compared.tidy_rewritten false
  rw [fullStop, if_neg Bool.false_ne_true, List.append_nil] at tidied
  exact rewritten.trans tidied

/-- A numeral with a unit becomes the literal of the product, which reads back as the product.
If the format has the value of the numeral then this is the number nearest to the exact
product, and a whole product below `2^53` is written as its digits. -/
theorem rewriteClause_magnitude (n : PlainNumeral) (u : Magnitude)
    (finite : (n.value * Binary64.ofNat u.factor).isFinite = true) :
    rewriteClause ("volume is above " ++ String.ofList n.chars ++ " " ++ u.word) =
        "VOLUME GT " ++ (n.value * Binary64.ofNat u.factor).plain ∧
      readNumeral (n.value * Binary64.ofNat u.factor).plain.toList =
        .ok (n.value * .ofNat u.factor) ∧
      (n.IsExact →
        n.value * .ofNat u.factor =
            .ofRatio false (n.units * u.factor) (10 ^ n.fraction.length) ∧
          ∀ j < 2 ^ 53, j * 10 ^ n.fraction.length = n.units * u.factor →
            (n.value * Binary64.ofNat u.factor).plain = String.ofList (digits j)) := by
  obtain ⟨m, e, canonical, product⟩ := PlainNumeral.exists_mul_eq u.factor_le finite
  obtain ⟨literal, written, -⟩ := Binary64.exists_plainChars_finite false canonical
  rw [← product] at written
  have sentence : ("volume is above " ++ String.ofList n.chars ++ " " ++ u.word).toList =
      "volume is above ".toList ++ (n.chars ++ u.behindNumber) := by
    simp [Magnitude.behindNumber]
  refine ⟨?_, ?_, fun exact => ⟨exact.mul_eq u.factor_le, fun j below whole => ?_⟩⟩
  · rw [rewriteClause, sentence, rewriteClauseChars_counted written, Binary64.plain,
      String.ofList_append, written]
    rfl
  · rw [Binary64.plain, String.toList_ofList]
    exact Binary64.readNumeral_plainChars finite
  · rw [Binary64.plain, exact.plainChars_mul u.factor_le whole below]

/-- One and a half. -/
def oneAndHalf : PlainNumeral where
  whole := ['1']
  fraction := ['5']
  whole_ne_nil := by decide
  isDigit_whole := by decide
  isDigit_fraction := by decide

/-- A number with a fraction can still make a whole number. -/
theorem rewriteClause_one_and_half_million :
    rewriteClause "volume is above 1.5 million" = "VOLUME GT 1500000" := by
  have finite : (oneAndHalf.value * Binary64.ofNat Magnitude.million.factor).isFinite = true := by
    decide +kernel
  have exact : oneAndHalf.IsExact :=
    ⟨3 * 2 ^ 51, 1022, ⟨by decide, .inl (by decide), by decide⟩, by decide +kernel⟩
  obtain ⟨written, -, nearest⟩ := rewriteClause_magnitude oneAndHalf .million finite
  have literal := (nearest exact).2 1500000 (by decide) (by decide)
  rw [literal] at written
  exact written

/-- The nearest number to 1.005 is below it, and the rounded product with 1000 is below 1005. -/
theorem rewriteClause_not_nearest :
    rewriteClause "volume is above 1.005 thousand" = "VOLUME GT 1004.9999999999999" ∧
      Binary64.ofRatio false (1005 * 1000) 1000 = .ofNat 1005 ∧
      readNumeral "1004.9999999999999".toList ≠ .ok (.ofNat 1005) := by
  decide +kernel

end MarketRules
