import MarketRules.Proofs.English.ClauseText

/-!
# A field above an operand

The operand of a comparison need not be a piece of an English rule.  Any text can stand
behind `close is above` if the phrases bring it to a last wording at the end of a clause.
-/

namespace MarketRules

open Pattern (Ahead GoesOn)
open EnglishPiece

theorem isAbove_listed : ("is above", "GT") ∈ comparisonPhrases := by decide

/-- The phrase `is above`. -/
def isAbove : ComparisonPhrase := ⟨("is above", "GT"), isAbove_listed⟩

/-! ## The parts of a comparison -/

/-- The three parts of a comparison. -/
inductive ComparisonPart where
  | field
  | comparison
  | operand

/-- The phrase `is above` as a passage, whatever follows it. -/
def abovePassage : Passage where
  start := .after
  stop := .before
  ahead := [.unknown]
  wording done := (comparison isAbove).wording done

theorem abovePassage_settles : abovePassage.Settles Phrase.all false := by
  refine Passage.settles_of_settlesWithin ?_ Phrase.all false (by decide +kernel)
  intro done
  cases done <;> decide

/-- The operand ends a clause in which it stands behind a comparison, and the phrases bring
it to its last wording. -/
structure Passage.IsOperand (t : Passage) : Prop where
  start : t.start = .before
  ahead : t.ahead = [⟨[], true⟩]
  settles : t.Settles Phrase.all false

namespace ComparisonPart

/-- The part as a passage. -/
def passage (phrase : FieldPhrase) (t : Passage) : ComparisonPart → Passage
  | field => (EnglishPiece.field phrase).passage
  | comparison => abovePassage
  | operand => t

/-- The parts put together. -/
def text (wording : ComparisonPart → List Char) : List Char :=
  wording field ++ (wording comparison ++ wording operand)

end ComparisonPart

section

variable {phrase : FieldPhrase} {t : Passage}

/-- A phrase that takes every part from one wording to another does so all over the
comparison. -/
theorem Phrase.apply_comparison {p : Phrase} (operand : t.IsOperand)
    {done done' : ComparisonPart → Bool}
    (moves : ∀ part : ComparisonPart, (part.passage phrase t).Moves p (done part) (done' part)) :
    p.apply (ComparisonPart.text fun part => (part.passage phrase t).wording (done part)) =
      ComparisonPart.text fun part => (part.passage phrase t).wording (done' part) := by
  have link : GoesOn (clauseEnds ++ innerEnds)
      ((comparison isAbove).wording (done .comparison) ++ t.wording (done .operand) ++ []) := by
    rw [List.append_nil]
    exact goesOn_link rfl (wording_mem_wordings _ (comparison isAbove)) _
  have atEnd : GoesOn t.ahead [] := by
    rw [operand.ahead]
    exact ⟨_, .head _, [], rfl, fun _ => rfl⟩
  have last : p.Rewrites .before t.stop (t.wording (done .operand))
      (t.wording (done' .operand)) [] := by
    rw [← operand.start]
    exact moves .operand [] atEnd
  have above := moves .comparison (t.wording (done .operand) ++ []) (Pattern.goesOn_unknown _)
  have turned := (p.composes_rewrites.append (moves .field _ link)
    (p.composes_rewrites.append above last) none (.head _)).1
  rw [Pattern.Turns, List.append_nil] at turned
  exact turned.trans (List.append_nil _)

/-- The phrases bring a field and `is above` into the rule language in front of any such
operand. -/
theorem foldl_apply_above (phrase : FieldPhrase) (operand : t.IsOperand) :
    Phrase.all.foldl (fun text phrase => phrase.apply text)
        (phrase.1.1.toList ++ (" is above ".toList ++ t.wording false)) =
      phrase.1.2.toList ++ ("  GT  ".toList ++ t.wording true) := by
  have settles : ∀ part : ComparisonPart, (part.passage phrase t).Settles Phrase.all false := by
    intro part
    cases part with
    | field =>
      exact ((field phrase).passage_settles_iff Phrase.all false).mpr (field phrase).settles
    | comparison => exact abovePassage_settles
    | operand => exact operand.settles
  exact Passage.foldl_apply (ComparisonPart.passage phrase t) ComparisonPart.text Phrase.all
    (fun _ _ _ _ moves => Phrase.apply_comparison operand moves) (fun _ => false) settles

/-- A clause that consists of a field, `is above` and such an operand. -/
theorem rewriteClauseChars_above (phrase : FieldPhrase) (operand : t.IsOperand)
    {clause : List Char}
    (spelled : lower clause = phrase.1.1.toList ++ (" is above ".toList ++ t.wording false)) :
    rewriteClauseChars clause =
      tidy (phrase.1.2.toList ++ ("  GT  ".toList ++ t.wording true)) := by
  rw [rewriteClauseChars, spelled, foldl_apply_above phrase operand]

end

end MarketRules
