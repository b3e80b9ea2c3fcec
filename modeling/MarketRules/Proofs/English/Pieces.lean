import MarketRules.Proofs.English.Grammar
import MarketRules.Proofs.Text.Matching

/-!
# Rules piece by piece

What a pass over the text of a rule does, it does to one piece after the other, if
each piece can be told from the text in front of it and behind it.  All that has to
be known of the text in front is whether it ends with an operand, and of the text
behind how it can go on.  `EnglishRule.relate` puts a rule together in this way, for
any relation that holds of a text if it holds of its parts.
-/

namespace MarketRules

open Pattern (Ahead GoesOn)

/-! ## Joints -/

/-- A place between two pieces. -/
inductive Joint where
  /-- An operand can begin here. -/
  | before
  /-- An operand ends here, or a parenthesis. -/
  | after
deriving DecidableEq

namespace EnglishPiece

/-- The place in front of the piece. -/
def start : EnglishPiece → Joint
  | comparison _ => .after
  | connective _ => .after
  | _ => .before

/-- The place behind the piece. -/
def stop : EnglishPiece → Joint
  | field _ => .after
  | number _ => .after
  | average _ _ => .after
  | _ => .before

/-! ## Wordings -/

/-- What is left of the piece when all phrases have been applied.  There are still the
blanks that were written for an article or around a word. -/
def rewritten : EnglishPiece → List Char
  | article => "  ".toList
  | comparison phrase => " ".toList ++ (comparison phrase).language ++ " ".toList
  | connective op => " ".toList ++ (connective op).language ++ " ".toList
  | piece => piece.language

/-- The wordings that a piece has on its way into the rule language. -/
def wordings (piece : EnglishPiece) : List (List Char) :=
  [piece.english, piece.rewritten, piece.language]

theorem english_mem_wordings (piece : EnglishPiece) : piece.english ∈ piece.wordings :=
  .head _

theorem rewritten_mem_wordings (piece : EnglishPiece) : piece.rewritten ∈ piece.wordings :=
  .tail _ (.head _)

theorem language_mem_wordings (piece : EnglishPiece) : piece.language ∈ piece.wordings :=
  .tail _ (.tail _ (.head _))

/-- A number is written in the same way from the beginning to the end. -/
theorem eq_chars_of_mem_wordings {n : PlainNumeral} {cs : List Char}
    (worded : cs ∈ (number n).wordings) : cs = n.chars := by
  have member : cs ∈ [n.chars, n.chars, n.chars] := worded
  simpa using member

/-! ## How a text goes on -/

/-- How a comparison or a connective begins in any of its wordings. -/
def linkStarts : List (List Char) :=
  [" a", " be", " e", " g", " h", " i", " l", " mor", " n", " o", " A", " E", " G", " L", " N",
   " O", "  A", "  E", "  G", "  L", "  N", "  O"].map String.toList

/-- How the phrase for a field begins in any of its wordings. -/
def fieldStarts : List (List Char) :=
  ["c", "p", "op", "h", "l", "t", "v", "C", "O", "H", "L", "V"].map String.toList

/-- How an operand begins in any of its wordings. -/
def operandStarts : List (List Char) :=
  "0123456789S".toList.map ([·]) ++ (fieldStarts ++ fieldStarts.map ("  ".toList ++ ·))

/-- The text goes on with one of these. -/
def beginning (starts : List (List Char)) : List Ahead := starts.map (⟨·, false⟩)

/-- How the text can go on behind an operand within a rule. -/
def innerEnds : List Ahead := beginning ([')'] :: linkStarts)

/-- How the text can go on behind the piece, if it goes on behind the rule in one of the
ways `finals`. -/
def ahead (finals : List Ahead) : EnglishPiece → List Ahead
  | article => beginning operandStarts
  | comparison _ => beginning operandStarts
  | connective _ => beginning (['('] :: operandStarts)
  | _ => finals ++ innerEnds

end EnglishPiece

section

open EnglishPiece

variable {finals : List Ahead}

theorem goesOn_beginning {starts : List (List Char)} {cs : List Char}
    (begins : ∃ start ∈ starts, start <+: cs) (rest : List Char) :
    GoesOn (beginning starts) (cs ++ rest) := by
  obtain ⟨start, listed, back, rfl⟩ := begins
  have member : ⟨start, false⟩ ∈ beginning starts := List.mem_map_of_mem listed
  rw [List.append_assoc]
  exact .of_mem start member (back ++ rest)

theorem goesOn_inner {rest : List Char} (goesOn : GoesOn innerEnds rest) :
    GoesOn (finals ++ innerEnds) rest := by
  obtain ⟨a, listed, begins⟩ := goesOn
  exact ⟨a, List.mem_append_right finals listed, begins⟩

theorem goesOn_closing (rest : List Char) : GoesOn (finals ++ innerEnds) (')' :: rest) :=
  goesOn_inner (goesOn_beginning ⟨_, .head _, List.prefix_refl [')']⟩ rest)

theorem goesOn_unknown_append (rest : List Char) : GoesOn ([.unknown] ++ innerEnds) rest :=
  .of_mem [] (.head _) rest

/-- A piece that links goes on as a link, in any wording. -/
theorem goesOn_link {piece : EnglishPiece} (links : piece.start = .after) {cs : List Char}
    (worded : cs ∈ piece.wordings) (rest : List Char) :
    GoesOn (finals ++ innerEnds) (cs ++ rest) := by
  have begins : ∃ start ∈ linkStarts, start <+: cs := by
    induction piece using byKind with
    | word piece member =>
      have all : ∀ piece ∈ words, piece.start = .after → ∀ cs ∈ piece.wordings,
          ∃ start ∈ linkStarts, start <+: cs := by
        decide
      exact all piece member links cs worded
    | number n => cases links
    | average days hyphen => cases links
  obtain ⟨start, listed, isPrefix⟩ := begins
  exact goesOn_inner (goesOn_beginning ⟨start, .tail _ listed, isPrefix⟩ rest)

theorem goesOn_digit {c : Char} (digit : c.isDigit = true) (cs : List Char) (rest : List Char) :
    GoesOn (beginning operandStarts) (c :: cs ++ rest) := by
  have member : c ∈ "0123456789S".toList :=
    List.mem_append_left ['S'] (mem_digits_of_isDigit digit)
  have listed : [c] ∈ operandStarts := List.mem_append_left _ (List.mem_map_of_mem member)
  exact goesOn_beginning ⟨[c], listed, cs, rfl⟩ rest

/-- A field begins an operand, with an article or without. -/
theorem goesOn_field {phrase : FieldPhrase} {front cs : List Char}
    (fronted : front ∈ [] :: article.wordings) (worded : cs ∈ (field phrase).wordings)
    (rest : List Char) : GoesOn (beginning operandStarts) (front ++ cs ++ rest) := by
  have all : ∀ phrase ∈ fieldPhrases.attach, ∀ front ∈ [] :: article.wordings,
      ∀ cs ∈ (field phrase).wordings, ∃ start ∈ operandStarts, start <+: front ++ cs := by
    decide
  exact goesOn_beginning (all phrase (List.mem_attach _ _) front fronted cs worded) rest

theorem goesOn_average {days : DayCount} {hyphen : Bool} {cs : List Char}
    (worded : cs ∈ (average days hyphen).wordings) (rest : List Char) :
    GoesOn (beginning operandStarts) (cs ++ rest) := by
  have called : GoesOn (beginning operandStarts) ((average days hyphen).language ++ rest) := by
    refine goesOn_beginning ⟨['S'], by decide, ?_⟩ rest
    exact ⟨"MA(CLOSE, ".toList ++ days.digits ++ ")".toList, rfl⟩
  simp only [wordings, List.mem_cons, List.not_mem_nil, or_false] at worded
  rcases worded with rfl | rfl | rfl
  · obtain ⟨c, cs, begins⟩ := List.exists_cons_of_ne_nil days.ne_nil
    have digit : c.isDigit = true := days.isDigit c (begins ▸ List.mem_cons_self)
    show GoesOn (beginning operandStarts) (days.digits ++ (averageWords hyphen).toList ++ rest)
    rw [begins]
    exact goesOn_digit digit (cs ++ (averageWords hyphen).toList) rest
  · exact called
  · exact called

end

/-! ## Putting a rule together -/

open EnglishPiece

/-- A relation between a text, what it becomes and the text behind it, from one joint
to another, that holds of a text if it holds of two parts of it. -/
structure Composes (R : Joint → Joint → List Char → List Char → List Char → Prop) : Prop where
  append : ∀ {x y z : Joint} {cs cs' turned turned' rest : List Char},
    R x y cs turned (cs' ++ rest) → R y z cs' turned' rest →
      R x z (cs ++ cs') (turned ++ turned') rest

/-- The relation holds of every piece that stands in a rule. -/
structure Composes.OfPieces (finals : List Ahead)
    (R : Joint → Joint → List Char → List Char → List Char → Prop)
    (wording wording' : EnglishPiece → List Char) : Prop where
  composes : Composes R
  worded : ∀ piece, wording piece ∈ piece.wordings
  pieces : ∀ piece rest, GoesOn (piece.ahead finals) rest →
    R piece.start piece.stop (wording piece) (wording' piece) rest
  opening : ∀ rest, R .before .before ['('] ['('] rest
  closing : ∀ rest, R .after .after [')'] [')'] rest

section

variable {R : Joint → Joint → List Char → List Char → List Char → Prop}
  {wording wording' : EnglishPiece → List Char} {finals : List Ahead}

/-- In any wording an operand begins as operands do. -/
theorem EnglishOperand.goesOn_text (worded : ∀ piece, wording piece ∈ piece.wordings)
    (x : EnglishOperand) (rest : List Char) :
    GoesOn (beginning operandStarts) (x.text wording ++ rest) := by
  cases x with
  | field article phrase =>
    cases article with
    | false =>
      exact goesOn_field List.mem_cons_self (worded (.field phrase)) rest
    | true =>
      exact goesOn_field (.tail _ (worded .article)) (worded (.field phrase)) rest
  | number n =>
    obtain ⟨c, cs, begins, digit⟩ := n.exists_chars_eq_cons
    rw [text, eq_chars_of_mem_wordings (worded (.number n)), begins]
    exact goesOn_digit digit cs rest
  | average days hyphen => exact goesOn_average (worded (.average days hyphen)) rest

/-- In any wording a condition begins as conditions do. -/
theorem EnglishCondition.goesOn_text (worded : ∀ piece, wording piece ∈ piece.wordings)
    (c : EnglishCondition) (rest : List Char) :
    GoesOn (beginning (['('] :: operandStarts)) (c.text wording ++ rest) := by
  cases c with
  | comparison left phrase right =>
    obtain ⟨a, listed, begins⟩ := left.goesOn_text worded
      (wording (.comparison phrase) ++ right.text wording ++ rest)
    rw [← List.append_assoc] at begins
    exact ⟨a, .tail _ listed, begins⟩
  | group r => exact .of_mem ['('] (.head _) _

/-- A relation between the wordings of the pieces holds between those of an operand. -/
theorem EnglishOperand.relate (parts : Composes.OfPieces finals R wording wording')
    (x : EnglishOperand) {rest : List Char} (ends : GoesOn (finals ++ innerEnds) rest) :
    R .before .after (x.text wording) (x.text wording') rest := by
  cases x with
  | field article phrase =>
    have name := parts.pieces (.field phrase) rest ends
    cases article with
    | false => exact name
    | true =>
      have goesOn := goesOn_field List.mem_cons_self (parts.worded (.field phrase)) rest
      exact parts.composes.append (parts.pieces .article _ goesOn) name
  | number n => exact parts.pieces (.number n) rest ends
  | average days hyphen => exact parts.pieces (.average days hyphen) rest ends

mutual

/-- A relation that holds of the pieces holds of the rule. -/
theorem EnglishRule.relate (parts : Composes.OfPieces finals R wording wording') :
    ∀ (r : EnglishRule) {rest : List Char}, GoesOn (finals ++ innerEnds) rest →
      R .before .after (r.text wording) (r.text wording') rest
  | .one c, _, ends => EnglishCondition.relate parts c ends
  | .chain before op last, rest, ends => by
    have behind := EnglishCondition.relate parts last ends
    have link := parts.pieces (.connective op) (last.text wording ++ rest)
      (last.goesOn_text parts.worded rest)
    have front := EnglishRule.relate parts before
      (goesOn_link rfl (parts.worded (.connective op)) (last.text wording ++ rest))
    rw [← List.append_assoc] at front
    exact parts.composes.append front (parts.composes.append link behind)

/-- It holds between those of a condition, whatever the condition ends with. -/
theorem EnglishCondition.relate (parts : Composes.OfPieces finals R wording wording') :
    ∀ (c : EnglishCondition) {rest : List Char}, GoesOn (finals ++ innerEnds) rest →
      R .before .after (c.text wording) (c.text wording') rest
  | .comparison left phrase right, rest, ends => by
    have behind := right.relate parts ends
    have middle := parts.pieces (.comparison phrase) (right.text wording ++ rest)
      (right.goesOn_text parts.worded rest)
    have front := left.relate parts
      (goesOn_link rfl (parts.worded (.comparison phrase)) (right.text wording ++ rest))
    rw [← List.append_assoc] at front
    exact parts.composes.append front (parts.composes.append middle behind)
  | .group r, rest, ends => by
    have inside := EnglishRule.relate parts r (goesOn_closing rest)
    exact parts.composes.append (parts.opening _)
      (parts.composes.append inside (parts.closing rest))

end

end

end MarketRules
