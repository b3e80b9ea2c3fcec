import MarketRules.Proofs.English.Numbers
import MarketRules.Proofs.Language.RoundTrip

/-!
# The rule language under the phrases

The canonical text of a rule is a row of pieces.  In lower case a field is the shortest
phrase for itself, and so is a connective.  No phrase finds anything else in the text: the
name of an indicator and the symbols of the comparisons are no words of English, and what
stands around a number goes with none.
-/

namespace MarketRules

open Pattern EnglishPiece

/-! ## Pieces -/

/-- A piece of the canonical text of a rule. -/
inductive RulePiece where
  | opening
  | closing
  | number (negative : Bool) (n : PlainNumeral)
  | field (f : PriceField)
  /-- An indicator call up to its number of bars. -/
  | call (kind : IndicatorKind) (f : PriceField)
  | operator (op : CompareOp)
  | connective (op : LogicOp)

namespace RulePiece

/-- The characters of the piece, with the blanks around it. -/
def chars : RulePiece → List Char
  | opening => ['(']
  | closing => [')']
  | number negative n => Binary64.sign negative ++ n.chars
  | field f => f.name.toList
  | call kind f => kind.name.toList ++ '(' :: f.name.toList ++ ", ".toList
  | operator op => ' ' :: op.symbol.toList ++ [' ']
  | connective op => ' ' :: op.word.toList ++ [' ']

/-- The piece in lower case. -/
def small (piece : RulePiece) : List Char := piece.chars.map Char.toLower

/-- What the phrases make of it.  They leave the name of an indicator in lower case, and
put blanks around a connective. -/
def rewritten : RulePiece → List Char
  | call kind f => kind.name.toList.map Char.toLower ++ '(' :: f.name.toList ++ ", ".toList
  | connective op => ' ' :: (connective op).chars ++ [' ']
  | piece => piece.chars

/-- That in upper case. -/
def capital (piece : RulePiece) : List Char := piece.rewritten.map Char.toUpper

/-- The wordings that a piece has on its way through a translation. -/
def wordings (piece : RulePiece) : List (List Char) :=
  [piece.small, piece.rewritten, piece.capital, piece.chars]

theorem small_mem_wordings (piece : RulePiece) : piece.small ∈ piece.wordings := .head _

theorem rewritten_mem_wordings (piece : RulePiece) : piece.rewritten ∈ piece.wordings :=
  .tail _ (.head _)

theorem capital_mem_wordings (piece : RulePiece) : piece.capital ∈ piece.wordings :=
  .tail _ (.tail _ (.head _))

theorem chars_mem_wordings (piece : RulePiece) : piece.chars ∈ piece.wordings :=
  .tail _ (.tail _ (.tail _ (.head _)))

/-- The pieces that are no numbers. -/
def words : List RulePiece :=
  opening :: closing :: (PriceField.all.map field ++
    (PriceField.all.map (call .movingAverage) ++ (CompareOp.all.map operator ++
      LogicOp.all.map connective)))

/-- A property of the listed words and of all numbers is a property of all pieces. -/
@[elab_as_elim]
theorem byKind {motive : RulePiece → Prop} (word : ∀ piece ∈ words, motive piece)
    (number : ∀ negative n, motive (number negative n)) (piece : RulePiece) : motive piece := by
  have listed (f : PriceField) : f ∈ PriceField.all := by cases f <;> decide
  cases piece with
  | opening => exact word _ (.head _)
  | closing => exact word _ (.tail _ (.head _))
  | number negative n => exact number negative n
  | field f =>
    refine word _ (.tail _ (.tail _ (List.mem_append_left _ ?_)))
    exact List.mem_map_of_mem (listed f)
  | call kind f =>
    cases kind
    refine word _ (.tail _ (.tail _ (List.mem_append_right _ (List.mem_append_left _ ?_))))
    exact List.mem_map_of_mem (listed f)
  | operator op =>
    refine word _ (.tail _ (.tail _ (List.mem_append_right _ (List.mem_append_right _
      (List.mem_append_left _ ?_)))))
    exact List.mem_map_of_mem (by cases op <;> decide)
  | connective op =>
    refine word _ (.tail _ (.tail _ (List.mem_append_right _ (List.mem_append_right _
      (List.mem_append_right _ ?_)))))
    exact List.mem_map_of_mem (by cases op <;> decide)

/-! ### Numbers -/

/-- The characters of a number with a sign. -/
def signedChars : List Char := '-' :: numberChars

theorem mem_signedChars (negative : Bool) (n : PlainNumeral) :
    ∀ c ∈ (number negative n).chars, c ∈ signedChars := by
  intro c member
  rcases List.mem_append.mp member with inSign | inDigits
  · cases negative with
    | true => exact List.mem_singleton.mp inSign ▸ List.mem_cons_self
    | false => cases inSign
  · exact List.mem_cons_of_mem _ (n.mem_numberChars c inDigits)

/-- A number has no letters, so it has one wording. -/
theorem eq_chars_of_mem_wordings {negative : Bool} {n : PlainNumeral} {cs : List Char}
    (worded : cs ∈ (number negative n).wordings) : cs = (number negative n).chars := by
  have caseless : signedChars.all (fun c => c.toLower = c ∧ c.toUpper = c) = true := by decide
  have same : ∀ c ∈ (number negative n).chars, c.toLower = c ∧ c.toUpper = c := fun c member =>
    of_decide_eq_true (List.all_eq_true.mp caseless c (mem_signedChars negative n c member))
  have lower : (number negative n).small = (number negative n).chars := by
    rw [small, List.map_congr_left fun c member => (same c member).1]
    exact List.map_id _
  have upper : (number negative n).capital = (number negative n).chars := by
    show ((number negative n).chars.map Char.toUpper) = _
    rw [List.map_congr_left fun c member => (same c member).2]
    exact List.map_id _
  rw [wordings, lower, upper] at worded
  have member : cs ∈ List.replicate 4 (number negative n).chars := worded
  exact List.eq_of_mem_replicate member

/-- A number begins with its minus or with a digit. -/
theorem exists_number_eq_cons (negative : Bool) (n : PlainNumeral) :
    ∃ c cs, (number negative n).chars = c :: cs ∧ (c = '-' ∨ c.isDigit = true) := by
  cases negative with
  | true => exact ⟨'-', n.chars, rfl, .inl rfl⟩
  | false =>
    obtain ⟨c, cs, begins, digit⟩ := n.exists_chars_eq_cons
    exact ⟨c, cs, begins, .inr digit⟩

/-! ## Joints -/

/-- The place in front of the piece. -/
def start : RulePiece → Joint
  | closing => .after
  | operator _ => .after
  | connective _ => .after
  | _ => .before

/-- The place behind the piece. -/
def stop : RulePiece → Joint
  | closing => .after
  | number _ _ => .after
  | field _ => .after
  | _ => .before

end RulePiece

/-- How a piece in any of its wordings begins behind the joint. -/
def Joint.starts : Joint → List (List Char)
  | .before => ["-", "(", "sm"].map String.toList ++ operandStarts
  | .after => [')'] :: linkStarts ++ symbolStarts

/-- How the text of a rule can go on behind the joint, if it goes on behind the rule in one
of the ways `finals`. -/
def Joint.ahead (finals : List Ahead) : Joint → List Ahead
  | .before => beginning Joint.before.starts
  | .after => finals ++ beginning Joint.after.starts

namespace RulePiece

/-- In each of its wordings a piece begins in one of the ways that its joint announces. -/
theorem exists_start {piece : RulePiece} {cs : List Char} (worded : cs ∈ piece.wordings) :
    ∃ start ∈ piece.start.starts, start <+: cs := by
  induction piece using byKind with
  | word piece member =>
    have all : ∀ piece ∈ words, ∀ cs ∈ piece.wordings,
        ∃ start ∈ piece.start.starts, start <+: cs := by
      decide
    exact all piece member cs worded
  | number negative n =>
    obtain ⟨c, cs, begins, shape⟩ := exists_number_eq_cons negative n
    rw [eq_chars_of_mem_wordings worded, begins]
    refine ⟨[c], ?_, cs, rfl⟩
    rcases shape with rfl | digit
    · exact .head _
    · have member : c ∈ "0123456789S".toList :=
        List.mem_append_left ['S'] (mem_digits_of_isDigit digit)
      exact List.mem_append_right _ (List.mem_append_left _ (List.mem_map_of_mem member))

theorem goesOn_start (piece : RulePiece) {cs : List Char} (worded : cs ∈ piece.wordings)
    (finals : List Ahead) (rest : List Char) : GoesOn (piece.start.ahead finals) (cs ++ rest) := by
  obtain ⟨start, listed, isPrefix⟩ := exists_start worded
  have begins := goesOn_beginning ⟨start, listed, isPrefix⟩ rest
  cases place : piece.start with
  | before =>
    rw [place] at begins
    exact begins
  | after =>
    rw [place] at begins
    obtain ⟨a, member, shape⟩ := begins
    exact ⟨a, List.mem_append_right finals member, shape⟩

end RulePiece

/-! ## Rows of pieces -/

/-- The pieces stand in a row between two joints. -/
inductive Joined : Joint → List RulePiece → Joint → Prop
  | single (piece : RulePiece) : Joined piece.start [piece] piece.stop
  | cons (piece : RulePiece) {pieces : List RulePiece} {y : Joint}
      (others : Joined piece.stop pieces y) : Joined piece.start (piece :: pieces) y

namespace Joined

variable {x y z : Joint} {pieces : List RulePiece} {wording wording' : RulePiece → List Char}
  {finals : List Ahead}

theorem append (first : Joined x pieces y) {others : List RulePiece}
    (second : Joined y others z) : Joined x (pieces ++ others) z := by
  induction first with
  | single piece => exact .cons piece second
  | cons piece _ ih => exact .cons piece (ih second)

/-- Whatever its wordings, a joined text goes on as the joint in front of it says. -/
theorem goesOn (joined : Joined x pieces y) (worded : ∀ piece, wording piece ∈ piece.wordings)
    (finals : List Ahead) (rest : List Char) :
    GoesOn (x.ahead finals) (pieces.flatMap wording ++ rest) := by
  cases joined with
  | single piece =>
    rw [List.flatMap_singleton]
    exact piece.goesOn_start (worded piece) finals rest
  | cons piece others =>
    rw [List.flatMap_cons, List.append_assoc]
    exact piece.goesOn_start (worded piece) finals _

/-- A relation that holds of every piece holds of the row. -/
theorem relate {R : Joint → Joint → List Char → List Char → List Char → Prop}
    (composes : Composes R) (worded : ∀ piece, wording piece ∈ piece.wordings)
    (related : ∀ (piece : RulePiece) rest, GoesOn (piece.stop.ahead finals) rest →
      R piece.start piece.stop (wording piece) (wording' piece) rest)
    (joined : Joined x pieces y) {rest : List Char} (ends : GoesOn (y.ahead finals) rest) :
    R x y (pieces.flatMap wording) (pieces.flatMap wording') rest := by
  induction joined with
  | single piece =>
    rw [List.flatMap_singleton, List.flatMap_singleton]
    exact related piece rest ends
  | cons piece others ih =>
    rw [List.flatMap_cons, List.flatMap_cons]
    exact composes.append (related piece _ (others.goesOn worded finals rest)) (ih ends)

/-- If it holds of the pieces however the text goes on behind the row, it holds of the row
in front of any text. -/
theorem relate_anywhere (wording wording' : RulePiece → List Char)
    {R : Joint → Joint → List Char → List Char → List Char → Prop} (composes : Composes R)
    (worded : ∀ piece, wording piece ∈ piece.wordings)
    (related : ∀ (piece : RulePiece) rest, GoesOn (piece.stop.ahead [.unknown]) rest →
      R piece.start piece.stop (wording piece) (wording' piece) rest)
    (joined : Joined x pieces .after) (rest : List Char) :
    R x .after (pieces.flatMap wording) (pieces.flatMap wording') rest :=
  joined.relate composes worded related (.of_mem [] (.head _) rest)

end Joined

/-! ### The row of a rule -/

/-- The operand is a finite number if it is a number. -/
def Operand.isFinite : Operand → Bool
  | .value x => x.isFinite
  | _ => true

/-- All constants of the rule are finite. -/
def Rule.FiniteConstants (r : Rule) : Prop := ∀ x ∈ r.operands, x.isFinite = true

instance : DecidablePred Rule.FiniteConstants := fun r =>
  inferInstanceAs (Decidable (∀ x ∈ r.operands, x.isFinite = true))

/-- The text of an operand with a finite constant is cut into pieces that fit. -/
theorem Operand.exists_pieces {x : Operand} (finite : x.isFinite = true) :
    ∃ pieces, Joined .before pieces .after ∧ x.chars = pieces.flatMap RulePiece.chars := by
  cases x with
  | value v =>
    obtain ⟨negative, n, written, -⟩ := Binary64.exists_plainChars_eq finite
    refine ⟨_, .single (.number negative n), ?_⟩
    rw [List.flatMap_singleton]
    exact written
  | field f =>
    refine ⟨_, .single (.field f), ?_⟩
    rw [List.flatMap_singleton]
    rfl
  | indicator call =>
    let period : RulePiece := .number false (.ofNat call.period)
    have joined : Joined .before [.call call.kind call.field, period, .closing] .after :=
      .cons (.call call.kind call.field) (.cons period (.single .closing))
    have digits : period.chars = digits call.period := PlainNumeral.ofNat_chars call.period
    refine ⟨_, joined, ?_⟩
    rw [List.flatMap_cons, List.flatMap_cons, List.flatMap_singleton, digits, ← List.append_assoc]
    rfl

/-- The text of a rule with finite constants is cut into pieces that fit. -/
theorem Rule.exists_pieces {r : Rule} (finite : r.FiniteConstants) :
    ∃ pieces, Joined .before pieces .after ∧ r.chars = pieces.flatMap RulePiece.chars := by
  induction r with
  | compare op left right =>
    obtain ⟨front, joined, same⟩ := left.exists_pieces (finite left (.head _))
    obtain ⟨back, joined', same'⟩ := right.exists_pieces (finite right (.tail _ (.head _)))
    refine ⟨_, joined.append (.cons (.operator op) joined'), ?_⟩
    rw [List.flatMap_append, List.flatMap_cons, ← same, ← same']
    simp [Rule.chars, RulePiece.chars]
  | combine op left right ihLeft ihRight =>
    obtain ⟨front, joined, same⟩ := ihLeft fun x member =>
      finite x (List.mem_append_left _ member)
    obtain ⟨inside, joined', same'⟩ := ihRight fun x member =>
      finite x (List.mem_append_right _ member)
    have behind : ∃ back, Joined .before back .after ∧
        right.charsBehind = back.flatMap RulePiece.chars := by
      cases right with
      | compare => exact ⟨inside, joined', same'⟩
      | combine =>
        have grouped : Joined .before (.opening :: (inside ++ [.closing])) .after :=
          .cons .opening (joined'.append (.single .closing))
        refine ⟨_, grouped, ?_⟩
        rw [Rule.charsBehind, same', List.flatMap_cons, List.flatMap_append,
          List.flatMap_singleton]
        rfl
    obtain ⟨back, joinedBack, sameBack⟩ := behind
    refine ⟨_, joined.append (.cons (.connective op) joinedBack), ?_⟩
    rw [List.flatMap_append, List.flatMap_cons, ← same, ← sameBack, Rule.chars_combine]
    simp [RulePiece.chars]

/-! ## All phrases -/

namespace RulePiece

/-- The wording of a piece that its phrase has not rewritten yet, or has. -/
def wording (done : Bool) (piece : RulePiece) : List Char :=
  if done then piece.rewritten else piece.small

/-- The piece as a passage of a clause, behind which nothing follows. -/
def passage (piece : RulePiece) : Passage where
  start := piece.start
  stop := piece.stop
  ahead := piece.stop.ahead [⟨[], true⟩]
  wording done := piece.wording done

/-- The piece has its last wording from the beginning. -/
def isDone (piece : RulePiece) : Bool := piece.small == piece.rewritten

/-- Do all phrases bring the piece to its last wording? -/
def settled (piece : RulePiece) : Bool :=
  withChars piece.small fun small => withChars piece.rewritten fun rewritten =>
    reaches piece.stop small && reaches piece.stop rewritten &&
      settlesWithin piece.start.inWords (piece.stop.ahead [⟨[], true⟩]) small rewritten
        Phrase.all (small == rewritten)

theorem settles_of_settled {piece : RulePiece} (settled : piece.settled = true) :
    piece.passage.Settles Phrase.all piece.isDone := by
  rw [RulePiece.settled, withChars_eq, withChars_eq] at settled
  obtain ⟨reached, run⟩ := Bool.and_eq_true_iff.mp settled
  obtain ⟨small, rewritten⟩ := Bool.and_eq_true_iff.mp reached
  refine Passage.settles_of_settlesWithin ?_ Phrase.all piece.isDone run
  intro done
  cases done with
  | true => exact rewritten
  | false => exact small

/-- A number has its last wording from the beginning. -/
theorem settles_number (negative : Bool) (n : PlainNumeral) :
    (number negative n).passage.Settles Phrase.all (number negative n).isDone := by
  have done : (number negative n).isDone = true :=
    beq_iff_eq.mpr (eq_chars_of_mem_wordings (small_mem_wordings _))
  have signs : ∀ p ∈ Phrase.all, p.pattern.passesEach ['-'] = true := by decide
  rw [done]
  refine Passage.settles_of_moves fun p member rest goesOn before _ =>
    ⟨?_, Joint.allows_after _⟩
  have sign : p.pattern.Passes before (Binary64.sign negative) (n.chars ++ rest) := by
    refine passes_of_passesEach (signs p member) ?_ _ before
    cases negative with
    | true => exact fun c member => member
    | false => exact fun c member => absurd member List.not_mem_nil
  exact (sign.append (p.passes_number member n.mem_numberChars goesOn _)).turns

/-- The phrases bring every piece to its last wording. -/
theorem settles (piece : RulePiece) : piece.passage.Settles Phrase.all piece.isDone := by
  induction piece using byKind with
  | word piece member =>
    have settled : ∀ piece ∈ words, piece.settled = true := by decide +kernel
    exact settles_of_settled (settled piece member)
  | number negative n => exact settles_number negative n

theorem wording_mem_wordings (done : Bool) (piece : RulePiece) :
    piece.wording done ∈ piece.wordings := by
  cases done with
  | false => exact piece.small_mem_wordings
  | true => exact piece.rewritten_mem_wordings

theorem wording_isDone (piece : RulePiece) : piece.wording piece.isDone = piece.small := by
  cases done : piece.isDone with
  | false => rfl
  | true => exact (eq_of_beq done).symm

end RulePiece

/-- The phrases bring the pieces to their last wording, wherever a rule stands alone. -/
theorem Joined.foldl_apply {pieces : List RulePiece} (joined : Joined .before pieces .after) :
    Phrase.all.foldl (fun text phrase => phrase.apply text) (pieces.flatMap RulePiece.small) =
      pieces.flatMap RulePiece.rewritten := by
  have apply : ∀ p ∈ Phrase.all, ∀ done done' : RulePiece → Bool,
      (∀ piece : RulePiece, piece.passage.Moves p (done piece) (done' piece)) →
        p.apply (pieces.flatMap fun piece => piece.wording (done piece)) =
          pieces.flatMap fun piece => piece.wording (done' piece) := by
    intro p member done done' moves
    have atEnd : GoesOn (Joint.after.ahead [⟨[], true⟩]) [] := ⟨_, .head _, [], rfl, fun _ => rfl⟩
    have turned := (joined.relate p.composes_rewrites
      (fun piece => RulePiece.wording_mem_wordings (done piece) piece) moves atEnd none
        (.head _)).1
    rw [Turns, List.append_nil] at turned
    exact turned.trans (List.append_nil _)
  have all := Passage.foldl_apply RulePiece.passage (fun wording => pieces.flatMap wording)
    Phrase.all apply RulePiece.isDone RulePiece.settles
  have small : (fun piece : RulePiece => piece.wording piece.isDone) = RulePiece.small :=
    funext RulePiece.wording_isDone
  show _ = pieces.flatMap fun piece => piece.wording true
  rw [← small]
  exact all

end MarketRules
