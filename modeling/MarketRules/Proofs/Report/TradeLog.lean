import MarketRules.Proofs.Calendar.DateReading
import MarketRules.Proofs.Number.ReadBack
import MarketRules.Report.Console
import MarketRules.Strategy.Basic

/-!
# The heading of the trade log

The heading of the list of trades is in a printed report exactly if the list is wanted and
there are trades.  Nothing else in it can be taken for the heading.  The other lines of a
report have no capital `L`, and the canonical text of a strategy, which is printed in front
of the report, has no small `o`.
-/

namespace MarketRules

/-- The heading of the list of trades. -/
def tradeLogHeading : List Char := "=== Trade Log ===".toList

/-! ## Numbers and dates -/

/-- The characters with which numbers and dates are written. -/
def figureChars : List Char := "0123456789+-.%NaNinf".toList

/-- The text consists of these characters. -/
def IsFigure (cs : List Char) : Prop := ∀ c ∈ cs, c ∈ figureChars

theorem mem_figureChars_of_isDigit {c : Char} (digit : c.isDigit = true) : c ∈ figureChars :=
  List.mem_append_left "+-.%NaNinf".toList (mem_digits_of_isDigit digit)

theorem IsFigure.nil : IsFigure [] := nofun

theorem IsFigure.append {cs ds : List Char} (first : IsFigure cs) (second : IsFigure ds) :
    IsFigure (cs ++ ds) :=
  List.forall_mem_append.mpr ⟨first, second⟩

/-- No other character is in a figure. -/
theorem IsFigure.notMem {cs : List Char} (figure : IsFigure cs) {c : Char}
    (other : c ∉ figureChars) : c ∉ cs :=
  fun member => other (figure c member)

theorem figure_of_all {cs : List Char} (all : cs.all figureChars.contains = true) :
    IsFigure cs :=
  fun c member => List.contains_iff_mem.mp (List.all_eq_true.mp all c member)

theorem isFigure_digits (n : Nat) : IsFigure (digits n) :=
  fun _ member => mem_figureChars_of_isDigit (isDigit_of_mem_digits member)

theorem isFigure_paddedDigits (width n : Nat) : IsFigure (paddedDigits width n) :=
  fun _ member => mem_figureChars_of_isDigit (isDigit_of_mem_paddedDigits member)

namespace Binary64

theorem isFigure_sign (negative : Bool) : IsFigure (sign negative) := by
  unfold IsFigure
  cases negative <;> decide

/-- A number is written with these characters, also if it is infinite or none. -/
theorem isFigure_plainChars (x : Binary64) : IsFigure x.plainChars := by
  cases x with
  | nan => exact figure_of_all (by decide)
  | infinite negative => exact (isFigure_sign negative).append (figure_of_all (by decide))
  | finite n m e canonical =>
    obtain ⟨negative, p, written, -⟩ := exists_plainChars_eq (x := .finite n m e canonical) rfl
    rw [written]
    refine (isFigure_sign negative).append fun c member => ?_
    rcases p.numeric_chars c member with digit | rfl
    · exact mem_figureChars_of_isDigit digit
    · decide

/-- So it is with a fixed number of places. -/
theorem isFigure_fixed (x : Binary64) (places : Nat) : IsFigure (x.fixed places).toList := by
  cases x with
  | nan => exact isFigure_plainChars .nan
  | infinite negative =>
    show IsFigure (plain (.infinite negative)).toList
    rw [plain, String.toList_ofList]
    exact isFigure_plainChars (.infinite negative)
  | finite n m e canonical =>
    rw [fixed, String.toList_ofList]
    refine (isFigure_sign n).append ?_
    have digits := isFigure_paddedDigits (places + 1)
      (nearestEven (steps m e * Nat.pow 10 places) stepsPerUnit)
    unfold placePoint
    refine IsFigure.append (fun c member => digits c (List.mem_of_mem_take member)) ?_
    split
    · exact .nil
    · exact List.forall_mem_cons.mpr
        ⟨by decide, fun c member => digits c (List.mem_of_mem_drop member)⟩

end Binary64

theorem isFigure_percent (x : Binary64) : IsFigure (percent x).toList := by
  rw [percent, String.toList_append]
  exact (Binary64.isFigure_fixed _ 2).append (figure_of_all (by decide))

/-- A date is written with digits and signs. -/
theorem Date.isFigure_text (d : Date) : IsFigure d.text.toList := by
  have year : IsFigure (yearChars d.year) := by
    unfold yearChars
    split
    · exact isFigure_paddedDigits 4 _
    · refine List.forall_mem_cons.mpr ⟨?_, isFigure_paddedDigits 4 _⟩
      split <;> decide
  have dashed {cs : List Char} (figure : IsFigure cs) : IsFigure ('-' :: cs) :=
    List.forall_mem_cons.mpr ⟨by decide, figure⟩
  rw [text, String.toList_ofList, chars]
  exact (year.append (dashed (isFigure_paddedDigits 2 _))).append
    (dashed (isFigure_paddedDigits 2 _))

/-! ## The text of a strategy -/

theorem Operand.notMem_chars (x : Operand) : 'o' ∉ x.chars := by
  cases x with
  | value x => exact (Binary64.isFigure_plainChars x).notMem (by decide)
  | field f => cases f <;> decide
  | indicator call =>
    have period := (isFigure_digits call.period).notMem (c := 'o') (by decide)
    have name : 'o' ∉ call.kind.name.toList := by cases call.kind; decide
    have field : 'o' ∉ call.field.name.toList := by cases call.field <;> decide
    simp [chars, IndicatorCall.chars, name, field, period]

/-- The text of a rule has no small `o`.  All its words are in capitals. -/
theorem Rule.notMem_chars : ∀ r : Rule, 'o' ∉ r.chars
  | .compare op l r => by
    have symbol : 'o' ∉ op.symbol.toList := by cases op <;> decide
    simp [chars, l.notMem_chars, r.notMem_chars, symbol]
  | .combine op l (.compare op' l' r') => by
    have word : 'o' ∉ op.word.toList := by cases op <;> decide
    have right := notMem_chars (.compare op' l' r')
    rw [chars]
    simp [notMem_chars l, word, right]
  | .combine op l (.combine op' l' r') => by
    have word : 'o' ∉ op.word.toList := by cases op <;> decide
    have right := notMem_chars (.combine op' l' r')
    rw [chars, parenthesized]
    simp [notMem_chars l, word, right]

/-- The canonical text of a strategy has no small `o`. -/
theorem Strategy.notMem_text (s : Strategy) : 'o' ∉ s.text.toList := by
  have parts : s.text.toList =
      "ENTRY: ".toList ++ s.entry.chars ++ " EXIT: ".toList ++ s.exit.chars :=
    String.toList_ofList
  rw [parts]
  simp only [List.mem_append, not_or]
  refine ⟨⟨⟨?_, s.entry.notMem_chars⟩, ?_⟩, s.exit.notMem_chars⟩
  · decide
  · decide

/-! ## The lines of a report -/

namespace Report

variable (r : Report) (stats : TradeStats)

/-- The lines in front of the list of trades. -/
def summaryLines : List String := r.equityLines ++ r.statsLines stats ++ r.openLines

theorem notMem_append {c : Char} {s t : String} (first : c ∉ s.toList) (second : c ∉ t.toList) :
    c ∉ (s ++ t).toList := by
  rw [String.toList_append, List.mem_append]
  exact not_or.mpr ⟨first, second⟩

/-- No line in front of the list of trades has a capital `L`. -/
theorem notMem_summaryLines : ∀ line ∈ r.summaryLines stats, 'L' ∉ line.toList := by
  have figures {cs : List Char} (figure : IsFigure cs) : 'L' ∉ cs := figure.notMem (by decide)
  have percents (x : Binary64) := figures (isFigure_percent x)
  have fixed (x : Binary64) (places : Nat) := figures (x.isFigure_fixed places)
  have dates (d : Date) := figures d.isFigure_text
  have count : 'L' ∉ (decimal r.tradeCount).toList := by
    rw [decimal, String.toList_ofList]
    exact figures (isFigure_digits r.tradeCount)
  have equity : ∀ line ∈ r.equityLines, 'L' ∉ line.toList := by
    simp only [equityLines, List.forall_mem_cons]
    refine ⟨?_, ?_, ?_, ?_, List.forall_mem_nil _⟩
    · decide
    · exact notMem_append (by decide) (percents _)
    · exact notMem_append (by decide) (percents _)
    · exact notMem_append (by decide) count
  have ofTrades : ∀ line ∈ r.statsLines stats, 'L' ∉ line.toList := by
    unfold statsLines
    split
    · exact List.forall_mem_nil _
    · simp only [List.forall_mem_cons]
      refine ⟨?_, ?_, ?_, ?_, ?_, List.forall_mem_nil _⟩
      · exact notMem_append (by decide) (percents _)
      · exact notMem_append (by decide) (percents _)
      · exact notMem_append (by decide) (percents _)
      · exact notMem_append (by decide) (percents _)
      · exact notMem_append (notMem_append (by decide) (fixed _ 1)) (by decide)
  have position : ∀ line ∈ r.openLines, 'L' ∉ line.toList := by
    intro line member
    obtain ⟨p, -, rfl⟩ := List.mem_map.mp member
    exact notMem_append (notMem_append (notMem_append (notMem_append (by decide) (dates _))
      (by decide)) (fixed _ 2)) (by decide)
  exact List.forall_mem_append.mpr ⟨List.forall_mem_append.mpr ⟨equity, ofTrades⟩, position⟩

theorem notMem_ofLines {lines : List String} (without : ∀ line ∈ lines, 'L' ∉ line.toList) :
    'L' ∉ (ofLines lines).toList := by
  rw [ofLines, String.toList_join, List.mem_flatMap]
  rintro ⟨ended, listed, member⟩
  obtain ⟨line, inLines, rfl⟩ := List.mem_map.mp listed
  rw [String.toList_append, List.mem_append] at member
  rcases member with inLine | inEnd
  · exact without line inLines inLine
  · revert inEnd
    decide

/-- Each of the lines stands in the printed text. -/
theorem infix_ofLines {lines : List String} {line : String} (listed : line ∈ lines) :
    line.toList <:+: (ofLines lines).toList := by
  obtain ⟨before, after, rfl⟩ := List.append_of_mem listed
  exact ⟨(ofLines before).toList, '\n' :: (ofLines after).toList, by simp [ofLines]⟩

variable {r stats} in
/-- Without the list of trades a report has no capital `L`. -/
theorem notMem_console {showTrades : Bool} (hidden : ¬ (showTrades = true ∧ r.trades ≠ [])) :
    'L' ∉ (r.console stats showTrades).toList := by
  have lines : r.console stats showTrades = ofLines (r.summaryLines stats) := by
    rw [console, ← summaryLines]
    cases showTrades with
    | false => exact congrArg ofLines (List.append_nil _)
    | true =>
      have none : r.trades = [] := Decidable.not_not.mp fun some => hidden ⟨rfl, some⟩
      rw [tradeLines, if_pos none, if_pos rfl, List.append_nil]
  rw [lines]
  exact notMem_ofLines (r.notMem_summaryLines stats)

/-- The heading is printed exactly if the list of trades is wanted and there are trades. -/
theorem heading_infix_console_iff (showTrades : Bool) :
    tradeLogHeading <:+: (r.console stats showTrades).toList ↔
      showTrades = true ∧ r.trades ≠ [] := by
  constructor
  · intro found
    refine Decidable.byContradiction fun hidden => ?_
    exact notMem_console hidden (found.subset (by decide))
  · rintro ⟨rfl, some⟩
    have listed : "=== Trade Log ===" ∈ if True then r.tradeLines else [] := by
      rw [if_pos trivial, tradeLines, if_neg some]
      simp
    exact infix_ofLines (List.mem_append_right _ listed)

/-- Behind a text without small `o` that ends its line, the heading is found exactly if it
stands in what follows.  It holds a small `o` and no line end. -/
theorem heading_infix_append_iff {front back : List Char} (inFront : 'o' ∉ front) :
    tradeLogHeading <:+: front ++ '\n' :: back ↔ tradeLogHeading <:+: back := by
  constructor
  · intro found
    rcases List.infix_append_iff.mp found with before | after | ⟨l, l', cut, ends, begins⟩
    · exact absurd (before.subset (by decide)) inFront
    · rcases List.infix_cons_iff.mp after with atOnce | later
      · exact absurd (List.cons_prefix_cons.mp atOnce).1 (by decide)
      · exact later
    · cases l' with
      | nil =>
        rw [List.append_nil] at cut
        exact absurd (ends.subset (cut ▸ by decide)) inFront
      | cons c cs =>
        obtain ⟨rfl, -⟩ := List.cons_prefix_cons.mp begins
        have lineEnd : '\n' ∈ tradeLogHeading := cut ▸ List.mem_append_right _ List.mem_cons_self
        exact absurd lineEnd (by decide)
  · intro later
    exact later.trans ((List.suffix_cons '\n' back).trans (List.suffix_append front _)).isInfix

end Report

end MarketRules
