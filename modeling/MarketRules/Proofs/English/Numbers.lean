import MarketRules.Proofs.English.Passes
import MarketRules.Proofs.Text.Runs

/-!
# Numbers under the phrases

A number in an English rule is followed by the end of the rule, a parenthesis or a
blank and a word that no number goes with.  So it comes through all phrases
unchanged.  The number of days of a moving average is taken out of its words by the
first phrase and is a number like any other from then on.
-/

namespace MarketRules

open Pattern EnglishPiece

/-! ## Digits and points -/

/-- The characters of a number. -/
def numberChars : List Char := "0123456789.".toList

/-- What the patterns of numbers take for a part of a number. -/
def InNumber (c : Char) : Prop := isDecimalDigit c = true ∨ c = '.'

/-- How the text can go on behind a number, the point at the end of a clause aside. -/
def numberEnds : List Ahead := ⟨[], true⟩ :: innerEnds

/-- How a comparison begins in the rule language. -/
def symbolStarts : List (List Char) := [" >", " <", " =", " !"].map String.toList

/-- How the text can go on behind a number in either language. -/
def numeralEnds : List Ahead := numberEnds ++ beginning symbolStarts

/-- How a unit begins behind a number. -/
def unitStarts : List (List Char) := [" thousand", " million", " billion"].map String.toList

/-- How the text can go on behind a number that may have a unit. -/
def countEnds : List Ahead := numeralEnds ++ beginning unitStarts

theorem mem_numberChars_of_isDigit {c : Char} (digit : c.isDigit = true) : c ∈ numberChars := by
  have member := List.mem_append_left ['.'] (mem_digits_of_isDigit digit)
  exact member

/-- A plain numeral consists of digits and points. -/
theorem PlainNumeral.mem_numberChars (n : PlainNumeral) : ∀ c ∈ n.chars, c ∈ numberChars := by
  intro c member
  rcases List.mem_append.mp member with inWhole | inPointed
  · exact mem_numberChars_of_isDigit (n.isDigit_whole c inWhole)
  · rw [pointed] at inPointed
    split at inPointed
    · cases inPointed
    · rcases List.mem_cons.mp inPointed with rfl | inFraction
      · decide
      · exact mem_numberChars_of_isDigit (n.isDigit_fraction c inFraction)

theorem DayCount.mem_numberChars (days : DayCount) : ∀ c ∈ days.digits, c ∈ numberChars :=
  fun c member => mem_numberChars_of_isDigit (days.isDigit c member)

theorem goesOn_count {rest : List Char} (goesOn : GoesOn numeralEnds rest) :
    GoesOn countEnds rest := by
  obtain ⟨a, listed, begins⟩ := goesOn
  exact ⟨a, List.mem_append_left _ listed, begins⟩

/-- Where a number ends, something follows that is not part of one. -/
theorem not_inNumber_of_goesOn {rest : List Char} (goesOn : GoesOn countEnds rest) :
    ∀ c ∈ rest.head?, ¬ InNumber c := by
  have stops : ∀ a ∈ countEnds,
      (a.chars.head?.all fun c => !(isDecimalDigit c || c == '.')) = true := by
    decide
  have nonempty : ∀ a ∈ countEnds, a.chars = [] → a.isAll = true := by decide
  obtain ⟨a, listed, more, rfl, whole⟩ := goesOn
  have stop := stops a listed
  intro c member
  cases chars : a.chars with
  | nil =>
    rw [chars, whole (nonempty a listed chars)] at member
    cases member
  | cons x xs =>
    rw [chars] at stop member
    obtain rfl := Option.some.inj member
    rw [List.head?_cons, Option.all_some] at stop
    rintro (digit | rfl)
    · rw [digit] at stop
      cases stop
    · cases stop

/-! ## The patterns of numbers -/

section

variable {run rest : List Char}

theorem reads_digitRun : Phrase.digitRun.Reads InNumber :=
  .seq (.one fun _ => .inl) (.most fun _ => .inl)

/-- There is no moving average in a number. -/
theorem failsIn_movingAverage (inNumber : ∀ c ∈ run, c ∈ numberChars)
    (goesOn : GoesOn countEnds rest) : Phrase.movingAverage.FailsIn run rest := by
  refine .behind reads_digitRun.capture (not_inNumber_of_goesOn goesOn) ?_
  exact .of_failsWithin (by decide) inNumber goesOn

/-- A number without commas has no groups of digits. -/
theorem failsIn_digitGroups (inNumber : ∀ c ∈ run, c ∈ numberChars)
    (goesOn : GoesOn countEnds rest) : Phrase.digitGroups.FailsIn run rest := by
  have stops := not_inNumber_of_goesOn goesOn
  have digit : (Pattern.one .digit).Reads InNumber := .one fun _ => .inl
  have nothing : (Pattern.literal []).Reads InNumber := .literal (by simp)
  refine .behind .edge stops (.seq_left (.capture (.behind digit stops (.behind ?_ stops ?_))))
  · exact .either (.seq digit (.either digit nothing)) nothing
  · exact .of_failsWithin (by decide) inNumber goesOn

/-- No unit follows a number that goes on without one. -/
theorem failsIn_withUnit (inNumber : ∀ c ∈ run, c ∈ numberChars)
    (goesOn : GoesOn numeralEnds rest) : Phrase.withUnit.FailsIn run rest := by
  refine .behind (.capture (.seq reads_digitRun (.either (.seq ?_ reads_digitRun) ?_)))
    (not_inNumber_of_goesOn (goesOn_count goesOn)) ?_
  · exact .literal (by simp [InNumber])
  · exact .literal (by simp)
  · exact .of_failsWithin (by decide) inNumber goesOn

/-- No phrase but that of units finds anything in a number in front of a unit.  Those that
begin with a letter are settled character by character. -/
theorem Phrase.passes_number_of_ne {p : Phrase} (member : p ∈ all) (noUnit : p.pattern ≠ withUnit)
    (inNumber : ∀ c ∈ run, c ∈ numberChars) (goesOn : GoesOn countEnds rest)
    (before : Option Char) : p.pattern.Passes before run rest := by
  have others : ∀ p ∈ all, p.pattern = movingAverage ∨ p.pattern = digitGroups ∨
      p.pattern = withUnit ∨ p.pattern.passesEach numberChars = true := by
    decide
  rcases others p member with same | same | same | settled
  · rw [same]
    exact (failsIn_movingAverage inNumber goesOn).passes before
  · rw [same]
    exact (failsIn_digitGroups inNumber goesOn).passes before
  · exact absurd same noUnit
  · exact passes_of_passesEach settled inNumber rest before

/-- No phrase finds anything in a number. -/
theorem Phrase.passes_number {p : Phrase} (member : p ∈ all)
    (inNumber : ∀ c ∈ run, c ∈ numberChars) (goesOn : GoesOn numeralEnds rest)
    (before : Option Char) : p.pattern.Passes before run rest := by
  by_cases unit : p.pattern = withUnit
  · rw [unit]
    exact (failsIn_withUnit inNumber goesOn).passes before
  · exact passes_number_of_ne member unit inNumber (goesOn_count goesOn) before

/-- That holds as well if a point ends the text.  It then counts as a part of the number,
behind which there is nothing. -/
theorem Phrase.passes_number_of_clauseEnds {p : Phrase} (member : p ∈ all)
    (inNumber : ∀ c ∈ run, c ∈ numberChars) (goesOn : GoesOn (clauseEnds ++ innerEnds) rest)
    (before : Option Char) : p.pattern.Passes before run rest := by
  obtain ⟨a, listed, begins⟩ := goesOn
  rcases List.mem_cons.mp listed with rfl | plain
  · obtain ⟨more, rfl, whole⟩ := begins
    obtain rfl := whole rfl
    have inPointed : ∀ c ∈ run ++ ['.'], c ∈ numberChars :=
      List.forall_mem_append.mpr ⟨inNumber, List.forall_mem_singleton.mpr (by decide)⟩
    have atEnd : GoesOn numeralEnds [] :=
      ⟨⟨[], true⟩, List.mem_append_left _ (.head _), [], rfl, fun _ => rfl⟩
    exact (passes_number member inPointed atEnd before).of_append
  · exact passes_number member inNumber ⟨a, List.mem_append_left _ plain, begins⟩ before

end

/-! ## Numbers -/

theorem EnglishPiece.settles_of_moves {piece : EnglishPiece} {ps : List Phrase}
    (moves : ∀ p ∈ ps, piece.Moves p true true) : piece.Settles ps true :=
  (piece.passage_settles_iff ps true).mp (Passage.settles_of_moves moves)

/-- A number has its last wording from the beginning, as it has only one. -/
theorem EnglishPiece.settles_number (n : PlainNumeral) : (number n).Settles Phrase.all false := by
  show (number n).Settles Phrase.all true
  refine settles_of_moves fun p member rest goesOn before _ => ⟨?_, Joint.allows_after _⟩
  exact (p.passes_number_of_clauseEnds member n.mem_numberChars goesOn before).turns

/-! ## Moving averages -/

/-- ASCII digits are read to their end before anything else is tried. -/
theorem prefers_digitRun {ds rest : List Char} (nonempty : ds ≠ [])
    (isDigit : ∀ c ∈ ds, c.isDigit = true) (stops : ∀ c ∈ rest.head?, isDecimalDigit c = false)
    (before : Option Char) (spans : List Span) :
    Phrase.digitRun.Prefers ⟨before, ds ++ rest, spans⟩ ⟨behind before ds, rest, spans⟩ := by
  have inClass : ∀ c ∈ ds, CharClass.digit.contains c = true :=
    fun c member => isDecimalDigit_of_isDigit (isDigit c member)
  exact prefers_oneOrMore nonempty inClass stops before spans

/-- The words of a moving average are read behind the number of days, whatever follows
them. -/
theorem exists_averageTail : ∃ tail, Phrase.movingAverage = .seq (.capture Phrase.digitRun) tail ∧
    ∀ hyphen, ∀ inWord ∈ [false, true],
      (tail.endsWithin? false ⟨inWord, (averageWords hyphen).toList⟩).map List.head? =
        some (some ⟨true, []⟩) :=
  ⟨_, rfl, by decide⟩

/-- The phrase for a moving average finds it in both spellings, with its days. -/
theorem matchAt?_movingAverage (days : DayCount) (hyphen : Bool) (before : Option Char)
    (rest : List Char) : ∃ e, Phrase.movingAverage.matchAt? before
      (days.digits ++ (averageWords hyphen).toList ++ rest) = some e ∧ e.rest = rest ∧
        e.spans.map Span.chars = [days.digits] := by
  obtain ⟨tail, shape, reads⟩ := exists_averageTail
  let behindDays := (averageWords hyphen).toList ++ rest
  have stops : ∀ c ∈ behindDays.head?, isDecimalDigit c = false := by
    cases hyphen with
    | true =>
      rintro c ⟨⟩
      decide
    | false =>
      rintro c ⟨⟩
      decide
  have captured := (prefers_digitRun days.ne_nil days.isDigit stops before []).capture
  let start : Cursor := ⟨behind before days.digits, behindDays,
    [⟨days.digits ++ behindDays, behindDays⟩]⟩
  have inFront := any_isWordChar_mem start.before
  obtain ⟨found, settled, head⟩ := Option.map_eq_some_iff.mp (reads hyphen _ inFront)
  obtain ⟨later, rfl⟩ := List.head?_eq_some_iff.mp head
  have unknown : false = true → rest = [] := by rintro ⟨⟩
  have shown := endsWithin?_sound unknown tail settled (c := start) ⟨rfl, rfl, rfl⟩
  obtain ⟨e, es, first, -, ends⟩ := List.forall₂_cons_left_iff.mp shown
  have atRest : e.rest = rest := first.rest
  have way : Phrase.movingAverage.Prefers ⟨before, days.digits ++ behindDays, []⟩ e := by
    rw [shape]
    exact captured.seq ⟨es, ends⟩
  refine ⟨e, ?_, atRest, ?_⟩
  · rw [List.append_assoc]
    refine way.matchAt? ?_
    have nonempty := List.length_pos_of_ne_nil days.ne_nil
    rw [atRest, List.length_append, List.length_append]
    omega
  · rw [first.spans]
    simp [start, Span.chars]

/-- The words of a moving average become a call. -/
theorem turns_movingAverage (days : DayCount) (hyphen : Bool) (before : Option Char)
    (rest : List Char) : Phrase.movingAverage.Turns (Phrase.overClose "SMA") before
      (average days hyphen).english (average days hyphen).rewritten rest := by
  obtain ⟨e, matched, ends, spans⟩ := matchAt?_movingAverage days hyphen before rest
  have nonempty : days.digits ++ (averageWords hyphen).toList ≠ [] := by simp [days.ne_nil]
  have turned := turns_of_matchAt? (f := Phrase.overClose "SMA") nonempty matched ends
  rw [spans] at turned
  exact turned

/-- The first phrase is that of moving averages, and the others leave calls alone. -/
theorem exists_all_eq : ∃ others,
    Phrase.all = ⟨Phrase.movingAverage, Phrase.overClose "SMA"⟩ :: others ∧ ∀ p ∈ others,
      p.pattern.passesWithin [.unknown] [false] "SMA(CLOSE, ".toList = true :=
  ⟨_, rfl, by decide⟩

/-- A phrase that finds nothing in the name at the front of a call leaves the call as it is.
-/
theorem moves_average {p : Phrase} (member : p ∈ Phrase.all)
    (front : p.pattern.passesWithin [.unknown] [false] "SMA(CLOSE, ".toList = true)
    (days : DayCount) (hyphen : Bool) : (average days hyphen).Moves p true true := by
  intro rest goesOn before allowed
  refine ⟨?_, Joint.allows_after _⟩
  have marks := Phrase.keepsMarks_of_mem member
  have closing : ∀ before, p.pattern.Passes before ")".toList rest := fun before =>
    passes_of_passesWithin (goesOn_unknown rest) marks.closing (Joint.allows_after before)
  have number := p.passes_number_of_clauseEnds member days.mem_numberChars (goesOn_closing rest)
  have name := passes_of_passesWithin
    (goesOn_unknown (days.digits ++ (")".toList ++ rest))) front allowed
  show p.pattern.Turns _ _ ("SMA(CLOSE, ".toList ++ days.digits ++ ")".toList)
    ("SMA(CLOSE, ".toList ++ days.digits ++ ")".toList) rest
  exact ((name.append (number _)).append (closing _)).turns

/-- The first phrases write the call of a moving average, and all others leave it. -/
theorem settles_average (days : DayCount) (hyphen : Bool) :
    (average days hyphen).Settles Phrase.all false := by
  obtain ⟨others, shape, front⟩ := exists_all_eq
  have member : ∀ p ∈ others, p ∈ Phrase.all := by
    rw [shape]
    exact fun p => List.mem_cons_of_mem _
  rw [shape]
  refine ⟨true, ?_, settles_of_moves fun p listed =>
    moves_average (member p listed) (front p listed) days hyphen⟩
  intro rest goesOn before allowed
  exact ⟨turns_movingAverage days hyphen before rest, Joint.allows_after _⟩

end MarketRules
