import MarketRules.Proofs.English.Comparisons
import MarketRules.Proofs.English.HollowClauses
import MarketRules.Proofs.English.Sentences
import MarketRules.Proofs.Language.NumberText
import MarketRules.Proofs.Text.Described

/-!
# Numbers of the rule language in English

`Buy when close is above` can be followed by any number that the rule language reads.  No
phrase finds anything in it, but a point that does not stand between two digits is taken for
the end of a sentence and dropped.  Behind the digits such a point says nothing.  In front of
them it does, and without it the digits are read as a whole number.
-/

namespace MarketRules

open Pattern (GoesOn behind passes_of_requires)

/-! ## Points -/

namespace NumberText

variable (n : NumberText)

/-- The number without a point that does not stand between two digits. -/
def bare : NumberText :=
  if noWhole : n.whole = [] then
    { n with
      whole := n.fraction.getD []
      fraction := none
      isDigit_whole := n.isDigit_fraction
      isDigit_fraction := fun _ member => absurd member List.not_mem_nil
      hasDigit := .inl (n.hasDigit.resolve_left fun whole => whole noWhole) }
  else if n.fraction = some [] then
    { n with
      fraction := none
      isDigit_fraction := fun _ member => absurd member List.not_mem_nil
      hasDigit := .inl noWhole }
  else n

theorem bare_withLetter (capital : Bool) :
    (n.withLetter capital).bare = n.bare.withLetter capital := by
  unfold bare
  by_cases noWhole : n.whole = []
  · rw [dif_pos noWhole, dif_pos (show (n.withLetter capital).whole = [] from noWhole)]
    rfl
  · rw [dif_neg noWhole, dif_neg (show (n.withLetter capital).whole ≠ [] from noWhole)]
    by_cases noFraction : n.fraction = some []
    · rw [if_pos noFraction,
        if_pos (show (n.withLetter capital).fraction = some [] from noFraction)]
      rfl
    · rw [if_neg noFraction,
        if_neg (show (n.withLetter capital).fraction ≠ some [] from noFraction)]

/-- Behind the digits a point says nothing. -/
theorem value_bare (whole : n.whole ≠ []) : n.bare.value = n.value := by
  rw [bare, dif_neg whole]
  split
  · next noFraction =>
    simp only [value, noFraction]
    rfl
  · rfl

/-- Neither does an exponent have a point. -/
theorem point_notMem_exponentChars (e : Option ExponentText) : '.' ∉ exponentChars e := by
  cases e with
  | none => exact List.not_mem_nil
  | some e =>
    have sign : '.' ∉ e.sign.chars := by cases e.sign <;> decide
    have letter : '.' ≠ ExponentText.mark e.capital := by cases e.capital <;> decide
    simp [exponentChars, sign, letter, point_notMem_of_isDigit e.isDigit]

/-- There is no point in front of the fraction. -/
theorem point_notMem_front : '.' ∉ n.sign.chars ++ n.whole := by
  have sign : '.' ∉ n.sign.chars := by cases n.sign <;> decide
  simp [sign, point_notMem_of_isDigit n.isDigit_whole]

theorem dropPeriods_eq_self {cs : List Char} (noPoint : '.' ∉ cs) (before : Option Char) :
    dropPeriods before cs = cs := by
  have kept : dropPeriods before (cs ++ []) = cs ++ dropPeriods (behind before cs) [] :=
    dropPeriods_of_notMem noPoint before
  rw [List.append_nil] at kept
  exact kept.trans (List.append_nil cs)

/-- Digits and an exponent have no point to drop. -/
theorem dropPeriods_exponentChars (e : Option ExponentText) {ds : List Char}
    (digits : ∀ c ∈ ds, c.isDigit = true) (before : Option Char) :
    dropPeriods before (ds ++ exponentChars e) = ds ++ exponentChars e :=
  dropPeriods_eq_self (by simp [point_notMem_of_isDigit digits, point_notMem_exponentChars]) before

theorem isDigit_behind_of_forall_mem {cs : List Char} (none : ∀ c ∈ cs, c.isDigit = false)
    {before : Option Char} (noDigit : before.any Char.isDigit = false) :
    (behind before cs).any Char.isDigit = false := by
  rcases List.eq_nil_or_concat cs with rfl | ⟨front, last, rfl⟩
  · exact noDigit
  · rw [List.concat_eq_append] at none ⊢
    rw [Pattern.behind_append]
    exact none last (by simp)

/-- A point is dropped unless there is a digit on both sides of it. -/
theorem dropPeriods_of_apart {before : Option Char} {cs : List Char}
    (apart : ¬ (before.any Char.isDigit = true ∧ cs.head?.any Char.isDigit = true)) :
    dropPeriods before ('.' :: cs) = dropPeriods (some '.') cs := by
  rw [dropPeriods, if_pos ⟨rfl, apart⟩]

/-- A point is kept between two digits. -/
theorem dropPeriods_pointChars (e : Option ExponentText) {point : Option (List Char)}
    (digits : ∀ c ∈ point.getD [], c.isDigit = true) (before : Option Char) :
    dropPeriods before (pointChars point ++ exponentChars e) =
      (if before.any Char.isDigit = true ∧ point.getD [] ≠ [] then pointChars point
        else point.getD []) ++ exponentChars e := by
  cases point with
  | none =>
    rw [if_neg fun between => between.2 rfl]
    exact dropPeriods_exponentChars e digits before
  | some ds =>
    change ∀ c ∈ ds, c.isDigit = true at digits
    show dropPeriods before ('.' :: (ds ++ exponentChars e)) =
      (if before.any Char.isDigit = true ∧ ds ≠ [] then '.' :: ds else ds) ++ exponentChars e
    have head : (ds ++ exponentChars e).head?.any Char.isDigit = true ↔ ds ≠ [] := by
      cases ds with
      | nil =>
        have stops := head?_exponentChars e
        cases exponent : exponentChars e with
        | nil => simp
        | cons c cs =>
          rw [exponent] at stops
          simp [(stops c rfl).1]
      | cons d ds => simp [digits d List.mem_cons_self]
    by_cases between : before.any Char.isDigit = true ∧ ds ≠ []
    · have kept : ¬ ('.' = '.' ∧ ¬ (before.any Char.isDigit = true ∧
          (ds ++ exponentChars e).head?.any Char.isDigit = true)) :=
        fun point => point.2 ⟨between.1, head.mpr between.2⟩
      rw [if_pos between, dropPeriods, if_neg kept, dropPeriods_exponentChars e digits]
      rfl
    · rw [if_neg between, dropPeriods_of_apart (by rwa [head]),
        dropPeriods_exponentChars e digits]

theorem chars_bare_of_whole_eq_nil (noWhole : n.whole = []) :
    n.bare.chars = n.sign.chars ++ (n.fraction.getD [] ++ exponentChars n.exponent) := by
  rw [bare, dif_pos noWhole]
  rfl

/-- The points of a number that stands behind no digit are kept only between digits. -/
theorem dropPeriods_chars {before : Option Char} (noDigit : before.any Char.isDigit = false) :
    dropPeriods before n.chars = n.bare.chars := by
  have shape : n.chars =
      n.sign.chars ++ n.whole ++ (pointChars n.fraction ++ exponentChars n.exponent) := by
    rw [chars, body, List.append_assoc]
  rw [shape, dropPeriods_of_notMem n.point_notMem_front,
    dropPeriods_pointChars n.exponent n.isDigit_fraction]
  by_cases noWhole : n.whole = []
  · have apart : (behind before (n.sign.chars ++ n.whole)).any Char.isDigit = false := by
      rw [noWhole, List.append_nil]
      refine isDigit_behind_of_forall_mem ?_ noDigit
      cases n.sign <;> decide
    rw [apart, if_neg fun between => Bool.false_ne_true between.1,
      n.chars_bare_of_whole_eq_nil noWhole, noWhole, List.append_nil]
  · have inFront : (behind before (n.sign.chars ++ n.whole)).any Char.isDigit = true := by
      rw [Pattern.behind_append]
      exact behind_isDigit noWhole n.isDigit_whole _
    rw [bare, dif_neg noWhole]
    by_cases noFraction : n.fraction = some []
    · rw [if_pos noFraction, noFraction, if_neg fun between => between.2 rfl]
      simp [chars, body, pointChars]
    · rw [if_neg noFraction, shape, inFront]
      cases point : n.fraction with
      | none => rfl
      | some ds =>
        have digits : ds ≠ [] := by
          rintro rfl
          exact noFraction point
        rw [if_pos ⟨rfl, digits⟩]

/-- A number without digits before the point is bare without its point. -/
theorem chars_bare (noWhole : n.whole = []) : n.bare.chars = n.chars.filter (· ≠ '.') := by
  have keeps {cs : List Char} (noPoint : '.' ∉ cs) : cs.filter (· ≠ '.') = cs :=
    List.filter_eq_self.mpr fun c member => decide_eq_true fun point => noPoint (point ▸ member)
  have front := keeps n.point_notMem_front
  have exponent := keeps (point_notMem_exponentChars n.exponent)
  have fraction := keeps (point_notMem_of_isDigit n.isDigit_fraction)
  have point : (pointChars n.fraction).filter (· ≠ '.') = n.fraction.getD [] := by
    rw [← fraction]
    cases n.fraction <;> rfl
  rw [noWhole, List.append_nil] at front
  rw [n.chars_bare_of_whole_eq_nil noWhole, chars, body, noWhole, List.nil_append,
    List.filter_append, List.filter_append, front, point, exponent]

end NumberText

/-! ## Under the phrases -/

/-- Does the character stand in a number in lower case, or is it a blank? -/
def isSpelled (c : Char) : Bool := isBlank c || 'e' == c || NumberText.signDigitPoint.contains c

/-- Every phrase has a word or a comma in it. -/
theorem Phrase.passes_spelled {p : Phrase} (member : p ∈ all) {cs : List Char}
    (spelled : ∀ c ∈ cs, isSpelled c = true) (before : Option Char) :
    p.pattern.Passes before cs [] := by
  have required : ∀ p ∈ all,
      p.pattern.requires (fun w => w.any fun c => !isSpelled c) = true := by
    decide
  refine passes_of_requires (required p member) (fun w within => ?_) before
  rw [List.append_nil] at within
  refine List.any_eq_false.mpr fun c inside => ?_
  simp [spelled c (within.subset inside)]

/-- A text of these characters as an operand. -/
def spelledPassage (cs : List Char) : Passage where
  start := .before
  stop := .after
  ahead := [⟨[], true⟩]
  wording _ := cs

/-- A number in any spelling is an operand.  It has one wording, which no phrase changes. -/
theorem spelledPassage_isOperand {cs : List Char} (spelled : ∀ c ∈ cs, isSpelled c = true) :
    (spelledPassage cs).IsOperand := by
  refine ⟨rfl, rfl, ?_⟩
  show (spelledPassage cs).Settles Phrase.all true
  refine Passage.settles_of_moves fun p member => ?_
  exact Passage.moves_of_turns_at_end rfl rfl fun before =>
    (p.passes_spelled member spelled before).turns

/-! ## Tidying -/

theorem compact_blanks {blanks : List Char} (blank : ∀ c ∈ blanks, isBlank c = true)
    (rest : List Char) : compact true (blanks ++ rest) = compact true rest := by
  induction blanks with
  | nil => rfl
  | cons c cs ih =>
    obtain ⟨first, later⟩ := List.forall_mem_cons.mp blank
    rw [List.cons_append, compact, if_pos first, ih later]
    rfl

namespace NumberText

variable (n : NumberText) {blanks : List Char}

/-- A number has neither blanks nor parentheses. -/
theorem not_isBlank_chars : ∀ c ∈ n.chars, isBlank c = false ∧ c ≠ '(' ∧ c ≠ ')' := by
  have others : ∀ c ∈ signDigitPoint, isBlank c = false ∧ c ≠ '(' ∧ c ≠ ')' := by decide
  refine n.forall_mem_chars others fun e _ => ?_
  cases e.capital <;> decide

theorem endsSolid_chars : EndsSolid n.chars :=
  endsSolid_of_forall_mem n.chars_ne_nil fun c member => (n.not_isBlank_chars c member).1

/-- Of a number between blanks only the letter of the exponent is put in lower case. -/
theorem lower_between_blanks {front after : List Char} (blank : ∀ c ∈ blanks, isBlank c = true)
    (blankAfter : ∀ c ∈ after, isBlank c = true) (ascii : ∀ c ∈ front, c.toNat < 128) :
    lower (front ++ (blanks ++ (n.chars ++ after))) =
      front.map Char.toLower ++ (blanks ++ ((n.withLetter false).chars ++ after)) := by
  have small {cs : List Char} (blank : ∀ c ∈ cs, isBlank c = true) : cs.map Char.toLower = cs := by
    rw [List.map_congr_left fun c member => toLower_of_isBlank (blank c member)]
    exact List.map_id _
  have number : n.chars.map Char.toLower = (n.withLetter false).chars :=
    n.map_chars (by decide) (by decide)
  have simple : ∀ c ∈ front ++ (blanks ++ (n.chars ++ after)), c.toNat < 128 ∨ isBlank c = true :=
    List.forall_mem_append.mpr ⟨fun c member => .inl (ascii c member),
      List.forall_mem_append.mpr ⟨fun c member => .inr (blank c member),
        List.forall_mem_append.mpr ⟨fun c member => .inl (n.ascii_chars c member),
          fun c member => .inr (blankAfter c member)⟩⟩⟩
  rw [lower_of_ascii_or_isBlank simple, List.map_append, List.map_append, List.map_append,
    small blank, number, small blankAfter]

theorem upper_behind_blanks (blank : ∀ c ∈ blanks, isBlank c = true) :
    upper ("CLOSE".toList ++ ("  GT  ".toList ++ (blanks ++ n.chars))) =
      "CLOSE".toList ++ "  GT  ".toList ++ blanks ++ (n.withLetter true).chars := by
  have ascii : ∀ c ∈ "CLOSE".toList ++ "  GT  ".toList, c.toNat < 128 := by decide
  have front : ("CLOSE".toList ++ "  GT  ".toList).map Char.toUpper =
      "CLOSE".toList ++ "  GT  ".toList := by
    decide
  have blanksUpper : blanks.map Char.toUpper = blanks := by
    rw [List.map_congr_left fun c member => toUpper_of_isBlank (blank c member)]
    exact List.map_id _
  have number : n.chars.map Char.toUpper = (n.withLetter true).chars :=
    n.map_chars (by decide) (by decide)
  have simple : ∀ c ∈ "CLOSE".toList ++ "  GT  ".toList ++ (blanks ++ n.chars),
      c.toNat < 128 ∨ isBlank c = true :=
    List.forall_mem_append.mpr ⟨fun c member => .inl (ascii c member),
      List.forall_mem_append.mpr ⟨fun c member => .inr (blank c member),
        fun c member => .inl (n.ascii_chars c member)⟩⟩
  rw [← List.append_assoc, upper_of_ascii_or_isBlank simple, List.map_append, front,
    List.map_append, blanksUpper, number, ← List.append_assoc]

/-- Behind the comparison a number is made bare. -/
theorem dropPeriods_behind_blanks (blank : ∀ c ∈ blanks, isBlank c = true) :
    dropPeriods none ("CLOSE".toList ++ "  GT  ".toList ++ blanks ++ n.chars) =
      "CLOSE".toList ++ "  GT  ".toList ++ blanks ++ n.bare.chars := by
  have noPoint : '.' ∉ "CLOSE".toList ++ "  GT  ".toList ++ blanks := by
    intro member
    rcases List.mem_append.mp member with inFront | inBlanks
    · exact absurd inFront (by decide)
    · exact absurd (blank '.' inBlanks) (by decide)
  have noDigit : ∀ c ∈ "CLOSE".toList ++ "  GT  ".toList ++ blanks, c.isDigit = false := by
    refine List.forall_mem_append.mpr ⟨by decide, fun c member => ?_⟩
    exact isDigit_eq_false_of_isBlank (blank c member)
  rw [dropPeriods_of_notMem noPoint,
    n.dropPeriods_chars (isDigit_behind_of_forall_mem noDigit rfl)]

/-- The blanks around a number are tidied to one in front of it. -/
theorem tidyBlanks_behind_blanks (blank : ∀ c ∈ blanks, isBlank c = true) :
    tightenOpening false
        (trim (squeezeBlanks false ("CLOSE".toList ++ "  GT  ".toList ++ blanks ++ n.chars))) =
      "CLOSE GT ".toList ++ n.chars := by
  have kept : compact true (n.chars ++ []) = n.chars ++ compact false [] :=
    compact_solid n.chars_ne_nil
      (fun c member => ⟨(n.not_isBlank_chars c member).1, (n.not_isBlank_chars c member).2.1⟩) true
  rw [tidyBlanks (n.endsSolid_chars.append _), List.append_assoc, compact_append,
    ← List.append_nil n.chars]
  show "CLOSE GT ".toList ++ compact true (blanks ++ (n.chars ++ [])) = _
  rw [compact_blanks blank, kept]
  rfl

/-- What tidying leaves of a number behind `CLOSE GT`. -/
theorem tidy_behind_blanks (blank : ∀ c ∈ blanks, isBlank c = true) :
    tidy ("CLOSE".toList ++ ("  GT  ".toList ++ (blanks ++ n.chars))) =
      "CLOSE GT ".toList ++ (n.withLetter true).bare.chars := by
  let clause := "CLOSE GT ".toList ++ (n.withLetter true).bare.chars
  have noClosing : ')' ∉ clause := by
    intro member
    rcases List.mem_append.mp member with inFront | inNumber
    · exact absurd inFront (by decide)
    · exact ((n.withLetter true).bare.not_isBlank_chars ')' inNumber).2.2 rfl
  have tightened : tightenClosing (clause ++ []) = clause ++ tightenClosing [] :=
    tightenClosing_of_closing_notMem noClosing (by rintro ⟨⟩)
  rw [List.append_nil] at tightened
  rw [tidy, n.upper_behind_blanks blank, (n.withLetter true).dropPeriods_behind_blanks blank,
    (n.withLetter true).bare.tidyBlanks_behind_blanks blank]
  exact tightened.trans (List.append_nil _)

end NumberText

/-! ## Clauses -/

theorem close_listed : ("close", "CLOSE") ∈ fieldPhrases := by decide

/-- The phrase `close`. -/
def closePhrase : FieldPhrase := ⟨("close", "CLOSE"), close_listed⟩

theorem NumberText.isSpelled_chars (n : NumberText) {blanks : List Char}
    (blank : ∀ c ∈ blanks, isBlank c = true) :
    ∀ c ∈ blanks ++ (n.withLetter false).chars, isSpelled c = true := by
  have others : ∀ c ∈ signDigitPoint, isSpelled c = true := by decide
  refine List.forall_mem_append.mpr ⟨fun c member => ?_,
    (n.withLetter false).forall_mem_chars others fun e member => ?_⟩
  · rw [isSpelled, blank c member]
    rfl
  · rw [n.capital_of_mem_withLetter member]
    decide

/-- A threshold is rewritten to the comparison with the bare number. -/
theorem NumberText.rewriteClauseChars_above (n : NumberText) {blanks : List Char}
    (blank : ∀ c ∈ blanks, isBlank c = true) :
    rewriteClauseChars ("close is above ".toList ++ (blanks ++ (n.withLetter false).chars)) =
      "CLOSE GT ".toList ++ (n.bare.withLetter true).chars := by
  have ascii : ∀ c ∈ "close is above ".toList, c.toNat < 128 := by decide
  have nothing : ∀ c ∈ ([] : List Char), isBlank c = true := by decide
  have lowered := (n.withLetter false).lower_between_blanks blank nothing ascii
  rw [withLetter_withLetter, List.append_nil] at lowered
  have rewritten := MarketRules.rewriteClauseChars_above closePhrase
    (spelledPassage_isOperand (n.isSpelled_chars blank)) lowered
  have tidied := (n.withLetter false).tidy_behind_blanks blank
  rw [withLetter_withLetter, bare_withLetter] at tidied
  exact rewritten.trans tidied

/-- The words of such a clause. -/
theorem NumberText.words?_above (n : NumberText) :
    words? (String.ofList ("CLOSE GT ".toList ++ n.chars)) =
      some [(.field .closing, "CLOSE"), (.operator .greater, "GT"),
        (.number, String.ofList n.chars)] := by
  have front : words? "CLOSE GT" =
      some [(.field .closing, "CLOSE"), (.operator .greater, "GT")] := by
    decide
  have shape : String.ofList ("CLOSE GT ".toList ++ n.chars) =
      "CLOSE GT" ++ " " ++ String.ofList n.chars := by
    apply String.toList_injective
    simp
  rw [shape, words?_append_blank, front, n.words?_chars]
  rfl

/-- The comparison with a finite number is a clause of the rule language. -/
theorem NumberText.isClause_above {n : NumberText} (finite : n.value.isFinite = true) :
    (Rule.compare .greater (.field .closing) (.value n.value)).IsClause
      (String.ofList ("CLOSE GT ".toList ++ n.chars)) := by
  let c : ComparisonTree := ⟨.field ⟨.field .closing, "CLOSE", 0⟩ .closing,
    ⟨.operator .greater, "GT", 0⟩, .greater, .number ⟨.number, String.ofList n.chars, 0⟩⟩
  have operand : Operand.ofText (String.ofList n.chars) = .ok (.value n.value) := by
    rw [Operand.ofText, String.toList_ofList, n.readNumeral?_chars, Option.filter_some,
      if_pos finite]
  have built : c.build = .ok (.compare .greater (.field .closing) (.value n.value)) := by
    show (Operand.ofText (String.ofList n.chars)).bind _ = _
    rw [operand]
    rfl
  have allowed : (RuleTree.one (.comparison c)).extent.Allowed := by
    show 0 ≤ maxNesting ∧ 1 ≤ Rule.maxComparisons
    decide
  exact ⟨.one (.comparison c), ⟨rfl, rfl, rfl⟩, allowed, built, n.words?_above⟩

/-! ## Sentences -/

/-- A sentence without the words that begin an exit clause has no such clause. -/
theorem Translation.splitClauses_of_noExit {entry after : List Char} (begins : BeginsSolid entry)
    (ends : EndsSolid entry) (blank : ∀ c ∈ after, isBlank c = true) (noWhen : 'w' ∉ entry) :
    splitClauses ("buy when ".toList ++ (entry ++ after)) = (entry, []) := by
  have required : exitOpening.requires (fun w => w.contains 'w') = true := by decide
  have absent : 'w' ∉ entry ++ after := by
    intro member
    rcases List.mem_append.mp member with inEntry | inAfter
    · exact noWhen inEntry
    · exact absurd (blank 'w' inAfter) (by decide)
  have passes : exitOpening.Passes none (entry ++ after) [] := by
    refine passes_of_requires required (fun w within => ?_) none
    rw [List.append_nil] at within
    exact Bool.eq_false_iff.mpr fun found =>
      absent (within.subset (List.contains_iff_mem.mp found))
  have noExit : exitOpening.split? none (entry ++ after) = none := by
    have none := passes.split?
    rw [List.append_nil] at none
    exact none
  rw [splitClauses, split?_entryOpening]
  dsimp only
  rw [(begins.append after).trimStart, noExit]
  show (trim (entry ++ after), []) = _
  rw [trim_append blank, trim_eq_self begins ends]

namespace NumberText

variable (n : NumberText) {before after : List Char}

/-- The translation of a number behind `Buy when close is above`, with blanks around it. -/
theorem translation_above (blank : ∀ c ∈ before ++ after, isBlank c = true) :
    Translation.ofText
        (String.ofList ("Buy when close is above ".toList ++ (before ++ (n.chars ++ after)))) =
      ⟨String.ofList ("CLOSE GT ".toList ++ (n.bare.withLetter true).chars), "0 > 1", true⟩ := by
  obtain ⟨blankBefore, blankAfter⟩ := List.forall_mem_append.mp blank
  let entry := "close is above ".toList ++ (before ++ (n.withLetter false).chars)
  have ascii : ∀ c ∈ "Buy when close is above ".toList, c.toNat < 128 := by decide
  have lowered := n.lower_between_blanks blankBefore blankAfter ascii
  have shape : "Buy when close is above ".toList.map Char.toLower ++
      (before ++ ((n.withLetter false).chars ++ after)) =
        "buy when ".toList ++ (entry ++ after) := by
    have front : "Buy when close is above ".toList.map Char.toLower =
        "buy when ".toList ++ "close is above ".toList := by
      decide
    rw [front]
    simp only [entry, List.append_assoc]
  have begins : BeginsSolid entry := by
    have front : BeginsSolid "close is above ".toList := by decide
    exact front.append _
  have ends : EndsSolid entry :=
    ((n.withLetter false).endsSolid_chars.append before).append _
  have noWhen : 'w' ∉ entry := by
    intro member
    rcases List.mem_append.mp member with inFront | inNumber
    · exact absurd inFront (by decide)
    · exact absurd (n.isSpelled_chars blankBefore 'w' inNumber) (by decide)
  have nothing : rewriteClauseChars [] = [] := rewriteClauseChars_eq_nil_iff.mpr .nil
  rw [Translation.ofText, String.toList_ofList, lowered, shape,
    Translation.splitClauses_of_noExit begins ends blankAfter noWhen]
  dsimp only
  rw [n.rewriteClauseChars_above blankBefore, nothing, if_pos rfl, decide_eq_true rfl,
    Translation.neverExit_eq]

/-- The sentence compiles to a comparison with the number that is left without its point. -/
theorem compiles_above (blank : ∀ c ∈ before ++ after, isBlank c = true)
    (finite : n.bare.value.isFinite = true) :
    ∃ c, CheckedStrategy.ofEnglish
        (String.ofList ("Buy when close is above ".toList ++ (before ++ (n.chars ++ after)))) =
          .ok c ∧
      c.toStrategy = ⟨.compare .greater (.field .closing) (.value n.bare.value), .never⟩ := by
  have isClause := isClause_above (n := n.bare.withLetter true)
    (by rw [value_withLetter]; exact finite)
  rw [value_withLetter] at isClause
  have compiled := Strategy.ofText_clausesText_eq_ok_iff
    (s := ⟨.compare .greater (.field .closing) (.value n.bare.value), .never⟩).mpr
      ⟨isClause, Rule.isClause_never⟩
  rw [CheckedStrategy.ofEnglish, n.translation_above blank]
  exact CheckedStrategy.exists_of_ofText compiled

/-- A number begins with a point behind its sign if it has no digits in front of one. -/
theorem head?_body : n.body.head? = some '.' ↔ n.whole = [] := by
  rw [body]
  cases whole : n.whole with
  | cons c cs =>
    have digit : c.isDigit = true := n.isDigit_whole c (whole ▸ List.mem_cons_self)
    have noPoint : c ≠ '.' := ne_of_class digit rfl
    simp [noPoint]
  | nil =>
    cases fraction : n.fraction with
    | none => exact absurd ⟨whole, by rw [fraction]; rfl⟩ n.not_digitless
    | some ds => simp [pointChars]

end NumberText

namespace CheckedStrategy

/-- A text that the rule language reads as one finite number gives a comparison with this
number, unless it begins with a point behind its sign.  Then the point is lost, and the
comparison is with the number that is left. -/
theorem ofEnglish_threshold {text : String} {stream : TokenStream} {t : Token} {v : Binary64}
    (read : TokenStream.ofText text = .ok stream) (single : stream.tokens = [t])
    (number : t.kind = .number) (value : readNumeral? t.text.toList = some v)
    (finite : v.isFinite = true) :
    ((splitSign t.text.toList).2.head? ≠ some '.' →
      ∃ c, ofEnglish ("Buy when close is above " ++ text) = .ok c ∧
        c.toStrategy = ⟨.compare .greater (.field .closing) (.value v), .never⟩) ∧
    ((splitSign t.text.toList).2.head? = some '.' →
      ∀ w, readNumeral? (t.text.toList.filter (· ≠ '.')) = some w → w.isFinite = true →
        ∃ c, ofEnglish ("Buy when close is above " ++ text) = .ok c ∧
          c.toStrategy = ⟨.compare .greater (.field .closing) (.value w), .never⟩) := by
  have oneNumber : words? text = some [(.number, t.text)] :=
    words?_eq_some_iff.mpr ⟨stream, read, by rw [single, List.map_singleton, Token.word, number]⟩
  obtain ⟨n, before, after, shape, blank, token⟩ := NumberText.exists_of_words? oneNumber
  have sentence : "Buy when close is above " ++ text =
      String.ofList ("Buy when close is above ".toList ++ (before ++ (n.chars ++ after))) := by
    apply String.toList_injective
    rw [String.toList_append, shape]
    exact String.toList_ofList.symm
  rw [token, n.splitSign_chars, sentence]
  dsimp only
  rw [token, n.readNumeral?_chars] at value
  obtain rfl := Option.some.inj value
  constructor
  · intro noPoint
    have same := n.value_bare fun noWhole => noPoint (n.head?_body.mpr noWhole)
    have compiled := n.compiles_above blank (by rw [same]; exact finite)
    rwa [same] at compiled
  · intro point w left finiteLeft
    rw [← n.chars_bare (n.head?_body.mp point), n.bare.readNumeral?_chars] at left
    obtain rfl := Option.some.inj left
    exact n.compiles_above blank finiteLeft

/-- One threshold keeps its number, and the other loses its point. -/
theorem ofEnglish_threshold_twelve_thousand :
    (∃ c, ofEnglish "Buy when close is above  -12.E+3 " = .ok c ∧
      c.toStrategy =
        ⟨.compare .greater (.field .closing) (.value (.ofRatio true 12000 1)), .never⟩) ∧
    ∃ c, ofEnglish "Buy when close is above +.25" = .ok c ∧
      c.toStrategy = ⟨.compare .greater (.field .closing) (.value 25), .never⟩ := by
  have thousands : TokenStream.ofText " -12.E+3 " = .ok ⟨[⟨.number, "-12.E+3", 1⟩], 9⟩ := by
    decide +kernel
  have quarter : TokenStream.ofText "+.25" = .ok ⟨[⟨.number, "+.25", 0⟩], 4⟩ := by decide +kernel
  have readThousands : readNumeral? "-12.E+3".toList = some (.ofRatio true 12000 1) := by
    decide +kernel
  have readQuarter : readNumeral? "+.25".toList = some (.ofRatio false 1 4) := by decide +kernel
  have kept := (ofEnglish_threshold thousands rfl rfl readThousands (by decide +kernel)).1
  have lost := (ofEnglish_threshold quarter rfl rfl readQuarter (by decide +kernel)).2
  exact ⟨kept (by decide), lost (by decide) 25 (by decide +kernel) (by decide +kernel)⟩

/-- One half is read as one half by the rule language, and as five in the sentence. -/
theorem ofEnglish_threshold_loses_point :
    TokenStream.ofText ".5" = .ok ⟨[⟨.number, ".5", 0⟩], 2⟩ ∧
      readNumeral? ".5".toList = some (.ofRatio false 1 2) ∧
      (ofEnglish "Buy when close is above .5").toOption.map (·.toStrategy) =
        some ⟨.compare .greater (.field .closing) (.value 5), .never⟩ ∧
      (5 : Binary64) ≠ .ofRatio false 1 2 := by
  decide +kernel

end CheckedStrategy

end MarketRules
