import MarketRules.English.Translation
import MarketRules.Proofs.English.Pieces
import MarketRules.Proofs.Text.Trimming

/-!
# Tidying a rewritten rule

When all phrases have been applied there are blanks around every word that was
written, and two in place of an article.  Tidying leaves one between two words and
none elsewhere, which is the text of the rule in the rule language.  Points stay only
in numbers.
-/

namespace MarketRules

open Pattern (Ahead GoesOn behind)

/-! ## Blanks -/

/-- The text with single blanks, and none behind an opening parenthesis.  `closed` says
that blanks at the front are left out. -/
def compact (closed : Bool) : List Char → List Char
  | [] => []
  | c :: cs =>
    if isBlank c then (if closed then [] else [' ']) ++ compact true cs
    else c :: compact (c == '(') cs
termination_by structural cs => cs

/-- Runs of blanks and blanks behind opening parentheses are tidied in one pass. -/
theorem tightenOpening_squeezeBlanks (cs : List Char) : ∀ afterParen inRun : Bool,
    tightenOpening afterParen (squeezeBlanks inRun cs) = compact (afterParen || inRun) cs := by
  induction cs with
  | nil => exact fun _ _ => rfl
  | cons c cs ih =>
    intro afterParen inRun
    rw [squeezeBlanks, compact]
    by_cases blank : isBlank c = true
    · rw [if_pos blank, if_pos blank]
      cases inRun with
      | true => rw [Bool.or_true, if_pos rfl, List.nil_append, List.nil_append, ih, Bool.or_true]
      | false =>
        cases afterParen with
        | true =>
          show tightenOpening false (squeezeBlanks true cs) = compact true cs
          exact ih false true
        | false =>
          show ' ' :: tightenOpening false (squeezeBlanks true cs) = ' ' :: compact true cs
          rw [ih]
          rfl
    · have noBlank : ¬ (afterParen = true ∧ c = ' ') := by
        rintro ⟨-, rfl⟩
        exact blank rfl
      rw [if_neg blank, if_neg blank, tightenOpening, if_neg noBlank, ih, Bool.or_false]

theorem trimStart_squeezeBlanks_true (cs : List Char) :
    trimStart (squeezeBlanks true cs) = squeezeBlanks true cs := by
  induction cs with
  | nil => rfl
  | cons c cs ih =>
    rw [squeezeBlanks]
    by_cases blank : isBlank c = true
    · rw [if_pos blank]
      exact ih
    · rw [if_neg blank, trimStart, List.dropWhile_cons_of_neg blank]

/-- To leave out the blanks at the start is to begin within a run. -/
theorem trimStart_squeezeBlanks (cs : List Char) :
    trimStart (squeezeBlanks false cs) = squeezeBlanks true cs := by
  cases cs with
  | nil => rfl
  | cons c cs =>
    rw [squeezeBlanks, squeezeBlanks]
    by_cases blank : isBlank c = true
    · rw [if_pos blank, if_pos blank]
      exact trimStart_squeezeBlanks_true cs
    · rw [if_neg blank, if_neg blank, trimStart, List.dropWhile_cons_of_neg blank]

/-- A text that ends with no blank still does. -/
theorem EndsSolid.squeezeBlanks {cs : List Char} (solid : EndsSolid cs) :
    ∀ inRun : Bool, EndsSolid (squeezeBlanks inRun cs) := by
  obtain ⟨front, c, rfl, noBlank⟩ := endsSolid_iff.mp solid
  have notBlank : ¬ isBlank c = true := by simp [noBlank]
  clear solid
  induction front with
  | nil =>
    intro inRun
    rw [List.nil_append, MarketRules.squeezeBlanks, if_neg notBlank]
    exact endsSolid_iff.mpr ⟨[], c, rfl, noBlank⟩
  | cons d ds ih =>
    intro inRun
    rw [List.cons_append, MarketRules.squeezeBlanks]
    split
    · exact (ih true).append _
    · exact (ih false).append [d]

/-- Runs are squeezed from left to right, with the last character as the state. -/
theorem squeezeBlanks_append (cs rest : List Char) : ∀ inRun : Bool,
    squeezeBlanks inRun (cs ++ rest) =
      squeezeBlanks inRun cs ++ squeezeBlanks (cs.foldl (fun _ c => isBlank c) inRun) rest := by
  induction cs with
  | nil => exact fun _ => rfl
  | cons c cs ih =>
    intro inRun
    rw [List.cons_append, squeezeBlanks, squeezeBlanks, List.foldl_cons]
    by_cases blank : isBlank c = true
    · rw [if_pos blank, if_pos blank, blank, ih, List.append_assoc]
    · rw [if_neg blank, if_neg blank, Bool.eq_false_iff.mpr blank, ih]
      rfl

theorem isBlank_of_mem_squeezeBlanks {cs : List Char} (blank : ∀ c ∈ cs, isBlank c = true) :
    ∀ inRun : Bool, ∀ c ∈ squeezeBlanks inRun cs, isBlank c = true := by
  induction cs with
  | nil => rintro _ _ ⟨⟩
  | cons d ds ih =>
    obtain ⟨first, later⟩ := List.forall_mem_cons.mp blank
    intro inRun
    have written : ∀ c ∈ (if inRun then [] else [' ']), isBlank c = true := by
      cases inRun <;> decide
    rw [squeezeBlanks, if_pos first]
    exact List.forall_mem_append.mpr ⟨written, ih later true⟩

/-- Blanks at the end can be left out before runs are squeezed. -/
theorem trimEnd_squeezeBlanks (inRun : Bool) (cs : List Char) :
    trimEnd (squeezeBlanks inRun cs) = squeezeBlanks inRun (trimEnd cs) := by
  obtain ⟨blanks, whole, blank⟩ := exists_trimEnd_append cs
  have trimmed : trimEnd (squeezeBlanks inRun (trimEnd cs)) = squeezeBlanks inRun (trimEnd cs) := by
    rcases trimEnd_eq_nil_or_endsSolid cs with nothing | solid
    · rw [nothing]
      rfl
    · exact (solid.squeezeBlanks inRun).trimEnd
  conv => lhs; rw [whole, squeezeBlanks_append]
  rw [trimEnd_append (isBlank_of_mem_squeezeBlanks blank _), trimmed]

/-- The blanks of a text are tidied in one go, apart from those in front of closing
parentheses. -/
theorem tightenOpening_trim_squeezeBlanks (cs : List Char) :
    tightenOpening false (trim (squeezeBlanks false cs)) = compact true (trimEnd cs) := by
  rw [trim, trimStart_squeezeBlanks, trimEnd_squeezeBlanks, tightenOpening_squeezeBlanks]
  rfl

/-- So they are in a text that ends with no blank. -/
theorem tidyBlanks {cs : List Char} (solid : EndsSolid cs) :
    tightenOpening false (trim (squeezeBlanks false cs)) = compact true cs := by
  rw [tightenOpening_trim_squeezeBlanks, solid.trimEnd]

/-- Do the blanks behind the text belong to a run, or to a parenthesis? -/
def closedBehind (closed : Bool) (cs : List Char) : Bool :=
  cs.foldl (fun _ c => isBlank c || c == '(') closed

/-- Blanks are tidied from left to right. -/
theorem compact_append (cs rest : List Char) : ∀ closed : Bool,
    compact closed (cs ++ rest) = compact closed cs ++ compact (closedBehind closed cs) rest := by
  induction cs with
  | nil => exact fun closed => rfl
  | cons c cs ih =>
    intro closed
    rw [List.cons_append, compact, compact, closedBehind, List.foldl_cons]
    by_cases blank : isBlank c = true
    · rw [if_pos blank, if_pos blank, blank, ih, List.append_assoc]
      rfl
    · rw [if_neg blank, if_neg blank, Bool.eq_false_iff.mpr blank, ih]
      rfl

/-- A word or a number is kept. -/
theorem compact_solid {cs rest : List Char} (nonempty : cs ≠ [])
    (solid : ∀ c ∈ cs, isBlank c = false ∧ c ≠ '(') : ∀ closed : Bool,
    compact closed (cs ++ rest) = cs ++ compact false rest := by
  induction cs with
  | nil => exact absurd rfl nonempty
  | cons c cs ih =>
    intro closed
    obtain ⟨⟨noBlank, noParen⟩, later⟩ := List.forall_mem_cons.mp solid
    have outside : (c == '(') = false := beq_false_of_ne noParen
    rw [List.cons_append, compact, noBlank, outside]
    by_cases last : cs = []
    · subst last
      rfl
    · exact congrArg (c :: ·) (ih last later false)

theorem tightenClosing_of_blank_notMem {cs : List Char} (noBlank : ' ' ∉ cs) (rest : List Char) :
    tightenClosing (cs ++ rest) = cs ++ tightenClosing rest := by
  induction cs with
  | nil => rfl
  | cons c cs ih =>
    have other : ¬ (c = ' ' ∧ (cs ++ rest).head? = some ')') :=
      fun blank => noBlank (blank.1 ▸ List.mem_cons_self)
    rw [List.cons_append, tightenClosing, if_neg other,
      ih (fun member => noBlank (List.mem_cons_of_mem c member))]
    rfl

/-- Nothing is tightened in front of a text without closing parentheses. -/
theorem tightenClosing_of_closing_notMem {cs rest : List Char} (noClosing : ')' ∉ cs)
    (ahead : ')' ∉ rest.head?) : tightenClosing (cs ++ rest) = cs ++ tightenClosing rest := by
  induction cs with
  | nil => rfl
  | cons c cs ih =>
    have later : ')' ∉ cs := fun member => noClosing (List.mem_cons_of_mem c member)
    have other : ¬ (c = ' ' ∧ (cs ++ rest).head? = some ')') := by
      rintro ⟨-, closing⟩
      cases cs with
      | nil => exact ahead closing
      | cons d ds => exact later (Option.some.inj closing ▸ List.mem_cons_self)
    rw [List.cons_append, tightenClosing, if_neg other, ih later]
    rfl

/-! ## Points -/

/-- A text without points is kept. -/
theorem dropPeriods_of_notMem {cs rest : List Char} (noPoint : '.' ∉ cs) :
    ∀ before, dropPeriods before (cs ++ rest) = cs ++ dropPeriods (behind before cs) rest := by
  induction cs with
  | nil => exact fun before => rfl
  | cons c cs ih =>
    intro before
    have other : ¬ (c = '.' ∧ ¬ (before.any Char.isDigit = true ∧
        (cs ++ rest).head?.any Char.isDigit = true)) :=
      fun point => noPoint (point.1 ▸ List.mem_cons_self)
    rw [List.cons_append, dropPeriods, if_neg other,
      ih (fun member => noPoint (List.mem_cons_of_mem c member))]
    rfl

theorem point_notMem_of_isDigit {ds : List Char} (isDigit : ∀ c ∈ ds, c.isDigit = true) :
    '.' ∉ ds :=
  fun member => absurd (isDigit '.' member) (by decide)

theorem behind_isDigit {ds : List Char} (nonempty : ds ≠ []) (isDigit : ∀ c ∈ ds, c.isDigit = true)
    (before : Option Char) : (behind before ds).any Char.isDigit = true := by
  rcases List.eq_nil_or_concat ds with rfl | ⟨front, last, rfl⟩
  · exact absurd rfl nonempty
  · rw [List.concat_eq_append] at isDigit ⊢
    rw [Pattern.behind_append]
    exact isDigit last (by simp)

/-- The point of a number stands between digits. -/
theorem PlainNumeral.dropPeriods_chars (n : PlainNumeral) (before : Option Char)
    (rest : List Char) : dropPeriods before (n.chars ++ rest) =
      n.chars ++ dropPeriods (behind before n.chars) rest := by
  have whole := point_notMem_of_isDigit n.isDigit_whole
  rw [chars, List.append_assoc, dropPeriods_of_notMem whole, Pattern.behind_append,
    List.append_assoc, pointed]
  by_cases noFraction : n.fraction = []
  · rw [if_pos noFraction]
    rfl
  · rw [if_neg noFraction]
    obtain ⟨c, cs, begins⟩ := List.exists_cons_of_ne_nil noFraction
    have digits := n.isDigit_fraction
    rw [begins] at digits ⊢
    have between : ¬ ('.' = '.' ∧ ¬ ((behind before n.whole).any Char.isDigit = true ∧
        (c :: cs ++ rest).head?.any Char.isDigit = true)) :=
      fun point => point.2 ⟨behind_isDigit n.whole_ne_nil n.isDigit_whole before,
        digits c List.mem_cons_self⟩
    rw [List.cons_append, dropPeriods, if_neg between,
      dropPeriods_of_notMem (point_notMem_of_isDigit digits)]
    rfl

/-! ## Piece by piece -/

/-- Without points the text is this one, and what follows is treated on its own. -/
def DropsPoints (_ _ : Joint) (cs turned rest : List Char) : Prop :=
  ∀ before, dropPeriods before (cs ++ rest) = turned ++ dropPeriods (behind before cs) rest

/-- So it is with single blanks.  Where an operand can begin, blanks are left out. -/
def Compacts (x y : Joint) (cs turned rest : List Char) : Prop :=
  compact (x == .before) (cs ++ rest) = turned ++ compact (y == .before) rest

/-- So it is without blanks in front of closing parentheses. -/
def TightensClosing (_ _ : Joint) (cs turned rest : List Char) : Prop :=
  tightenClosing (cs ++ rest) = turned ++ tightenClosing rest

section

variable {x y : Joint} {cs turned rest : List Char}

/-- Two texts are tightened as each of them is. -/
theorem composes_tightensClosing : Composes TightensClosing where
  append first second := by
    rw [TightensClosing, List.append_assoc, first, second, List.append_assoc]

/-- Two texts are tidied as each of them is, the second in the state that the first leaves. -/
theorem composes_compacts : Composes Compacts where
  append first second := by
    rw [Compacts, List.append_assoc, first, second, List.append_assoc]

theorem compacts_of_settled (settled : compact (x == .before) cs = turned ∧
    closedBehind (x == .before) cs = (y == .before)) : Compacts x y cs turned rest := by
  obtain ⟨written, closed⟩ := settled
  rw [Compacts, compact_append, written, closed]

/-- A text is kept if it has no blank, or if it neither has nor meets a parenthesis. -/
theorem tightensClosing_of_settled {ways : List Ahead} (settled : ' ' ∉ cs ∨
      ')' ∉ cs ∧ ∀ a ∈ ways, (a.chars.head?.any fun c => c != ')') = true)
    (goesOn : GoesOn ways rest) : TightensClosing x y cs cs rest := by
  rcases settled with noBlank | ⟨noClosing, begins⟩
  · exact tightenClosing_of_blank_notMem noBlank rest
  · refine tightenClosing_of_closing_notMem noClosing ?_
    obtain ⟨a, listed, more, rfl, -⟩ := goesOn
    have other := begins a listed
    cases chars : a.chars with
    | nil =>
      rw [chars] at other
      cases other
    | cons c back =>
      rw [chars] at other
      rintro ⟨⟩
      cases other

end

theorem composes_beginsSolid :
    Composes fun x _ cs _ _ => x = .before → BeginsSolid cs where
  append first _ starts := (first starts).append _

theorem composes_endsSolid : Composes fun _ y cs _ _ => y = .after → EndsSolid cs where
  append _ second stops := (second stops).append _

/-- Two texts lose their points as each of them does. -/
theorem composes_dropsPoints : Composes DropsPoints where
  append first second before := by
    rw [List.append_assoc, first, second, Pattern.behind_append, List.append_assoc]

end MarketRules
