import Mathlib.Data.List.DropRight
import Mathlib.Data.List.TakeWhile
import MarketRules.Text.Blank

/-!
# Trimming

Trimming leaves a text as it is if no blank stands at either end of it, and blanks that
are put in front of a text or behind it do not change what trimming leaves.
-/

namespace MarketRules

/-! ## Texts without blanks at an end -/

/-- The text begins with a character that is no blank. -/
def BeginsSolid (cs : List Char) : Prop := (cs.head?.any fun c => !isBlank c) = true

/-- The text ends with a character that is no blank. -/
def EndsSolid (cs : List Char) : Prop := (cs.getLast?.any fun c => !isBlank c) = true

instance : DecidablePred BeginsSolid := fun cs =>
  inferInstanceAs (Decidable ((cs.head?.any fun c => !isBlank c) = true))

instance : DecidablePred EndsSolid := fun cs =>
  inferInstanceAs (Decidable ((cs.getLast?.any fun c => !isBlank c) = true))

theorem beginsSolid_iff {cs : List Char} :
    BeginsSolid cs ↔ ∃ c back, cs = c :: back ∧ isBlank c = false := by
  cases cs with
  | nil => simp [BeginsSolid]
  | cons c back => simp [BeginsSolid]

theorem endsSolid_iff {cs : List Char} :
    EndsSolid cs ↔ ∃ front c, cs = front ++ [c] ∧ isBlank c = false := by
  rcases List.eq_nil_or_concat cs with rfl | ⟨front, c, rfl⟩
  · simp [EndsSolid]
  · have last : EndsSolid (front ++ [c]) ↔ isBlank c = false := by simp [EndsSolid]
    rw [List.concat_eq_append, last]
    constructor
    · exact fun noBlank => ⟨front, c, rfl, noBlank⟩
    · rintro ⟨front', c', equal, noBlank⟩
      cases (List.append_inj' equal rfl).2
      exact noBlank

theorem BeginsSolid.append {cs : List Char} (solid : BeginsSolid cs) (cs' : List Char) :
    BeginsSolid (cs ++ cs') := by
  obtain ⟨c, back, rfl, noBlank⟩ := beginsSolid_iff.mp solid
  exact beginsSolid_iff.mpr ⟨c, back ++ cs', rfl, noBlank⟩

theorem EndsSolid.append {cs' : List Char} (solid : EndsSolid cs') (cs : List Char) :
    EndsSolid (cs ++ cs') := by
  obtain ⟨front, c, rfl, noBlank⟩ := endsSolid_iff.mp solid
  exact endsSolid_iff.mpr ⟨cs ++ front, c, (List.append_assoc _ _ _).symm, noBlank⟩

/-- Behind the first character a solid end is still there, unless it was this character. -/
theorem EndsSolid.of_cons {c : Char} {cs : List Char} (solid : EndsSolid (c :: cs)) :
    cs = [] ∧ isBlank c = false ∨ EndsSolid cs := by
  cases cs with
  | nil => exact .inl ⟨rfl, by simpa [EndsSolid] using solid⟩
  | cons d ds =>
    rw [EndsSolid, List.getLast?_cons_cons] at solid
    exact .inr solid

theorem beginsSolid_of_forall_mem {cs : List Char} (nonempty : cs ≠ [])
    (noBlank : ∀ c ∈ cs, isBlank c = false) : BeginsSolid cs := by
  obtain ⟨c, back, rfl⟩ := List.exists_cons_of_ne_nil nonempty
  exact beginsSolid_iff.mpr ⟨c, back, rfl, noBlank c List.mem_cons_self⟩

theorem endsSolid_of_forall_mem {cs : List Char} (nonempty : cs ≠ [])
    (noBlank : ∀ c ∈ cs, isBlank c = false) : EndsSolid cs :=
  endsSolid_iff.mpr ⟨cs.dropLast, cs.getLast nonempty, (List.dropLast_concat_getLast nonempty).symm,
    noBlank _ (List.getLast_mem nonempty)⟩

theorem BeginsSolid.trimStart {cs : List Char} (solid : BeginsSolid cs) : trimStart cs = cs := by
  obtain ⟨c, back, rfl, noBlank⟩ := beginsSolid_iff.mp solid
  have notBlank : ¬ isBlank c = true := by simp [noBlank]
  exact List.dropWhile_cons_of_neg notBlank

theorem EndsSolid.trimEnd {cs : List Char} (solid : EndsSolid cs) : trimEnd cs = cs := by
  obtain ⟨front, c, rfl, noBlank⟩ := endsSolid_iff.mp solid
  have notBlank : ¬ isBlank c = true := by simp [noBlank]
  rw [MarketRules.trimEnd, List.reverse_append, List.reverse_singleton, List.singleton_append,
    List.dropWhile_cons_of_neg notBlank, List.reverse_cons, List.reverse_reverse]

/-- A text without blanks at its ends is not trimmed. -/
theorem trim_eq_self {cs : List Char} (beginsSolid : BeginsSolid cs) (endsSolid : EndsSolid cs) :
    trim cs = cs := by
  rw [trim, beginsSolid.trimStart, endsSolid.trimEnd]

theorem trim_eq_self_of_forall_mem {cs : List Char} (noBlank : ∀ c ∈ cs, isBlank c = false) :
    trim cs = cs := by
  cases cs with
  | nil => rfl
  | cons c back =>
    exact trim_eq_self (beginsSolid_of_forall_mem (List.cons_ne_nil c back) noBlank)
      (endsSolid_of_forall_mem (List.cons_ne_nil c back) noBlank)

/-! ## Blanks around a text -/

theorem trimStart_append {blanks : List Char} (blank : ∀ c ∈ blanks, isBlank c = true)
    (cs : List Char) : trimStart (blanks ++ cs) = trimStart cs :=
  List.dropWhile_append_of_pos blank

/-- Blanks at the end do not matter. -/
theorem trimEnd_append {blanks : List Char} (blank : ∀ c ∈ blanks, isBlank c = true)
    (cs : List Char) : trimEnd (cs ++ blanks) = trimEnd cs := by
  have blankReverse : ∀ c ∈ blanks.reverse, isBlank c = true := fun c member =>
    blank c (List.mem_reverse.mp member)
  rw [trimEnd, List.reverse_append, List.dropWhile_append_of_pos blankReverse, ← trimEnd]

theorem trim_append {blanks : List Char} (blank : ∀ c ∈ blanks, isBlank c = true)
    (cs : List Char) : trim (cs ++ blanks) = trim cs := by
  induction cs with
  | nil =>
    have nothing : trimStart blanks = [] := by
      rw [← List.append_nil blanks, trimStart_append blank]
      rfl
    rw [List.nil_append, trim, nothing]
    rfl
  | cons c cs ih =>
    by_cases first : isBlank c = true
    · rw [trim, trimStart, List.cons_append, List.dropWhile_cons_of_pos first, ← trimStart,
        ← trim, ih, trim, trim, trimStart, trimStart, List.dropWhile_cons_of_pos first]
    · rw [trim, trimStart, List.cons_append, List.dropWhile_cons_of_neg first, ← List.cons_append,
        trimEnd_append blank, trim, trimStart, List.dropWhile_cons_of_neg first]

/-- Blanks at the end are taken from the last part that has anything else. -/
theorem trimEnd_append_cases (cs rest : List Char) :
    trimEnd (cs ++ rest) = cs ++ trimEnd rest ∨
      trimEnd rest = [] ∧ trimEnd (cs ++ rest) = trimEnd cs := by
  rw [trimEnd, trimEnd, List.reverse_append, List.dropWhile_append]
  split
  · next empty =>
    have nothing := List.isEmpty_iff.mp empty
    exact .inr ⟨congrArg List.reverse nothing, rfl⟩
  · exact .inl (by rw [List.reverse_append, List.reverse_reverse])

/-- A text is trimmed no further than to a character that is no blank. -/
theorem EndsSolid.trimEnd_append {cs : List Char} (solid : EndsSolid cs) (rest : List Char) :
    MarketRules.trimEnd (cs ++ rest) = cs ++ MarketRules.trimEnd rest := by
  rcases trimEnd_append_cases cs rest with whole | ⟨nothing, trimmed⟩
  · exact whole
  · rw [trimmed, nothing, solid.trimEnd, List.append_nil]

/-- What is trimmed at the end are blanks. -/
theorem exists_trimEnd_append (cs : List Char) :
    ∃ blanks, cs = trimEnd cs ++ blanks ∧ ∀ c ∈ blanks, isBlank c = true := by
  have whole := List.takeWhile_append_dropWhile (p := isBlank) (l := cs.reverse)
  refine ⟨(cs.reverse.takeWhile isBlank).reverse, ?_, fun c member => ?_⟩
  · rw [trimEnd, ← List.reverse_append, whole, List.reverse_reverse]
  · exact List.mem_takeWhile_imp (List.mem_reverse.mp member)

/-- A trimmed text is empty or ends with no blank. -/
theorem trimEnd_eq_nil_or_endsSolid (cs : List Char) :
    trimEnd cs = [] ∨ EndsSolid (trimEnd cs) := by
  cases shape : cs.reverse.dropWhile isBlank with
  | nil => exact .inl (by rw [trimEnd, shape, List.reverse_nil])
  | cons c front =>
    have noBlank := List.head?_dropWhile_not isBlank cs.reverse
    rw [shape] at noBlank
    refine .inr (endsSolid_iff.mpr ⟨front.reverse, c, ?_, noBlank⟩)
    rw [trimEnd, shape, List.reverse_cons]

/-- To trim the end twice is to trim it once. -/
theorem trim_trimEnd (cs : List Char) : trim (trimEnd cs) = trim cs := by
  obtain ⟨blanks, whole, blank⟩ := exists_trimEnd_append cs
  conv => rhs; rw [whole]
  rw [trim_append blank]

/-- A text that was trimmed stays as it is. -/
theorem trim_trim (cs : List Char) : trim (trim cs) = trim cs := by
  have twice : trimStart (trimStart cs) = trimStart cs := List.dropWhile_idempotent _ _
  conv => lhs; arg 1; rw [trim]
  rw [trim_trimEnd, trim, twice, ← trim]

/-- What trimming leaves does not depend on the blanks around the text. -/
theorem trim_append_append {before after : List Char}
    (blank : ∀ c ∈ before ++ after, isBlank c = true) (cs : List Char) :
    trim (before ++ cs ++ after) = trim cs := by
  rw [trim_append fun c member => blank c (List.mem_append_right before member), trim,
    trimStart_append fun c member => blank c (List.mem_append_left after member), ← trim]

end MarketRules
