import MarketRules.Calendar.DateText
import MarketRules.Proofs.Number.PlainNumeral
import MarketRules.Proofs.Text.CharClass
import MarketRules.Proofs.Text.Trimming

/-!
# Dates read back

A date of the years 0 to 9999 is written with four digits for the year and two for the
month and the day, without a sign.  The reader takes at most that many digits for each
number, so the digits of one number never run into the next, and what it has read is the
date that was written.
-/

namespace MarketRules

/-! ## Padded digits -/

theorem isDigit_of_mem_paddedDigits {width n : Nat} {c : Char} (member : c ∈ paddedDigits width n) :
    c.isDigit = true := by
  rcases List.mem_append.mp member with zero | digit
  · rw [List.eq_of_mem_replicate zero]
    rfl
  · exact isDigit_of_mem_digits digit

/-- A number that fits its width is written in exactly this width. -/
theorem length_paddedDigits {width n : Nat} (positive : 0 < width) (fits : n < 10 ^ width) :
    (paddedDigits width n).length = width := by
  have short : (digits n).length ≤ width :=
    (Nat.length_toDigits_le_iff (by decide) positive).mpr fits
  rw [paddedDigits, List.length_append, List.length_replicate, Nat.sub_add_cancel short]

theorem ofDigits_paddedDigits (width n : Nat) : ofDigits (paddedDigits width n) = n :=
  (ofDigits_zeros_append (digits n) _).trans (ofDigits_digits n)

/-- Padded digits are a text that begins with a digit. -/
theorem exists_paddedDigits_append_eq {width n : Nat} (positive : 0 < width) (fits : n < 10 ^ width)
    (rest : List Char) :
    ∃ c cs, paddedDigits width n ++ rest = c :: cs ∧ c.isDigit = true := by
  have length := length_paddedDigits positive fits
  obtain ⟨c, cs, begins⟩ :=
    List.exists_cons_of_length_pos (Nat.lt_of_lt_of_eq positive length.symm)
  have member : c ∈ paddedDigits width n := by
    rw [begins]
    exact List.mem_cons_self
  exact ⟨c, cs ++ rest, by rw [begins, List.cons_append], isDigit_of_mem_paddedDigits member⟩

namespace Date

/-! ## Numbers -/

/-- Digits in the full width are read as their number. -/
theorem splitNumber_append {ds : List Char} (nonempty : ds ≠ [])
    (allDigits : ∀ c ∈ ds, c.isDigit = true) (rest : List Char) :
    splitNumber ds.length (ds ++ rest) = .ok (ofDigits ds, rest) := by
  have whole : (ds ++ []).takeWhile Char.isDigit = ds :=
    takeWhile_run_append allDigits (by simp)
  rw [List.append_nil] at whole
  rw [splitNumber, List.take_left, whole]
  cases ds with
  | nil => exact absurd rfl nonempty
  | cons c cs =>
    show Except.ok (ofDigits (c :: cs), (c :: cs ++ rest).drop (c :: cs).length) = _
    rw [List.drop_left]

/-- A padded number is read back, whatever stands behind it. -/
theorem splitNumber_paddedDigits {width n : Nat} (positive : 0 < width) (fits : n < 10 ^ width)
    (rest : List Char) : splitNumber width (paddedDigits width n ++ rest) = .ok (n, rest) := by
  have length := length_paddedDigits positive fits
  have nonempty : paddedDigits width n ≠ [] := by
    rw [← List.length_pos_iff, length]
    exact positive
  have split := splitNumber_append nonempty (fun _ => isDigit_of_mem_paddedDigits) rest
  rw [length, ofDigits_paddedDigits] at split
  exact split

theorem trimStart_of_isDigit {c : Char} (digit : c.isDigit = true) (cs : List Char) :
    trimStart (c :: cs) = c :: cs :=
  (beginsSolid_iff.mpr ⟨c, cs, rfl, isBlank_eq_false_of_isDigit digit⟩).trimStart

/-- A year of four digits. -/
theorem splitYear_yearChars {year : Int} (plain : 0 ≤ year ∧ year ≤ 9999) (rest : List Char) :
    splitYear (yearChars year ++ rest) = .ok (year, rest) := by
  have fits : year.natAbs < 10 ^ 4 := by omega
  have same : ((year.natAbs : Nat) : Int) = year := Int.natAbs_of_nonneg plain.1
  obtain ⟨c, cs, begins, digit⟩ := exists_paddedDigits_append_eq (by decide) fits rest
  have split := splitNumber_paddedDigits (by decide) fits rest
  rw [yearChars, if_pos plain, splitYear, begins, trimStart_of_isDigit digit]
  rw [begins] at split
  have notMinus : c ≠ '-' := by
    rintro rfl
    cases digit
  have notPlus : c ≠ '+' := by
    rintro rfl
    cases digit
  split
  · next begins => exact absurd (List.cons.inj begins).1 notMinus
  · next begins => exact absurd (List.cons.inj begins).1 notPlus
  · rw [split]
    refine (if_pos ?_).trans (congrArg (fun y => Except.ok (y, rest)) same)
    omega

/-- A month or a day of two digits. -/
theorem splitSmall_paddedDigits {n last : Nat} (bounds : 1 ≤ n ∧ n ≤ last) (fits : n < 10 ^ 2)
    (rest : List Char) : splitSmall last (paddedDigits 2 n ++ rest) = .ok (n, rest) := by
  have split := splitNumber_paddedDigits (by decide) fits rest
  obtain ⟨c, cs, begins, digit⟩ := exists_paddedDigits_append_eq (by decide) fits rest
  rw [begins] at split
  rw [splitSmall, begins, trimStart_of_isDigit digit, split]
  exact if_pos bounds

/-! ## The calendar -/

theorem le_of_mem_monthLengths {leap : Bool} : ∀ n ∈ monthLengths leap, n ≤ 31 := by
  cases leap <;> decide

theorem month_bounds (d : Date) : 1 ≤ d.month ∧ d.month ≤ 12 := by
  have positive : 0 < monthLength d.year d.month := Nat.le_trans d.day_mem.1 d.day_mem.2
  rw [monthLength] at positive
  split at positive
  · cases positive
  · refine ⟨by omega, Nat.le_of_not_lt fun beyond => ?_⟩
    have none : (monthLengths (isLeapYear d.year))[d.month - 1]? = none :=
      List.getElem?_eq_none (by simp only [monthLengths, List.length_cons, List.length_nil]; omega)
    rw [none] at positive
    cases positive

theorem day_bounds (d : Date) : 1 ≤ d.day ∧ d.day ≤ 31 := by
  refine ⟨d.day_mem.1, Nat.le_trans d.day_mem.2 ?_⟩
  rw [monthLength]
  split
  · exact Nat.zero_le 31
  · cases found : (monthLengths (isLeapYear d.year))[d.month - 1]? with
    | none => exact Nat.zero_le 31
    | some n => exact le_of_mem_monthLengths n (List.mem_of_getElem? found)

/-- A date of the years 0 to 9999 reads back as itself. -/
theorem read_chars {d : Date} (plain : 0 ≤ d.year ∧ d.year ≤ 9999) : read d.chars = .ok d := by
  have months := d.month_bounds
  have days := d.day_bounds
  have year := splitYear_yearChars plain
    ('-' :: paddedDigits 2 d.month ++ '-' :: paddedDigits 2 d.day)
  have month := splitSmall_paddedDigits months (by omega) ('-' :: paddedDigits 2 d.day)
  have day := splitSmall_paddedDigits days (by omega) []
  have inCalendar : ¬ (d.year < firstYear ∨ lastYear < d.year) := by
    unfold firstYear lastYear
    omega
  have numbers : ofNumbers? d.year d.month d.day = some d := dif_pos d.day_mem
  rw [List.append_nil] at day
  rw [chars, List.append_assoc, read, year]
  simp only [bind, Except.bind, pure, Except.pure, dropDash, List.cons_append, month, day, numbers,
    inCalendar, ne_eq, not_true_eq_false, if_true, if_false]

end Date

end MarketRules
