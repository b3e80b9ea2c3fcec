import MarketRules.Proofs.Calendar.DateReading

/-!
# Later dates have larger numbers

The number of a date counts the days up to it.  No day of a year is counted beyond the
length of the year, so the numbers of the dates are in the order of the calendar, across
the ends of months, years and leap years alike (`Date.dayNumber_lt_of_before`).
-/

namespace MarketRules

namespace Date

/-! ## Within a year -/

/-- The days up to the end of a month are among those in front of a later month. -/
theorem sum_monthLengths_le (leap : Bool) {month month' : Nat} (first : 1 ≤ month)
    (later : month < month') (last : month' ≤ 13) :
    ((monthLengths leap).take (month - 1)).foldr (· + ·) 0 +
        ((monthLengths leap)[month - 1]?).getD 0 ≤
      ((monthLengths leap).take (month' - 1)).foldr (· + ·) 0 := by
  have all : ∀ leap, ∀ m' < 13, ∀ m < m',
      ((monthLengths leap).take m).foldr (· + ·) 0 + ((monthLengths leap)[m]?).getD 0 ≤
        ((monthLengths leap).take m').foldr (· + ·) 0 := by decide
  exact all leap (month' - 1) (by omega) (month - 1) (by omega)

/-- A date is not behind the last day in front of a later month.  The month behind the last
one stands for the end of the year. -/
theorem dayOfYear_le (d : Date) {month : Nat} (later : d.month < month) (last : month ≤ 13) :
    daysBeforeMonth d.year d.month + d.day ≤ daysBeforeMonth d.year month := by
  have months := d.month_bounds
  have day : d.day ≤ ((monthLengths (isLeapYear d.year))[d.month - 1]?).getD 0 := by
    have within := d.day_mem.2
    rwa [monthLength, if_neg (by omega)] at within
  have sum := sum_monthLengths_le (isLeapYear d.year) months.1 later last
  exact Nat.le_trans (Nat.add_le_add_left day _) sum

/-! ## From year to year -/

/-- The number of days from the beginning of the year one to the beginning of a year. -/
def daysBeforeYear (year : Int) : Int :=
  365 * (year - 1) + (year - 1) / 4 - (year - 1) / 100 + (year - 1) / 400

theorem daysBeforeMonth_thirteen (year : Int) :
    daysBeforeMonth year 13 = if isLeapYear year then 366 else 365 := by
  rw [daysBeforeMonth]
  cases isLeapYear year <;> rfl

/-- A year begins where the year before it ends. -/
theorem daysBeforeYear_succ (year : Int) :
    daysBeforeYear year + daysBeforeMonth year 13 = daysBeforeYear (year + 1) := by
  rw [daysBeforeMonth_thirteen, daysBeforeYear, daysBeforeYear]
  split
  · next leap =>
    rw [isLeapYear, Bool.and_eq_true, Bool.or_eq_true, beq_iff_eq, bne_iff_ne, beq_iff_eq] at leap
    omega
  · next common =>
    rw [isLeapYear, Bool.and_eq_true, Bool.or_eq_true, beq_iff_eq, bne_iff_ne, beq_iff_eq] at common
    omega

/-- Years are in the order of their first days. -/
theorem daysBeforeYear_mono {year year' : Int} (le : year ≤ year') :
    daysBeforeYear year ≤ daysBeforeYear year' := by
  unfold daysBeforeYear
  omega

/-! ## The order of dates -/

theorem dayNumber_eq (d : Date) :
    d.dayNumber = daysBeforeYear d.year + daysBeforeMonth d.year d.month + d.day := rfl

/-- The number of days grows along the order of dates. -/
theorem dayNumber_lt_of_before {d e : Date} (before : d.before e = true) :
    d.dayNumber < e.dayNumber := by
  have first := e.day_mem.1
  rw [dayNumber_eq, dayNumber_eq]
  rw [Date.before, Bool.or_eq_true, Bool.and_eq_true, Bool.or_eq_true, Bool.and_eq_true,
    decide_eq_true_eq, decide_eq_true_eq, decide_eq_true_eq, beq_iff_eq, beq_iff_eq] at before
  rcases before with year | ⟨year, month | ⟨month, day⟩⟩
  · have months := d.month_bounds
    have inside : daysBeforeMonth d.year d.month + d.day ≤ daysBeforeMonth d.year 13 :=
      d.dayOfYear_le (by omega) (Nat.le_refl 13)
    have next := daysBeforeYear_succ d.year
    have mono := daysBeforeYear_mono (show d.year + 1 ≤ e.year from year)
    omega
  · have inside := d.dayOfYear_le month (Nat.le_succ_of_le e.month_bounds.2)
    rw [← year]
    omega
  · rw [← year, ← month]
    omega

/-- Between a date and a later one there is at least one day. -/
theorem one_le_daysUntil {d e : Date} (before : d.before e = true) : 1 ≤ d.daysUntil e := by
  have less := dayNumber_lt_of_before before
  rw [daysUntil]
  omega

end Date

end MarketRules
