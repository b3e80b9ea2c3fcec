import MarketRules.Market.Bar

/-!
# Valid series

The check of a series compares each date only with the one before it.  Since
dates are transitively ordered, every bar of a valid series is later than all
bars in front of it.  A bar is known by its date, and a first part of a valid
series is valid unless it is empty.
-/

namespace MarketRules

/-! ## The order of dates -/

theorem Date.before_trans {d e f : Date} (first : d.before e = true) (second : e.before f = true) :
    d.before f = true := by
  simp only [Date.before, Bool.or_eq_true, Bool.and_eq_true, decide_eq_true_eq, beq_iff_eq] at *
  omega

theorem Date.before_irrefl (d : Date) : d.before d = false := by
  simp [Date.before]

/-! ## The check as a law -/

namespace Bar

/-- The check compares neighbours only, and dates that rise from bar to bar rise altogether.
-/
theorem checkFrom_eq_ok_iff (index : Nat) (previous : Option Date) (bars : List Bar) :
    checkFrom index previous bars = .ok () ↔
      (∀ b ∈ bars, b.badField? = none) ∧
        (∀ p, previous = some p → ∀ b ∈ bars, p.before b.date = true) ∧
        bars.Pairwise fun b c => b.date.before c.date = true := by
  induction bars generalizing index previous with
  | nil => simp [checkFrom]
  | cons b bs ih =>
    rw [checkFrom.eq_def]
    dsimp only
    cases bad : b.badField? with
    | some f => simp [bad]
    | none =>
      cases previous with
      | none =>
        rw [ih]
        simp [bad]
      | some p =>
        by_cases order : p.before b.date = true
        · simp only [order, if_true, ih]
          simp only [List.forall_mem_cons, List.pairwise_cons, bad, true_and, Option.some.injEq,
            forall_eq', order]
          constructor
          · rintro ⟨fields, later, pairwise⟩
            exact ⟨fields, fun c hc => Date.before_trans order (later c hc), later, pairwise⟩
          · rintro ⟨fields, -, later, pairwise⟩
            exact ⟨fields, later, pairwise⟩
        · simp [order]

/-- A series is valid exactly if it has a bar, no bar has a bad number and every
bar is later than those in front of it. -/
theorem checkSeries_eq_ok_iff (bars : List Bar) :
    checkSeries bars = .ok () ↔
      bars ≠ [] ∧ (∀ b ∈ bars, b.badField? = none) ∧
        bars.Pairwise fun b c => b.date.before c.date = true := by
  unfold checkSeries
  split
  · simp [*]
  · rw [checkFrom_eq_ok_iff]
    simp [*]

/-- Without a bad number, every field can stand in a bar. -/
theorem validNumber_value {b : Bar} (valid : b.badField? = none) (f : PriceField) :
    validNumber (b.value f) = true := by
  have notBad := List.find?_eq_none.mp valid f (by cases f <;> decide)
  simpa using notBad

variable {bars : List Bar} {b c : Bar} {i j m : Nat}

/-- In a valid series the bar with the smaller index is the earlier one. -/
theorem date_before_of_lt (valid : checkSeries bars = .ok ()) (order : i < j)
    (first : bars[i]? = some b) (second : bars[j]? = some c) : b.date.before c.date = true := by
  obtain ⟨-, -, pairwise⟩ := (checkSeries_eq_ok_iff bars).mp valid
  obtain ⟨hi, rfl⟩ := List.getElem?_eq_some_iff.mp first
  obtain ⟨hj, rfl⟩ := List.getElem?_eq_some_iff.mp second
  exact List.pairwise_iff_getElem.mp pairwise i j hi hj order

/-- In a valid series every bar behind the first ones is later than each of them. -/
theorem date_before_of_mem_drop (valid : checkSeries bars = .ok ()) (first : b ∈ bars.take m)
    (second : c ∈ bars.drop m) : b.date.before c.date = true := by
  obtain ⟨-, -, pairwise⟩ := (checkSeries_eq_ok_iff bars).mp valid
  rw [← List.take_append_drop m bars] at pairwise
  exact (List.pairwise_append.mp pairwise).2.2 b first c second

/-- A first part of a valid series that is not empty is valid. -/
theorem checkSeries_take (valid : checkSeries bars = .ok ()) (some_bar : 1 ≤ m) :
    checkSeries (bars.take m) = .ok () := by
  obtain ⟨nonempty, fields, pairwise⟩ := (checkSeries_eq_ok_iff bars).mp valid
  refine (checkSeries_eq_ok_iff _).mpr ⟨?_, ?_, pairwise.take⟩
  · simpa [List.take_eq_nil_iff, nonempty] using Nat.ne_of_gt some_bar
  · exact fun b hb => fields b (List.mem_of_mem_take hb)

end Bar

end MarketRules
