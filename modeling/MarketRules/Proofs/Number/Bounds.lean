import MarketRules.Proofs.Number.ExactSums

/-!
# Bounds that survive rounding

A quotient that is at most a number of the format is rounded to at most that number,
and one that is at least a number of the format to at least that number.  So the bounds
of a result can be read off the exact result: it has the rounded number of steps, or
these are too many for the format (`ofSteps_cases`).  A larger quotient is not rounded to
fewer steps (`roundedSteps_mono`).
-/

namespace MarketRules.Binary64

variable {a d m e m' e' : Nat} {negative : Bool}

/-! ## The rounded number of steps -/

/-- What `a / d` steps are rounded to, if there were no largest number. -/
def roundedSteps (a d : Nat) : Nat :=
  nearestEven a (d * 2 ^ exponentFor a d) * 2 ^ exponentFor a d

/-- The first power of two past the largest finite number, in steps. -/
def stepsLimit : Nat := Nat.pow 2 2098

/-- Powers of two stay within the limit by their exponents, and neither power is computed. -/
theorem two_pow_mul_le_stepsLimit {j k : Nat} (sum : j + k ≤ 2098) :
    2 ^ j * 2 ^ k ≤ stepsLimit := by
  unfold stepsLimit
  generalize 2098 = limit at sum ⊢
  rw [← Nat.pow_add]
  exact Nat.pow_le_pow_right (by decide) sum

theorem stepsLimit_le_two_pow_mul {j k : Nat} (sum : 2098 ≤ j + k) :
    stepsLimit ≤ 2 ^ j * 2 ^ k := by
  unfold stepsLimit
  generalize 2098 = limit at sum ⊢
  rw [← Nat.pow_add]
  exact Nat.pow_le_pow_right (by decide) sum

/-- A quotient that is not above a whole number is not rounded above it. -/
theorem nearestEven_le_of_le {n : Nat} (positive : 0 < d) (le : a ≤ n * d) :
    nearestEven a d ≤ n := by
  rcases Nat.lt_or_eq_of_le le with below | equal
  · exact nearestEven_le below
  · refine Nat.le_of_eq ?_
    rw [equal, nearestEven_mul n positive]

theorem le_nearestEven {n : Nat} (positive : 0 < d) (le : n * d ≤ a) : n ≤ nearestEven a d :=
  Nat.le_trans ((Nat.le_div_iff_mul_le positive).mpr le) (div_le_nearestEven a d)

/-- The exponent is large enough for the mantissa to fit. -/
theorem lt_of_exponentFor (positive : 0 < d) : a < 2 ^ 53 * (d * 2 ^ exponentFor a d) := by
  have log : a / d < 2 ^ ((a / d).log2 + 1) := Nat.lt_log2_self
  have exponent : (a / d).log2 + 1 ≤ 53 + exponentFor a d := by
    unfold exponentFor
    omega
  have less := Nat.lt_of_lt_of_le log (Nat.pow_le_pow_right (by decide) exponent)
  rw [Nat.div_lt_iff_lt_mul positive, Nat.pow_add, Nat.mul_assoc, Nat.mul_comm _ d] at less
  exact less

/-- The exponent is no larger than that, unless it is zero. -/
theorem le_of_exponentFor (nonzero : exponentFor a d ≠ 0) :
    2 ^ 52 * (d * 2 ^ exponentFor a d) ≤ a := by
  have log : (a / d).log2 = 52 + exponentFor a d := by
    unfold exponentFor at nonzero ⊢
    omega
  have positive : 0 < d := by
    refine Nat.pos_of_ne_zero fun zero => ?_
    rw [zero, Nat.div_zero, Nat.log2_zero] at log
    omega
  have notZero : a / d ≠ 0 := by
    intro zero
    rw [zero, Nat.log2_zero] at log
    omega
  have least := Nat.log2_self_le notZero
  rw [log, Nat.le_div_iff_mul_le positive, Nat.pow_add, Nat.mul_assoc, Nat.mul_comm _ d] at least
  exact least

/-- The rounded mantissa has at most one carry. -/
theorem nearestEven_le_carry (positive : 0 < d) :
    nearestEven a (d * 2 ^ exponentFor a d) ≤ 2 ^ 53 :=
  nearestEven_le (lt_of_exponentFor positive)

/-- At an exponent that is not below that of the rounding, a number of the format is a
whole number of units of the rounding. -/
theorem exists_steps_eq_mul {f : Nat} (le : f ≤ e) : ∃ k, steps m e = k * 2 ^ f := by
  refine ⟨m * 2 ^ (e - f), ?_⟩
  rw [Nat.mul_assoc, ← Nat.pow_add, Nat.sub_add_cancel le]
  rfl

/-- Below the exponent of the rounding there are only numbers with fewer steps. -/
theorem steps_lt_of_lt_exponent {f : Nat} (canonical : Canonical m e) (less : e < f) :
    steps m e < 2 ^ 52 * 2 ^ f := by
  obtain ⟨f, rfl⟩ : ∃ k, f = k + 1 := ⟨f - 1, by omega⟩
  have larger : 2 ^ e ≤ 2 ^ f := Nat.pow_le_pow_right (by decide) (by omega)
  have mantissa : m < 2 ^ 53 := canonical.mantissa_lt
  calc steps m e = m * 2 ^ e := rfl
    _ ≤ m * 2 ^ f := Nat.mul_le_mul_left _ larger
    _ < 2 ^ 53 * 2 ^ f := Nat.mul_lt_mul_of_pos_right mantissa (Nat.two_pow_pos f)
    _ = 2 ^ 52 * 2 ^ (f + 1) := by rw [Nat.pow_succ 2 f]; omega

/-- A quotient is not rounded past a number of the format.  Where the number has the smaller
exponent, the quotient would have more than its bits. -/
theorem roundedSteps_le (canonical : Canonical m e) (positive : 0 < d)
    (le : a ≤ steps m e * d) : roundedSteps a d ≤ steps m e := by
  have unitPos : 0 < d * 2 ^ exponentFor a d := Nat.mul_pos positive (Nat.two_pow_pos _)
  rcases Nat.lt_or_ge e (exponentFor a d) with below | above
  · have least := le_of_exponentFor (Nat.ne_of_gt (Nat.lt_of_le_of_lt (Nat.zero_le e) below))
    have few := Nat.mul_lt_mul_of_pos_right (steps_lt_of_lt_exponent canonical below) positive
    rw [Nat.mul_assoc, Nat.mul_comm (2 ^ _) d] at few
    exact absurd (Nat.lt_of_lt_of_le few (Nat.le_trans least le)) (Nat.lt_irrefl _)
  · obtain ⟨k, whole⟩ := exists_steps_eq_mul (m := m) above
    rw [whole, Nat.mul_assoc, Nat.mul_comm _ d] at le
    rw [whole]
    exact Nat.mul_le_mul_right _ (nearestEven_le_of_le unitPos le)

/-- A quotient is not rounded below a number of the format. -/
theorem le_roundedSteps (canonical : Canonical m e) (positive : 0 < d)
    (le : steps m e * d ≤ a) : steps m e ≤ roundedSteps a d := by
  have unitPos : 0 < d * 2 ^ exponentFor a d := Nat.mul_pos positive (Nat.two_pow_pos _)
  rcases Nat.lt_or_ge e (exponentFor a d) with below | above
  · have full : 2 ^ 52 ≤ nearestEven a (d * 2 ^ exponentFor a d) :=
      (full_nearestEven a d).resolve_right (Nat.ne_of_gt (Nat.lt_of_le_of_lt (Nat.zero_le e) below))
    exact Nat.le_of_lt (Nat.lt_of_lt_of_le (steps_lt_of_lt_exponent canonical below)
      (Nat.mul_le_mul_right _ full))
  · obtain ⟨k, whole⟩ := exists_steps_eq_mul (m := m) above
    rw [whole, Nat.mul_assoc, Nat.mul_comm _ d] at le
    rw [whole]
    exact Nat.mul_le_mul_right _ (le_nearestEven unitPos le)

/-- Rounding keeps the order.  Of two numbers with one quotient the larger one has the larger
rest. -/
theorem nearestEven_mono {b : Nat} (le : a ≤ b) (d : Nat) : nearestEven a d ≤ nearestEven b d := by
  have quotient : a / d ≤ b / d := Nat.div_le_div_right le
  rcases Nat.lt_or_eq_of_le quotient with less | same
  · refine Nat.le_trans ?_ (Nat.le_trans less (div_le_nearestEven b d))
    unfold nearestEven
    repeat' split
    all_goals omega
  · have rest : a % d ≤ b % d := by
      have first := Nat.div_add_mod a d
      have second := Nat.div_add_mod b d
      rw [same] at first
      omega
    unfold nearestEven
    rw [same]
    repeat' split
    all_goals omega

/-- A larger quotient has no smaller exponent. -/
theorem exponentFor_mono {b : Nat} (le : a ≤ b) (d : Nat) : exponentFor a d ≤ exponentFor b d := by
  have quotient : a / d ≤ b / d := Nat.div_le_div_right le
  refine Nat.sub_le_sub_right ?_ 52
  by_cases zero : a / d = 0
  · rw [zero, Nat.log2_zero]
    exact Nat.zero_le _
  · have nonzero : b / d ≠ 0 :=
      Nat.ne_of_gt (Nat.lt_of_lt_of_le (Nat.pos_of_ne_zero zero) quotient)
    exact (Nat.le_log2 nonzero).mpr (Nat.le_trans (Nat.log2_self_le zero) quotient)

/-- A larger magnitude is not rounded to fewer steps.  The carry of the finer rounding does
not reach past the least full mantissa of the other. -/
theorem roundedSteps_mono {b : Nat} (positive : 0 < d) (le : a ≤ b) :
    roundedSteps a d ≤ roundedSteps b d := by
  rcases Nat.lt_or_eq_of_le (exponentFor_mono le d) with finer | same
  · have full : 2 ^ 52 ≤ nearestEven b (d * 2 ^ exponentFor b d) :=
      (full_nearestEven b d).resolve_right (by omega)
    calc roundedSteps a d ≤ 2 ^ 53 * 2 ^ exponentFor a d :=
          Nat.mul_le_mul_right _ (nearestEven_le_carry positive)
      _ = 2 ^ 52 * 2 ^ (exponentFor a d + 1) := by
          rw [Nat.pow_succ 2 (exponentFor a d)]
          omega
      _ ≤ 2 ^ 52 * 2 ^ exponentFor b d :=
          Nat.mul_le_mul_left _ (Nat.pow_le_pow_right (by decide) finer)
      _ ≤ roundedSteps b d := Nat.mul_le_mul_right _ full
  · rw [roundedSteps, roundedSteps, same]
    exact Nat.mul_le_mul_right _ (nearestEven_mono le _)

/-! ## The rounded number -/

theorem steps_lt_stepsLimit (canonical : Canonical m e) : steps m e < stepsLimit := by
  have mantissa : m < 2 ^ 53 := canonical.mantissa_lt
  have exponent := canonical.exponent_le
  exact Nat.lt_of_lt_of_le (Nat.mul_lt_mul_of_pos_right mantissa (Nat.two_pow_pos e))
    (two_pow_mul_le_stepsLimit (by omega))

/-- The number that a quotient is rounded to has the rounded number of steps, unless these are
too many.  A mantissa with a bit too many is a power of two and is written with the next
exponent. -/
theorem ofSteps_cases (negative : Bool) (a : Nat) (positive : 0 < d) :
    (∃ m e canonical, ofSteps negative a d = .finite negative m e canonical ∧
        steps m e = roundedSteps a d) ∨
      ofSteps negative a d = .infinite negative ∧ stepsLimit ≤ roundedSteps a d := by
  by_cases fits : nearestEven a (d * Nat.pow 2 (exponentFor a d)) < Nat.pow 2 53
  · by_cases inRange : exponentFor a d ≤ 2045
    · refine .inl ⟨_, _, ⟨fits, full_nearestEven a d, inRange⟩, ?_, rfl⟩
      rw [ofSteps, dif_pos fits, dif_pos inRange]
    · refine .inr ⟨by rw [ofSteps, dif_pos fits, dif_neg inRange], ?_⟩
      have full : 2 ^ 52 ≤ nearestEven a (d * 2 ^ exponentFor a d) :=
        (full_nearestEven a d).resolve_right (by omega)
      exact Nat.le_trans (stepsLimit_le_two_pow_mul (by omega)) (Nat.mul_le_mul_right _ full)
  · have carried : nearestEven a (d * 2 ^ exponentFor a d) = 2 ^ 53 :=
      Nat.le_antisymm (nearestEven_le_carry positive) (Nat.le_of_not_lt fits)
    by_cases inRange : exponentFor a d + 1 ≤ 2045
    · refine .inl ⟨_, _, ⟨by decide, .inl (Nat.le_refl _), inRange⟩, ?_, ?_⟩
      · rw [ofSteps, dif_neg fits, dif_pos inRange]
      · rw [roundedSteps, carried]
        show 2 ^ 52 * 2 ^ (exponentFor a d + 1) = _
        rw [Nat.pow_succ 2 (exponentFor a d)]
        omega
    · refine .inr ⟨by rw [ofSteps, dif_neg fits, dif_neg inRange], ?_⟩
      rw [roundedSteps, carried]
      exact stepsLimit_le_two_pow_mul (by omega)

/-- What is at most a number of the format is rounded to at most that number. -/
theorem exists_ofSteps_le (negative : Bool) (canonical : Canonical m e) (positive : 0 < d)
    (le : a ≤ steps m e * d) : ∃ m' e' canonical',
      ofSteps negative a d = .finite negative m' e' canonical' ∧ steps m' e' ≤ steps m e := by
  have bound := roundedSteps_le canonical positive le
  obtain ⟨m', e', canonical', rounded, same⟩ | ⟨-, past⟩ := ofSteps_cases negative a positive
  · exact ⟨m', e', canonical', rounded, by rw [same]; exact bound⟩
  · exact absurd (Nat.le_trans past bound) (Nat.not_le.mpr (steps_lt_stepsLimit canonical))

/-- What is at least a number of the format is rounded to at least that number. -/
theorem le_steps_of_ofSteps {c : Nat} {canonical : Canonical m e} (representable : Representable c)
    (positive : 0 < d) (le : c * d ≤ a)
    (rounded : ofSteps negative a d = .finite negative m e canonical) : c ≤ steps m e := by
  obtain ⟨m', e', canonical', rfl⟩ := representable
  obtain ⟨m'', e'', canonical'', rounded', same⟩ | ⟨rounded', -⟩ :=
    ofSteps_cases negative a positive
  · rw [rounded'] at rounded
    cases rounded
    rw [same]
    exact le_roundedSteps canonical' positive le
  · rw [rounded'] at rounded
    cases rounded

/-! ## Neighbours -/

/-- The powers of two below the limit are numbers of the format. -/
theorem representable_two_pow {j : Nat} (small : j ≤ 2097) : Representable (2 ^ j) := by
  rcases Nat.lt_or_ge j 53 with short | long
  · exact ⟨2 ^ j, 0, ⟨Nat.pow_lt_pow_right (by decide) short, .inr rfl, Nat.zero_le _⟩,
      Nat.mul_one _⟩
  · refine ⟨2 ^ 52, j - 52, ⟨by decide, .inl (Nat.le_refl _), by omega⟩, ?_⟩
    show 2 ^ 52 * 2 ^ (j - 52) = 2 ^ j
    rw [← Nat.pow_add, Nat.add_sub_cancel' (by omega)]

/-- Two numbers of the format are at least half a unit in the last place of the larger one
apart.  With the same exponent or a larger one, both are multiples of the unit of the larger
number. -/
theorem two_pow_pred_le_sub (canonical : Canonical m e) (canonical' : Canonical m' e')
    (less : steps m' e' < steps m e) : 2 ^ (e - 1) ≤ steps m e - steps m' e' := by
  rcases Nat.lt_or_ge e' e with lower | above
  · obtain ⟨e, rfl⟩ : ∃ k, e = k + 1 := ⟨e - 1, by omega⟩
    have full : 2 ^ 52 ≤ m := canonical.full_or_least.resolve_right (by omega)
    have few : m' + 1 ≤ 2 ^ 53 := canonical'.mantissa_lt
    have upper : m' * 2 ^ e' ≤ m' * 2 ^ e :=
      Nat.mul_le_mul_left _ (Nat.pow_le_pow_right (by decide) (by omega))
    have mantissas := Nat.mul_le_mul_right (2 ^ e) few
    have least := Nat.mul_le_mul_right (2 ^ (e + 1)) full
    rw [Nat.pow_succ 2 e] at least
    rw [Nat.add_sub_cancel]
    simp only [steps, Nat.pow_eq, Nat.pow_succ 2 e, Nat.succ_mul] at *
    omega
  · obtain ⟨k, whole⟩ := exists_steps_eq_mul (m := m') above
    rw [whole] at less ⊢
    have fewer : k + 1 ≤ m := Nat.lt_of_mul_lt_mul_right less
    have apart := Nat.mul_le_mul_right (2 ^ e) fewer
    have half : 2 ^ (e - 1) ≤ 2 ^ e := Nat.pow_le_pow_right (by decide) (Nat.sub_le e 1)
    rw [Nat.succ_mul] at apart
    change 2 ^ (e - 1) ≤ m * 2 ^ e - k * 2 ^ e
    omega

/-- Half a unit in the last place of a number is, as a fraction of the number, not too small
for the format. -/
theorem steps_le_mul_stepsPerUnit {k : Nat} (canonical : Canonical m e) (half : 2 ^ (e - 1) ≤ k) :
    steps m e ≤ k * stepsPerUnit := by
  have mantissa : m < 2 ^ 53 := canonical.mantissa_lt
  have double : 2 ^ e ≤ 2 * 2 ^ (e - 1) := by
    rw [← Nat.pow_succ']
    exact Nat.pow_le_pow_right (by decide) (by omega)
  have unit : 2 ^ 54 * 1 ≤ stepsPerUnit := by
    obtain ⟨places, sum⟩ : ∃ places, 54 + places = 1074 := ⟨1020, rfl⟩
    rw [stepsPerUnit_eq_mul sum]
    exact Nat.mul_le_mul_left _ (Nat.two_pow_pos places)
  calc steps m e ≤ 2 ^ 53 * 2 ^ e := Nat.mul_le_mul_right _ (Nat.le_of_lt mantissa)
    _ ≤ 2 ^ 53 * (2 * k) := Nat.mul_le_mul_left _ (by omega)
    _ = k * (2 ^ 54 * 1) := by omega
    _ ≤ k * stepsPerUnit := Nat.mul_le_mul_left _ unit

end MarketRules.Binary64
