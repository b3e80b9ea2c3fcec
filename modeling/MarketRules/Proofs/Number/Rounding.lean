import Mathlib.Algebra.Group.Nat.Defs
import MarketRules.Number.Shortest

/-!
# What rounds to a number

`Interval.contains` says which quotients of whole numbers lie in the interval
around a positive number.  Every one of them rounds to the number.  The exponent
of the rounding is the exponent of the number, except just below a power of two:
there it is one less, and the mantissa rounds up to the power.
-/

namespace MarketRules.Binary64

/-! ## The interval -/

theorem Interval.contains_iff {i : Interval} {unit point : Nat} :
    i.contains unit point = true ↔
      i.low * unit ≤ point ∧ point ≤ i.high * unit ∧
        (i.closed = false → i.low * unit < point ∧ point < i.high * unit) := by
  rw [Interval.contains]
  cases i.closed with
  | true => simp
  | false =>
    simp only [Bool.false_eq_true, if_false, Bool.and_eq_true, decide_eq_true_eq, forall_const]
    omega

/-- An interval can be counted in finer units. -/
theorem Interval.contains_mul {i : Interval} {unit point c : Nat} (positive : 0 < c) :
    i.contains (unit * c) (point * c) = i.contains unit point := by
  simp only [Interval.contains, ← Nat.mul_assoc, Nat.mul_le_mul_right_iff positive,
    Nat.mul_lt_mul_right positive]

theorem interval_low_pos {mantissa exponent : Nat} (positive : 0 < mantissa) :
    2 ≤ (interval mantissa exponent).low := by
  unfold interval
  dsimp only
  split <;> omega

/-- A number lies in its own interval. -/
theorem interval_contains_middle (mantissa exponent : Nat) {unit : Nat} (positive : 0 < unit) :
    (interval mantissa exponent).contains unit (4 * mantissa * unit) = true := by
  refine Interval.contains_iff.mpr ⟨Nat.mul_le_mul_right _ ?_,
    Nat.mul_le_mul_right _ (Nat.le_add_right _ _), fun isOpen =>
    ⟨Nat.mul_lt_mul_of_pos_right ?_ positive,
      Nat.mul_lt_mul_of_pos_right (Nat.lt_add_of_pos_right (by decide)) positive⟩⟩
  · unfold interval
    dsimp only
    split <;> omega
  · have odd : mantissa % 2 = 1 := by simpa [interval] using isOpen
    unfold interval
    dsimp only
    split <;> omega

/-! ## The parts of the rounding -/

/-- The nearest whole number is `n` when the quotient is at most half away from `n`,
and nearer than that if `n` is odd. -/
theorem nearestEven_eq {a d n : Nat} (lower : 2 * (n * d) ≤ 2 * a + d)
    (upper : 2 * a ≤ 2 * (n * d) + d)
    (nearer : n % 2 = 1 → 2 * (n * d) < 2 * a + d ∧ 2 * a < 2 * (n * d) + d)
    (positive : 0 < d) : nearestEven a d = n := by
  have division := Nat.div_add_mod a d
  have rest := Nat.mod_lt a positive
  rw [Nat.mul_comm] at division
  have le : a / d ≤ n := by
    refine Nat.le_of_not_lt fun less => ?_
    have := Nat.mul_le_mul_right d less
    rw [Nat.succ_mul] at this
    omega
  have ge : n ≤ a / d + 1 := by
    refine Nat.le_of_not_lt fun less => ?_
    have := Nat.mul_le_mul_right d less
    rw [Nat.succ_mul, Nat.succ_mul] at this
    omega
  unfold nearestEven
  rcases Nat.lt_or_eq_of_le le with less | equal
  · have next : n = a / d + 1 := by omega
    have product : n * d = a / d * d + d := by rw [next, Nat.succ_mul]
    repeat' split
    all_goals omega
  · rw [equal] at division ⊢
    repeat' split
    all_goals omega

/-- The exponent is known from two powers of two around the quotient. -/
theorem exponentFor_eq {a d e : Nat} (positive : 0 < d)
    (lower : e = 0 ∨ 2 ^ 52 * (2 ^ e * d) ≤ a) (upper : a < 2 ^ 53 * (2 ^ e * d)) :
    exponentFor a d = e := by
  have less : a / d < 2 ^ (53 + e) := by
    rw [Nat.div_lt_iff_lt_mul positive, Nat.pow_add, Nat.mul_assoc]
    exact upper
  unfold exponentFor
  by_cases zero : a / d = 0
  · rw [zero, Nat.log2_zero]
    rcases lower with rfl | lower
    · rfl
    · have := Nat.mul_pos (Nat.two_pow_pos 52) (Nat.mul_pos (Nat.two_pow_pos e) positive)
      have := Nat.div_eq_zero_iff_lt positive |>.mp zero
      have := Nat.mul_le_mul (Nat.two_pow_pos 52) (Nat.le_mul_of_pos_left d (Nat.two_pow_pos e))
      omega
  · have atMost : (a / d).log2 < 53 + e := (Nat.log2_lt zero).mpr less
    rcases lower with rfl | lower
    · omega
    · have atLeast : 52 + e ≤ (a / d).log2 := by
        rw [Nat.le_log2 zero, Nat.le_div_iff_mul_le positive, Nat.pow_add, Nat.mul_assoc]
        exact lower
      omega

/-- A quotient is rounded to the number with its exponent and its mantissa. -/
theorem ofSteps_of_parts {negative : Bool} {a d m e : Nat} (canonical : Canonical m e)
    (exponent : exponentFor a d = e) (mantissa : nearestEven a (2 ^ e * d) = m) :
    ofSteps negative a d = .finite negative m e canonical := by
  subst exponent
  rw [Nat.mul_comm] at mantissa
  subst mantissa
  have fits : nearestEven a (d * Nat.pow 2 (exponentFor a d)) < Nat.pow 2 53 :=
    canonical.mantissa_lt
  rw [ofSteps, dif_pos fits, dif_pos canonical.exponent_le]
  rfl

/-- Rounding up to the next power of two. -/
theorem ofSteps_of_carry {negative : Bool} {a d e : Nat} (canonical : Canonical (2 ^ 52) (e + 1))
    (exponent : exponentFor a d = e) (mantissa : nearestEven a (2 ^ e * d) = 2 ^ 53) :
    ofSteps negative a d = .finite negative (2 ^ 52) (e + 1) canonical := by
  subst exponent
  rw [Nat.mul_comm] at mantissa
  have carried : ¬ nearestEven a (d * Nat.pow 2 (exponentFor a d)) < Nat.pow 2 53 :=
    Nat.not_lt.mpr (Nat.le_of_eq mantissa.symm)
  show _ = finite negative (Nat.pow 2 52) (exponentFor a d + 1) canonical
  rw [ofSteps, dif_neg carried, dif_pos canonical.exponent_le]

/-! ## The rounding -/

/-- Away from the lower half-step of a power of two. -/
theorem ofSteps_of_near {negative : Bool} {a d m e : Nat} (canonical : Canonical m e)
    (positive : 0 < d) (large : e = 0 ∨ 2 ^ 52 * (2 ^ e * d) ≤ a)
    (lower : 2 * (m * (2 ^ e * d)) ≤ 2 * a + 2 ^ e * d)
    (upper : 2 * a ≤ 2 * (m * (2 ^ e * d)) + 2 ^ e * d)
    (nearer : m % 2 = 1 → 2 * (m * (2 ^ e * d)) < 2 * a + 2 ^ e * d ∧
      2 * a < 2 * (m * (2 ^ e * d)) + 2 ^ e * d) :
    ofSteps negative a d = .finite negative m e canonical := by
  have unitPos : 0 < 2 ^ e * d := Nat.mul_pos (Nat.two_pow_pos e) positive
  have bound : m + 1 ≤ 2 ^ 53 := canonical.mantissa_lt
  have product := Nat.mul_le_mul_right (2 ^ e * d) bound
  rw [Nat.succ_mul] at product
  exact ofSteps_of_parts canonical (exponentFor_eq positive large (by omega))
    (nearestEven_eq lower upper nearer unitPos)

/-- Every quotient in the interval of a number rounds to the number.  Below a power of two the
steps are half as long, and there the rounding carries. -/
theorem ofSteps_of_contains {negative : Bool} {a d m e : Nat} (canonical : Canonical m e)
    (mantissaPos : 0 < m) (positive : 0 < d)
    (contained : (interval m e).contains (2 ^ e * d) (4 * a) = true) :
    ofSteps negative a d = .finite negative m e canonical := by
  obtain ⟨lower, upper, strict⟩ := Interval.contains_iff.mp contained
  have unitPos : 0 < 2 ^ e * d := Nat.mul_pos (Nat.two_pow_pos e) positive
  simp only [interval, decide_eq_false_iff_not, Nat.mod_two_not_eq_zero, Nat.add_mul,
    Nat.mul_assoc] at lower upper strict
  by_cases power : m = Nat.pow 2 52 ∧ e ≠ 0
  · rw [if_pos power] at lower
    obtain ⟨rfl, nonzero⟩ := power
    obtain ⟨e, rfl⟩ := Nat.exists_eq_add_one_of_ne_zero nonzero
    have double : 2 ^ (e + 1) * d = 2 * (2 ^ e * d) := by
      rw [Nat.pow_succ, Nat.mul_comm (2 ^ e) 2, Nat.mul_assoc]
    change (4 * 2 ^ 52 - 1) * (2 ^ (e + 1) * d) ≤ 4 * a at lower
    change 4 * (2 ^ 52 * (2 ^ (e + 1) * d)) + 2 * (2 ^ (e + 1) * d) ≥ 4 * a at upper
    rcases Nat.lt_or_ge a (2 ^ 52 * (2 ^ (e + 1) * d)) with below | large
    · rw [double] at lower below
      have halfPos : 0 < 2 ^ e * d := Nat.mul_pos (Nat.two_pow_pos e) positive
      exact ofSteps_of_carry canonical
        (exponentFor_eq positive (.inr (by omega)) (by omega))
        (nearestEven_eq (by omega) (by omega) (fun odd => absurd odd (by decide)) halfPos)
    · exact ofSteps_of_near (m := 2 ^ 52) canonical positive (.inr large) (by omega) (by omega)
        (fun odd => absurd odd (by decide))
  · rw [if_neg power] at lower strict
    rw [Nat.sub_mul, Nat.mul_assoc] at lower strict
    have large : e = 0 ∨ 2 ^ 52 * (2 ^ e * d) ≤ a := by
      by_cases least : e = 0
      · exact .inl least
      · have full : 2 ^ 52 ≤ m := canonical.full_or_least.resolve_right least
        have other : m ≠ 2 ^ 52 := fun equal => power ⟨equal, least⟩
        have above := Nat.mul_le_mul_right (2 ^ e * d) (Nat.lt_of_le_of_ne full other.symm)
        rw [Nat.succ_mul] at above
        exact .inr (by omega)
    exact ofSteps_of_near canonical positive large (by omega) (by omega) (by omega)

end MarketRules.Binary64
