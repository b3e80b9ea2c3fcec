import MarketRules.Market.Bar
import MarketRules.Proofs.Number.WholeNumber

/-!
# Exact sums

A number that is finite and not negative is a natural number of steps, its *count*.  The
sum of two such numbers is the number nearest to the sum of their counts, and so it is
exact if the format has a number with that count.  It has one for every whole number up to
`2^53`.
-/

namespace MarketRules.Binary64

/-! ## Counts -/

/-- The number of steps of a number that is finite and not negative. -/
def count? : Binary64 → Option Nat
  | .finite negative m e _ => if negative = true ∧ m ≠ 0 then none else some (steps m e)
  | _ => none

/-- The number nearest to a number of steps. -/
def ofCount (count : Nat) : Binary64 := ofSteps false count 1

/-- The format has a number with this count. -/
def Representable (count : Nat) : Prop := ∃ m e, Canonical m e ∧ steps m e = count

theorem representable_zero : Representable 0 :=
  ⟨0, 0, ⟨by decide, .inr rfl, by decide⟩, Nat.zero_mul _⟩

theorem steps_eq_zero_iff {m e : Nat} : steps m e = 0 ↔ m = 0 := by
  have positive : 2 ^ e ≠ 0 := Nat.ne_of_gt (Nat.two_pow_pos e)
  exact (Nat.mul_eq_zero).trans (or_iff_left positive)

theorem zero_eq : (0 : Binary64) = ofCount 0 := by decide +kernel

/-- A number with the count is the nearest one. -/
theorem ofCount_steps {m e : Nat} (canonical : Canonical m e) :
    ofCount (steps m e) = .finite false m e canonical := by
  rcases Nat.eq_zero_or_pos m with rfl | positive
  · obtain rfl : e = 0 := canonical.full_or_least.resolve_left (by decide)
    rfl
  · have middle := interval_contains_middle m e (Nat.mul_pos (Nat.two_pow_pos e) Nat.one_pos)
    refine ofSteps_of_contains canonical positive Nat.one_pos ?_
    rw [Nat.mul_one, Nat.mul_assoc] at middle
    rw [Nat.mul_one]
    exact middle

/-- A representable count is the count of a number. -/
theorem exists_ofCount_eq {a : Nat} (representable : Representable a) :
    ∃ m e canonical, ofCount a = .finite false m e canonical ∧ steps m e = a := by
  obtain ⟨m, e, canonical, rfl⟩ := representable
  exact ⟨m, e, canonical, ofCount_steps canonical, rfl⟩

/-- A number that is counted is finite, and it is not negative unless it is zero. -/
theorem exists_eq_of_count? {x : Binary64} {a : Nat} (counted : x.count? = some a) :
    ∃ negative m e canonical, x = .finite negative m e canonical ∧ steps m e = a ∧
      (negative = true → a = 0) := by
  cases x with
  | nan => cases counted
  | infinite => cases counted
  | finite negative m e canonical =>
    obtain ⟨notBelow, ⟨⟩⟩ := Option.ite_none_left_eq_some.mp counted
    refine ⟨negative, m, e, canonical, rfl, rfl, fun below => ?_⟩
    exact steps_eq_zero_iff.mpr (Decidable.not_not.mp fun nonzero => notBelow ⟨below, nonzero⟩)

/-- The numbers that can stand in a bar are those with a count. -/
theorem exists_count?_of_validNumber {x : Binary64} (valid : Bar.validNumber x = true) :
    ∃ a, x.count? = some a := by
  obtain ⟨isFinite, notBelow⟩ := Bool.and_eq_true_iff.mp valid
  cases x with
  | nan => cases isFinite
  | infinite => cases isFinite
  | finite negative m e canonical =>
    refine ⟨steps m e, if_neg ?_⟩
    rintro ⟨rfl, nonzero⟩
    have positive : 0 < steps m e := Nat.pos_of_ne_zero (mt steps_eq_zero_iff.mp nonzero)
    have below : (finite true m e canonical).lt 0 = true := by
      rw [zero_eq]
      exact decide_eq_true (Int.neg_neg_of_pos (Int.natCast_pos.mpr positive))
    rw [below] at notBelow
    cases notBelow

theorem count?_of_whole? {x : Binary64} {n : Nat} (whole : x.whole? = some n) :
    x.count? = some (n * stepsPerUnit) := by
  cases x with
  | nan => cases whole
  | infinite => cases whole
  | finite negative m e canonical =>
    obtain ⟨divides, quotient⟩ := Option.ite_none_right_eq_some.mp whole
    have product : steps m e / stepsPerUnit * stepsPerUnit = steps m e :=
      Nat.div_mul_cancel (Nat.dvd_of_mod_eq_zero divides)
    cases negative with
    | false =>
      have same : steps m e / stepsPerUnit = n := Int.ofNat.inj (Option.some.inj quotient)
      rw [← same, product]
      rfl
    | true =>
      have same : -((steps m e / stepsPerUnit : Nat) : Int) = n := Option.some.inj quotient
      obtain ⟨noUnits, isZero⟩ : steps m e / stepsPerUnit = 0 ∧ n = 0 := by
        generalize steps m e / stepsPerUnit = units at same
        omega
      have noSteps : steps m e = 0 := by rw [← product, noUnits, Nat.zero_mul]
      rw [isZero, Nat.zero_mul, ← noSteps]
      exact if_neg fun below => below.2 (steps_eq_zero_iff.mp noSteps)

/-! ## Sums and differences -/

section

variable {a b : Nat} {y : Binary64}

theorem signedSteps_of_count {negative : Bool} {m e : Nat} (same : steps m e = b)
    (zero : negative = true → b = 0) :
    signedSteps negative m e = b ∧ signedSteps (!negative) m e = -b := by
  unfold signedSteps
  cases negative with
  | false => exact ⟨congrArg Int.ofNat same, congrArg (fun n : Nat => -(n : Int)) same⟩
  | true =>
    rw [same, zero rfl]
    exact ⟨rfl, rfl⟩

/-- The sum of a number without a sign and another one is the number nearest to the exact
sum. -/
theorem add_eq_ofCount {m e m' e' total : Nat} {negative : Bool} {canonical : Canonical m e}
    {canonical' : Canonical m' e'}
    (exact : signedSteps false m e + signedSteps negative m' e' = total) :
    finite false m e canonical + finite negative m' e' canonical' = ofCount total := by
  show (if signedSteps false m e + signedSteps negative m' e' = 0 then _ else _) = _
  rw [exact]
  by_cases none : total = 0
  · rw [none]
    rfl
  · rw [if_neg (by omega), decide_eq_false (by omega)]
    rfl

/-- The sum of two numbers that are counted is the exact sum, rounded once. -/
theorem ofCount_add (representable : Representable a) (counted : y.count? = some b) :
    ofCount a + y = ofCount (a + b) := by
  obtain ⟨m, e, canonical, same, steps⟩ := exists_ofCount_eq representable
  obtain ⟨negative, m', e', canonical', rfl, steps', zero⟩ := exists_eq_of_count? counted
  have first : signedSteps false m e = a := congrArg Int.ofNat steps
  rw [same]
  refine add_eq_ofCount ?_
  rw [first, (signedSteps_of_count steps' zero).1, Int.natCast_add]

/-- So is their difference, if it is not negative. -/
theorem ofCount_sub (representable : Representable a) (counted : y.count? = some b) (le : b ≤ a) :
    ofCount a - y = ofCount (a - b) := by
  obtain ⟨m, e, canonical, same, steps⟩ := exists_ofCount_eq representable
  obtain ⟨negative, m', e', canonical', rfl, steps', zero⟩ := exists_eq_of_count? counted
  have first : signedSteps false m e = a := congrArg Int.ofNat steps
  rw [same]
  show finite false m e canonical + finite (!negative) m' e' canonical' = _
  refine add_eq_ofCount ?_
  rw [first, (signedSteps_of_count steps' zero).2]
  omega

end

/-! ## Whole numbers -/

/-- A number of `l + 1` bits has a mantissa of 53 bits if it is shifted up. -/
theorem representable_of_bits {n l : Nat} (lower : 2 ^ l ≤ n) (upper : n < 2 ^ (l + 1))
    (small : l ≤ 52) : Representable (n * stepsPerUnit) := by
  have scale : 2 ^ l * 2 ^ (52 - l) = 2 ^ 52 := by
    rw [← Nat.pow_add, Nat.add_sub_cancel' small]
  have full : 2 ^ 52 ≤ n * 2 ^ (52 - l) := by
    rw [← scale]
    exact Nat.mul_le_mul_right _ lower
  have fits : n * 2 ^ (52 - l) < 2 ^ 53 := by
    rw [Nat.pow_succ, ← scale, Nat.mul_right_comm, ← Nat.pow_succ]
    exact Nat.mul_lt_mul_of_pos_right upper (Nat.two_pow_pos _)
  refine ⟨n * 2 ^ (52 - l), l + 1022, ⟨fits, .inl full, by omega⟩, ?_⟩
  show n * 2 ^ (52 - l) * 2 ^ (l + 1022) = n * stepsPerUnit
  rw [Nat.mul_assoc, ← stepsPerUnit_eq_mul (by omega)]

/-- The whole numbers up to `2 ^ 53` are numbers of the format.  The last one has the mantissa
of the next lower power of two. -/
theorem representable_whole {n : Nat} (small : n ≤ 2 ^ 53) : Representable (n * stepsPerUnit) := by
  rcases Nat.eq_zero_or_pos n with rfl | positive
  · rw [Nat.zero_mul]
    exact representable_zero
  · rcases Nat.lt_or_eq_of_le small with below | largest
    · have nonzero : n ≠ 0 := Nat.ne_of_gt positive
      have bits : n.log2 < 53 := (Nat.log2_lt nonzero).mpr below
      exact representable_of_bits (Nat.log2_self_le nonzero) Nat.lt_log2_self (by omega)
    · refine ⟨2 ^ 52, 1074 + 1, ⟨by decide, .inl (Nat.le_refl _), by decide⟩, ?_⟩
      rw [largest]
      unfold steps stepsPerUnit
      generalize 1074 = places
      show 2 ^ 52 * 2 ^ (places + 1) = 2 ^ 53 * 2 ^ places
      rw [Nat.pow_succ 2 places, Nat.mul_comm (2 ^ places), ← Nat.mul_assoc]
      rfl

/-- A quotient is rounded to the same number when it is expanded. -/
theorem ofSteps_mul {negative : Bool} {a d c : Nat} (positive : 0 < c) :
    ofSteps negative (a * c) (d * c) = ofSteps negative a d := by
  have exponent : exponentFor (a * c) (d * c) = exponentFor a d := by
    rw [exponentFor, exponentFor, Nat.mul_div_mul_right a d positive]
  have nearest (unit : Nat) : nearestEven (a * c) (d * c * unit) = nearestEven a (d * unit) := by
    rw [Nat.mul_right_comm, nearestEven, nearestEven, Nat.mul_div_mul_right _ _ positive,
      Nat.mul_mod_mul_right, ← Nat.mul_assoc]
    simp only [Nat.mul_lt_mul_right positive]
  simp only [ofSteps, exponent, nearest]

/-- The quotient of two exact whole numbers is rounded once. -/
theorem ofNat_div_ofNat {n d : Nat} (positive : 0 < d) (small : n ≤ 2 ^ 53) (small' : d ≤ 2 ^ 53) :
    ofNat n / ofNat d = ofRatio false n d := by
  obtain ⟨m, e, canonical, same, steps⟩ := exists_ofCount_eq (representable_whole small)
  obtain ⟨m', e', canonical', same', steps'⟩ := exists_ofCount_eq (representable_whole small')
  have nonzero : m' ≠ 0 := by
    intro zero
    have noSteps : d * stepsPerUnit = 0 := steps'.symm.trans (steps_eq_zero_iff.mpr zero)
    exact Nat.ne_of_gt (Nat.mul_pos positive stepsPerUnit_pos) noSteps
  have first : ofNat n = finite false m e canonical := same
  have second : ofNat d = finite false m' e' canonical' := same'
  rw [first, second]
  show (if m' = 0 then _ else ofSteps _ _ _) = _
  rw [if_neg nonzero, steps, steps']
  exact ofSteps_mul stepsPerUnit_pos

end MarketRules.Binary64
