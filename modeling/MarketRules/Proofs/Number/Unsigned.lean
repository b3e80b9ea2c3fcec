import MarketRules.Proofs.Number.Bounds
import MarketRules.Proofs.Number.Order

/-!
# Numbers without a sign

Zero without a sign, the positive numbers and the positive infinity are closed under
sums and products, apart from the product of zero and the infinity, which is a NaN.  A
bound on two of them, counted in steps, is a bound on their product.

The quotient of two prices less one is a number that is at least `-1`, and one more than
that has no sign again.  The quotient of two whole numbers is at least one if that of the
exact numbers is, since each of the three roundings keeps the order (`one_le_ofNat_div`).
-/

namespace MarketRules.Binary64

variable {x y : Binary64} {a b c d m e m' e' : Nat}

/-! ## Numbers without a sign -/

/-- Zero without a sign, or a positive number, or the positive infinity. -/
inductive Unsigned : Binary64 → Prop
  | infinite : Unsigned (.infinite false)
  | finite (m e : Nat) (canonical : Canonical m e) : Unsigned (.finite false m e canonical)

/-- A finite number without a sign of at most `bound` steps. -/
def UpTo (bound : Nat) (x : Binary64) : Prop :=
  ∃ m e canonical, x = .finite false m e canonical ∧ steps m e ≤ bound

theorem Unsigned.isNaN (unsigned : x.Unsigned) : x.isNaN = false := by
  cases unsigned with
  | infinite => rfl
  | finite => rfl

/-- An unsigned number is not below zero. -/
theorem Unsigned.lt_zero (unsigned : x.Unsigned) : x.lt 0 = false := by
  rw [zero_eq]
  cases unsigned with
  | infinite => rfl
  | finite m e canonical =>
    exact decide_eq_false (Int.not_lt.mpr (Int.natCast_nonneg (steps m e)))

theorem UpTo.unsigned (upTo : UpTo a x) : x.Unsigned := by
  obtain ⟨m, e, canonical, rfl, -⟩ := upTo
  exact .finite m e canonical

theorem UpTo.isFinite (upTo : UpTo a x) : x.isFinite = true := by
  obtain ⟨m, e, canonical, rfl, -⟩ := upTo
  rfl

theorem UpTo.mono (upTo : UpTo a x) (le : a ≤ b) : UpTo b x := by
  obtain ⟨m, e, canonical, rfl, atMost⟩ := upTo
  exact ⟨m, e, canonical, rfl, Nat.le_trans atMost le⟩

theorem unsigned_ofSteps (num den : Nat) : (ofSteps false num den).Unsigned := by
  unfold ofSteps
  repeat' split
  all_goals constructor

/-- A quotient that is not above a number of the format is not rounded above it. -/
theorem upTo_ofSteps (representable : Representable c) (positive : 0 < d) (le : a ≤ c * d) :
    UpTo c (ofSteps false a d) := by
  obtain ⟨m, e, canonical, rfl⟩ := representable
  exact exists_ofSteps_le false canonical positive le

theorem upTo_ofCount (representable : Representable c) (le : a ≤ c) : UpTo c (ofCount a) :=
  upTo_ofSteps representable Nat.one_pos (by rw [Nat.mul_one]; exact le)

/-- Zero is the only number up to zero. -/
theorem upTo_zero_iff : UpTo 0 x ↔ x = 0 := by
  have zero : (0 : Binary64) = .finite false 0 0 ⟨by decide, .inr rfl, by decide⟩ := by
    rw [zero_eq]
    exact ofCount_steps (m := 0) (e := 0) _
  constructor
  · rintro ⟨m, e, canonical, rfl, noSteps⟩
    obtain rfl : m = 0 := steps_eq_zero_iff.mp (Nat.le_zero.mp noSteps)
    obtain rfl : e = 0 := canonical.full_or_least.resolve_left (by decide)
    exact zero.symm
  · intro equal
    rw [equal]
    exact ⟨0, 0, _, zero, Nat.le_of_eq (Nat.zero_mul _)⟩

theorem upTo_zero (a : Nat) : UpTo a 0 := (upTo_zero_iff.mpr rfl).mono (Nat.zero_le a)

@[simp]
theorem upTo_finite_iff {canonical : Canonical m e} :
    UpTo a (finite false m e canonical) ↔ steps m e ≤ a := by
  constructor
  · rintro ⟨m', e', canonical', same, le⟩
    cases same
    exact le
  · exact fun le => ⟨m, e, canonical, rfl, le⟩

@[simp]
theorem lt_finite {canonical : Canonical m e} {canonical' : Canonical m' e'} :
    (finite false m e canonical).lt (finite false m' e' canonical') =
      decide (steps m e < steps m' e') :=
  decide_eq_decide.mpr Int.ofNat_lt

@[simp]
theorem le_finite {canonical : Canonical m e} {canonical' : Canonical m' e'} :
    (finite false m e canonical).le (finite false m' e' canonical') =
      decide (steps m e ≤ steps m' e') :=
  decide_eq_decide.mpr Int.ofNat_le

/-- Among unsigned numbers only zero has the value zero. -/
theorem UpTo.sameValue_zero_iff (upTo : UpTo a x) : x.sameValue 0 = true ↔ x = 0 := by
  obtain ⟨m, e, canonical, rfl, -⟩ := upTo
  obtain ⟨m₀, e₀, canonical₀, zero, none⟩ := exists_ofCount_eq representable_zero
  rw [← upTo_zero_iff, zero_eq, zero, sameValue, le_finite, le_finite, none]
  simp

/-- Numbers are in the order of their counts. -/
theorem le_iff_of_count (first : x.count? = some a) (second : y.count? = some b) :
    x.le y = true ↔ a ≤ b := by
  obtain ⟨n, m, e, canonical, rfl, same, zero⟩ := exists_eq_of_count? first
  obtain ⟨n', m', e', canonical', rfl, same', zero'⟩ := exists_eq_of_count? second
  have left := (signedSteps_of_count same zero).1
  have right := (signedSteps_of_count same' zero').1
  rw [le, decide_eq_true_iff, left, right]
  exact Int.ofNat_le

theorem count?_finite (canonical : Canonical m e) :
    (finite false m e canonical).count? = some (steps m e) := by
  simp [count?]

/-- A number up to a bound has a count up to it. -/
theorem UpTo.exists_count? (upTo : UpTo a x) : ∃ c, x.count? = some c ∧ c ≤ a := by
  obtain ⟨m, e, canonical, rfl, le⟩ := upTo
  exact ⟨steps m e, count?_finite canonical, le⟩

theorem count?_zero : (0 : Binary64).count? = some 0 := by
  obtain ⟨c, counted, le⟩ := (upTo_zero 0).exists_count?
  rw [counted, Nat.le_zero.mp le]

/-- The larger of two numbers without a sign is zero only if both are. -/
theorem UpTo.max (left : UpTo a x) (right : UpTo a y) :
    UpTo a (x.max y) ∧ (x.max y = 0 ↔ x = 0 ∧ y = 0) := by
  obtain ⟨m, e, canonical, rfl, first⟩ := left
  obtain ⟨m', e', canonical', rfl, second⟩ := right
  rw [← upTo_zero_iff, ← upTo_zero_iff, ← upTo_zero_iff, Binary64.max]
  simp only [isNaN, Bool.false_eq_true, if_false, lt_finite, decide_eq_true_eq]
  split
  · next less =>
    rw [upTo_finite_iff, upTo_finite_iff, upTo_finite_iff]
    omega
  · next notLess =>
    rw [upTo_finite_iff, upTo_finite_iff, upTo_finite_iff]
    omega

/-- One is a number of as many steps as make one. -/
theorem exists_one : ∃ m e canonical, (1 : Binary64) = .finite false m e canonical ∧
    steps m e = stepsPerUnit := by
  have canonical : Canonical (2 ^ 52) 1022 := ⟨by decide, .inl (Nat.le_refl _), by decide⟩
  refine ⟨2 ^ 52, 1022, canonical, ?_, by decide +kernel⟩
  rw [show (1 : Binary64) = ofCount (steps (2 ^ 52) 1022) by decide +kernel,
    ofCount_steps canonical]

theorem count?_one : (1 : Binary64).count? = some stepsPerUnit := by
  obtain ⟨m, e, canonical, one, same⟩ := exists_one
  rw [one, count?_finite, same]

theorem upTo_one : UpTo stepsPerUnit 1 := by
  obtain ⟨m, e, canonical, one, same⟩ := exists_one
  exact ⟨m, e, canonical, one, Nat.le_of_eq same⟩

theorem representable_one : Representable stepsPerUnit := by
  obtain ⟨m, e, canonical, -, same⟩ := exists_one
  exact ⟨m, e, canonical, same⟩

/-- A number is known from its sign and its steps. -/
theorem finite_eq_of_steps (negative : Bool) {canonical : Canonical m e}
    {canonical' : Canonical m' e'} (same : steps m e = steps m' e') :
    finite negative m e canonical = finite negative m' e' canonical' := by
  have nearest := ofCount_steps canonical
  rw [same, ofCount_steps canonical'] at nearest
  cases nearest
  rfl

theorem finite_eq_signedZero {negative : Bool} {canonical : Canonical m e} (none : steps m e = 0) :
    finite negative m e canonical = signedZero negative :=
  finite_eq_of_steps negative (none.trans (Nat.zero_mul 1).symm)

/-- Of two numbers that compare equal, either they are the same or they are the two zeros. -/
theorem eq_or_zeros_of_sameValue (same : x.sameValue y = true) :
    x = y ∨ ∃ negative, x = signedZero negative ∧ y = signedZero !negative := by
  obtain ⟨first, second⟩ := Bool.and_eq_true_iff.mp same
  cases x with
  | nan => cases first
  | infinite n =>
    cases y with
    | nan => cases first
    | infinite n' =>
      left
      cases n <;> cases n' <;> simp [le] at first second ⊢
    | finite =>
      change n = true at first
      change (!n) = true at second
      rw [first] at second
      cases second
  | finite n m e canonical =>
    cases y with
    | nan => cases first
    | infinite n' =>
      change (!n') = true at first
      change n' = true at second
      rw [second] at first
      cases first
    | finite n' m' e' canonical' =>
      have order : signedSteps n m e = signedSteps n' m' e' :=
        Int.le_antisymm (of_decide_eq_true first) (of_decide_eq_true second)
      by_cases signs : n = n'
      · subst signs
        left
        refine finite_eq_of_steps n ?_
        cases n with
        | false => exact Int.ofNat.inj order
        | true => exact Int.ofNat.inj (Int.neg_inj.mp order)
      · obtain rfl : n' = !n := by cases n <;> cases n' <;> simp at signs ⊢
        right
        obtain ⟨none, none'⟩ : steps m e = 0 ∧ steps m' e' = 0 := by
          cases n <;> simp only [signedSteps, Bool.not_false, Bool.not_true, if_true, if_false,
            Bool.false_eq_true] at order <;> omega
        exact ⟨n, finite_eq_signedZero none, finite_eq_signedZero none'⟩

/-! ## Products -/

/-- The product of unsigned numbers is unsigned or not a number. -/
theorem Unsigned.mul (left : x.Unsigned) (right : y.Unsigned) :
    x * y = .nan ∨ (x * y).Unsigned := by
  show x.mul y = .nan ∨ (x.mul y).Unsigned
  cases left with
  | infinite =>
    cases right with
    | infinite => exact .inr .infinite
    | finite m e canonical =>
      rw [Binary64.mul]
      split
      · exact .inl rfl
      · exact .inr .infinite
  | finite m e canonical =>
    cases right with
    | infinite =>
      rw [Binary64.mul]
      split
      · exact .inl rfl
      · exact .inr .infinite
    | finite m' e' canonical' =>
      rw [Binary64.mul, Bool.xor_false]
      exact .inr (unsigned_ofSteps ..)

/-- A product is finite only if both factors are. -/
theorem isFinite_of_mul (isFinite : (x * y).isFinite = true) :
    x.isFinite = true ∧ y.isFinite = true := by
  change (x.mul y).isFinite = true at isFinite
  cases x with
  | nan => cases isFinite
  | infinite n =>
    cases y with
    | nan => cases isFinite
    | infinite n' => cases isFinite
    | finite n' m e canonical =>
      rw [mul] at isFinite
      split at isFinite <;> cases isFinite
  | finite n m e canonical =>
    cases y with
    | nan => cases isFinite
    | infinite n' =>
      rw [mul] at isFinite
      split at isFinite <;> cases isFinite
    | finite => exact ⟨rfl, rfl⟩

/-- A sum is finite only if both terms are. -/
theorem isFinite_of_add (isFinite : (x + y).isFinite = true) :
    x.isFinite = true ∧ y.isFinite = true := by
  change (x.add y).isFinite = true at isFinite
  cases x with
  | nan => cases isFinite
  | infinite n =>
    cases y with
    | nan => cases isFinite
    | infinite n' =>
      rw [add] at isFinite
      split at isFinite <;> cases isFinite
    | finite => cases isFinite
  | finite n m e canonical =>
    cases y with
    | nan => cases isFinite
    | infinite => cases isFinite
    | finite => exact ⟨rfl, rfl⟩

/-- A product is bounded by the product of the bounds, if this is a number of the format. -/
theorem UpTo.mul (left : UpTo a x) (right : UpTo b y) (representable : Representable c)
    (le : a * b ≤ c * stepsPerUnit) : UpTo c (x * y) := by
  obtain ⟨m, e, canonical, rfl, first⟩ := left
  obtain ⟨m', e', canonical', rfl, second⟩ := right
  show UpTo c (Binary64.mul _ _)
  rw [Binary64.mul]
  exact upTo_ofSteps representable stepsPerUnit_pos
    (Nat.le_trans (Nat.mul_le_mul first second) le)

/-! ## Gains -/

theorem signedSteps_true (m e : Nat) : signedSteps true m e = -(steps m e : Int) := rfl

theorem signedSteps_add_true (le : steps m' e' ≤ steps m e) :
    signedSteps false m e + signedSteps true m' e' = (steps m e - steps m' e' : Nat) := by
  show (steps m e : Int) + -(steps m' e' : Int) = _
  omega

/-- A number that is at least `-1`: no more can be lost than was paid. -/
inductive IsGain : Binary64 → Prop
  | infinite : IsGain (.infinite false)
  | gain (m e : Nat) (canonical : Canonical m e) : IsGain (.finite false m e canonical)
  | loss (m e : Nat) (canonical : Canonical m e) (le : steps m e ≤ stepsPerUnit) :
    IsGain (.finite true m e canonical)

theorem IsGain.isNaN (gain : x.IsGain) : x.isNaN = false := by
  cases gain with
  | infinite => rfl
  | gain => rfl
  | loss => rfl

/-- A gain is never below minus one. -/
theorem IsGain.lt_neg_one (gain : x.IsGain) : x.lt (neg 1) = false := by
  obtain ⟨m, e, canonical, one, unit⟩ := exists_one
  rw [one]
  cases gain with
  | infinite => rfl
  | gain m' e' canonical' =>
    refine decide_eq_false ?_
    rw [Bool.not_false, signedSteps_true, unit]
    show ¬ (steps m' e' : Int) < _
    omega
  | loss m' e' canonical' le =>
    refine decide_eq_false ?_
    rw [Bool.not_false, signedSteps_true, signedSteps_true, unit]
    omega

theorem one_add_gain (canonical : Canonical m e) :
    1 + finite false m e canonical = ofCount (stepsPerUnit + steps m e) := by
  obtain ⟨m₁, e₁, canonical₁, one, unit⟩ := exists_one
  have exact : signedSteps false m₁ e₁ + signedSteps false m e = (steps m₁ e₁ + steps m e : Nat) :=
    rfl
  rw [one, add_eq_ofCount exact, unit]

/-- One and a loss are rounded from their exact difference. -/
theorem one_add_loss (canonical : Canonical m e) (le : steps m e ≤ stepsPerUnit) :
    1 + finite true m e canonical = ofCount (stepsPerUnit - steps m e) := by
  obtain ⟨m₁, e₁, canonical₁, one, unit⟩ := exists_one
  rw [← unit] at le
  rw [one, add_eq_ofCount (signedSteps_add_true le), unit]

/-- One more than a gain has no sign. -/
theorem IsGain.unsigned_one_add (gain : x.IsGain) : (1 + x).Unsigned := by
  cases gain with
  | infinite =>
    obtain ⟨m₁, e₁, canonical₁, one, unit⟩ := exists_one
    rw [one]
    exact .infinite
  | gain m e canonical =>
    rw [one_add_gain]
    exact unsigned_ofSteps ..
  | loss m e canonical le =>
    rw [one_add_loss canonical le]
    exact unsigned_ofSteps ..

/-- A count less one is a gain of at most `b` steps, or a loss. -/
theorem sub_one_cases (counted : x.count? = some c) (representable : Representable b)
    (le : c ≤ stepsPerUnit + b) : UpTo b (x - 1) ∨
      ∃ m e canonical, x - 1 = .finite true m e canonical ∧ steps m e ≤ stepsPerUnit := by
  obtain ⟨n, m, e, canonical, rfl, same, zero⟩ := exists_eq_of_count? counted
  obtain ⟨m₁, e₁, canonical₁, one, unit⟩ := exists_one
  have first := (signedSteps_of_count same zero).1
  have second : signedSteps true m₁ e₁ = -(stepsPerUnit : Int) := by
    rw [signedSteps_true, unit]
  have difference : finite n m e canonical - 1 =
      if (c : Int) + -(stepsPerUnit : Int) = 0 then signedZero (n && true)
      else ofSteps (decide ((c : Int) + -(stepsPerUnit : Int) < 0))
        ((c : Int) + -(stepsPerUnit : Int)).natAbs 1 := by
    rw [← first, ← second, one]
    rfl
  rw [difference]
  rcases Nat.lt_trichotomy c stepsPerUnit with less | equal | greater
  · right
    rw [if_neg (by omega), decide_eq_true (by omega), ← unit]
    exact exists_ofSteps_le true canonical₁ Nat.one_pos (by omega)
  · rw [if_pos (by omega)]
    cases n with
    | false => exact .inl ⟨0, 0, _, rfl, by rw [steps, Nat.zero_mul]; exact Nat.zero_le b⟩
    | true => exact .inr ⟨0, 0, _, rfl, by rw [steps, Nat.zero_mul]; exact Nat.zero_le _⟩
  · left
    rw [if_neg (by omega), decide_eq_false (by omega)]
    exact upTo_ofCount representable (by omega)

/-- A count less one is a finite gain. -/
theorem isGain_sub_one (counted : x.count? = some c) :
    (x - 1).IsGain ∧ (x - 1).isFinite = true := by
  obtain ⟨n, m, e, canonical, rfl, same, -⟩ := exists_eq_of_count? counted
  obtain ⟨m', e', canonical', gain, -⟩ | ⟨m', e', canonical', loss, le⟩ :=
    sub_one_cases counted ⟨m, e, canonical, same⟩ (Nat.le_add_left c _)
  · rw [gain]
    exact ⟨.gain m' e' canonical', rfl⟩
  · rw [loss]
    exact ⟨.loss m' e' canonical' le, rfl⟩

/-- Rounding twice on the way keeps a bound on one more than a count less one. -/
theorem upTo_one_add_sub_one (counted : x.count? = some c) (representable : Representable b)
    (representable' : Representable (stepsPerUnit + b)) (le : c ≤ stepsPerUnit + b) :
    UpTo (stepsPerUnit + b) (1 + (x - 1)) := by
  obtain ⟨m, e, canonical, gain, atMost⟩ | ⟨m, e, canonical, loss, atMost⟩ :=
    sub_one_cases counted representable le
  · rw [gain, one_add_gain]
    exact upTo_ofCount representable' (Nat.add_le_add_left atMost _)
  · rw [loss, one_add_loss canonical atMost]
    exact upTo_ofCount representable' (by omega)

/-! ## Quotients -/

/-- The quotient of two counts is a count, or too large for one. -/
theorem div_cases (first : x.count? = some a) (second : y.count? = some b) (positive : 0 < b) :
    (∃ c, (x / y).count? = some c) ∨ x / y = .infinite false := by
  obtain ⟨n, m, e, canonical, rfl, same, zero⟩ := exists_eq_of_count? first
  obtain ⟨n', m', e', canonical', rfl, same', zero'⟩ := exists_eq_of_count? second
  obtain rfl : n' = false := by
    cases n' with
    | false => rfl
    | true => exact absurd (zero' rfl) (Nat.ne_of_gt positive)
  have nonzero : m' ≠ 0 := by
    intro zero
    have none : steps m' e' = 0 := steps_eq_zero_iff.mpr zero
    omega
  have quotient : finite n m e canonical / finite false m' e' canonical' =
      ofSteps n (a * stepsPerUnit) b := by
    show Binary64.div _ _ = _
    rw [Binary64.div, if_neg nonzero, Bool.xor_false, same, same']
  have none (negative : n = true) : roundedSteps (a * stepsPerUnit) b = 0 := by
    rw [zero negative, Nat.zero_mul]
    have canonical₀ : Canonical 0 0 := ⟨by decide, .inr rfl, by decide⟩
    exact Nat.le_zero.mp (roundedSteps_le canonical₀ positive (Nat.zero_le _))
  rw [quotient]
  obtain ⟨m, e, canonical, rounded, count⟩ | ⟨rounded, past⟩ :=
    ofSteps_cases n (a * stepsPerUnit) positive
  · rw [rounded]
    refine .inl ⟨steps m e, if_neg ?_⟩
    rintro ⟨negative, notZero⟩
    exact notZero (steps_eq_zero_iff.mp (count.trans (none negative)))
  · rw [rounded]
    cases n with
    | false => exact .inr rfl
    | true =>
      rw [none rfl] at past
      exact absurd past (Nat.not_le.mpr
        (Nat.lt_of_le_of_lt (Nat.zero_le _) (steps_lt_stepsLimit canonical)))

/-- A quotient by a number that is not larger is at least one. -/
theorem one_le_div (counted : y.count? = some b) (positive : 0 < b) (le : y.le x = true) :
    Binary64.le 1 (x / y) = true := by
  obtain ⟨n, m, e, canonical, rfl, rfl, zero⟩ := exists_eq_of_count? counted
  obtain rfl : n = false := by
    cases n with
    | false => rfl
    | true => exact absurd (zero rfl) (Nat.ne_of_gt positive)
  have nonzero : m ≠ 0 := fun none => Nat.ne_of_gt positive (steps_eq_zero_iff.mpr none)
  obtain ⟨m₁, e₁, canonical₁, one, unit⟩ := exists_one
  have unbounded : Binary64.le 1 (.infinite false) = true := by
    rw [one]
    rfl
  cases x with
  | nan => cases le
  | infinite n =>
    obtain rfl : n = false := by simpa [Binary64.le] using le
    exact unbounded
  | finite n m' e' canonical' =>
    have order : (steps m e : Int) ≤ signedSteps n m' e' := of_decide_eq_true le
    obtain rfl : n = false := by
      cases n with
      | false => rfl
      | true =>
        rw [signedSteps_true] at order
        omega
    have large : stepsPerUnit * steps m e ≤ steps m' e' * stepsPerUnit := by
      rw [Nat.mul_comm]
      exact Nat.mul_le_mul_right _ (Int.ofNat_le.mp order)
    have quotient : finite false m' e' canonical' / finite false m e canonical =
        ofSteps false (steps m' e' * stepsPerUnit) (steps m e) := by
      show Binary64.div _ _ = _
      rw [Binary64.div, if_neg nonzero, Bool.xor_false]
    rw [quotient]
    obtain ⟨k, f, canonical'', rounded, -⟩ | ⟨rounded, -⟩ :=
      ofSteps_cases false (steps m' e' * stepsPerUnit) positive
    · rw [rounded, one, le_finite, unit]
      exact decide_eq_true (le_steps_of_ofSteps representable_one positive large rounded)
    · rw [rounded]
      exact unbounded

/-- Rounding keeps the order. -/
theorem ofSteps_le_ofSteps (positive : 0 < d) (le : a ≤ b) :
    (ofSteps false a d).le (ofSteps false b d) = true := by
  have mono := roundedSteps_mono positive le
  obtain ⟨m, e, canonical, first, count⟩ | ⟨first, past⟩ := ofSteps_cases false a positive
  · rw [first]
    obtain ⟨m', e', canonical', second, count'⟩ | ⟨second, -⟩ := ofSteps_cases false b positive
    · rw [second, le_finite, count, count']
      exact decide_eq_true mono
    · rw [second]
      rfl
  · rw [first]
    obtain ⟨m', e', canonical', -, count'⟩ | ⟨second, -⟩ := ofSteps_cases false b positive
    · rw [← count'] at mono
      exact absurd (Nat.le_trans past mono) (Nat.not_le.mpr (steps_lt_stepsLimit canonical'))
    · rw [second]
      rfl

theorem exists_count?_ofNat {n : Nat} (positive : 0 < n) (small : n < 2 ^ 64) :
    ∃ c, (ofNat n).count? = some c ∧ 0 < c := by
  have limit : Representable (2 ^ 64 * stepsPerUnit) := by
    rw [two_pow_mul_stepsPerUnit]
    exact representable_two_pow (by decide)
  have fits : n * stepsPerUnit ≤ 2 ^ 64 * stepsPerUnit * 1 := by
    rw [Nat.mul_one]
    exact Nat.mul_le_mul_right _ (Nat.le_of_lt small)
  obtain ⟨m, e, canonical, rounded, -⟩ : UpTo (2 ^ 64 * stepsPerUnit) (ofNat n) :=
    upTo_ofSteps limit Nat.one_pos fits
  have unit : stepsPerUnit * 1 ≤ n * stepsPerUnit := by
    rw [Nat.mul_one]
    exact Nat.le_mul_of_pos_left _ positive
  have least := le_steps_of_ofSteps representable_one Nat.one_pos unit rounded
  exact ⟨steps m e, by rw [rounded, count?_finite], Nat.lt_of_lt_of_le stepsPerUnit_pos least⟩

/-- A mean of at least one stays at least one when it is rounded. -/
theorem one_le_ofNat_div {n k : Nat} (positive : 0 < n) (small : n < 2 ^ 64) (le : n ≤ k) :
    Binary64.le 1 (ofNat k / ofNat n) = true := by
  obtain ⟨c, counted, least⟩ := exists_count?_ofNat positive small
  exact one_le_div counted least
    (ofSteps_le_ofSteps Nat.one_pos (Nat.mul_le_mul_right stepsPerUnit le))

/-! ## Relative differences -/

section

variable (canonical : Canonical m e) (canonical' : Canonical m' e')

/-- The difference as a fraction of the larger number, with two roundings. -/
theorem exists_relative_eq (nonzero : m ≠ 0) (le : steps m' e' ≤ steps m e) :
    ∃ k f canonical'', ofCount (steps m e - steps m' e') = .finite false k f canonical'' ∧
      steps k f ≤ steps m e ∧
      (finite false m e canonical - finite false m' e' canonical') / finite false m e canonical =
        ofSteps false (steps k f * stepsPerUnit) (steps m e) := by
  have difference : finite false m e canonical - finite false m' e' canonical' =
      ofCount (steps m e - steps m' e') := add_eq_ofCount (signedSteps_add_true le)
  obtain ⟨k, f, canonical'', rounded, atMost⟩ :=
    upTo_ofCount ⟨m, e, canonical, rfl⟩ (Nat.sub_le (steps m e) (steps m' e'))
  refine ⟨k, f, canonical'', rounded, atMost, ?_⟩
  rw [difference, rounded]
  show Binary64.div _ _ = _
  rw [Binary64.div, if_neg nonzero, Bool.xor_false]

/-- The fraction is at most one. -/
theorem upTo_relative (nonzero : m ≠ 0) (le : steps m' e' ≤ steps m e) : UpTo stepsPerUnit
    ((finite false m e canonical - finite false m' e' canonical') /
      finite false m e canonical) := by
  obtain ⟨k, f, canonical'', -, atMost, quotient⟩ :=
    exists_relative_eq canonical canonical' nonzero le
  have positive : 0 < steps m e := Nat.pos_of_ne_zero (mt steps_eq_zero_iff.mp nonzero)
  rw [quotient]
  refine upTo_ofSteps representable_one positive ?_
  rw [Nat.mul_comm]
  exact Nat.mul_le_mul_left _ atMost

/-- The fraction is zero only for equal numbers: the difference has at least half a unit in
the last place of the larger number, and the fraction does not underflow. -/
theorem relative_eq_zero_iff (nonzero : m ≠ 0) (le : steps m' e' ≤ steps m e) :
    (finite false m e canonical - finite false m' e' canonical') / finite false m e canonical = 0 ↔
      steps m' e' = steps m e := by
  obtain ⟨k, f, canonical'', rounded, atMost, quotient⟩ :=
    exists_relative_eq canonical canonical' nonzero le
  have positive : 0 < steps m e := Nat.pos_of_ne_zero (mt steps_eq_zero_iff.mp nonzero)
  rw [quotient, ← upTo_zero_iff]
  constructor
  · rintro ⟨m'', e'', canonical₃, tiny, noSteps⟩
    refine Nat.le_antisymm le (Nat.le_of_not_lt fun less => ?_)
    have exponent := canonical.exponent_le
    have half : 2 ^ (e - 1) * 1 ≤ steps m e - steps m' e' := by
      rw [Nat.mul_one]
      exact two_pow_pred_le_sub canonical canonical' less
    have kept := le_steps_of_ofSteps (representable_two_pow (by omega)) Nat.one_pos half rounded
    have large : 1 * steps m e ≤ steps k f * stepsPerUnit := by
      rw [Nat.one_mul]
      exact steps_le_mul_stepsPerUnit canonical kept
    have step : Representable 1 := representable_two_pow (j := 0) (by decide)
    have atLeast := le_steps_of_ofSteps step positive large tiny
    omega
  · intro same
    rw [same, Nat.sub_self] at rounded
    obtain ⟨k', f', canonical₃, zero, none⟩ := exists_ofCount_eq representable_zero
    rw [zero] at rounded
    cases rounded
    exact upTo_ofSteps representable_zero positive (by rw [none]; omega)

end

end MarketRules.Binary64
