import MarketRules.Proofs.Number.WholeText

/-!
# Products with a whole number

A numeral is read as the nearest number, and a product is rounded again.  If the numeral
stands for a number of the format, the first rounding does nothing, and the product is the
number nearest to the exact one.
-/

namespace MarketRules

open Binary64 (stepsPerUnit steps ofRatio)

/-! ## Signs -/

namespace Binary64

/-- Rounding keeps the sign. -/
theorem eq_of_ofSteps {negative negative' : Bool} {a d m e : Nat} {canonical : Canonical m e}
    (same : ofSteps negative a d = .finite negative' m e canonical) : negative' = negative := by
  unfold ofSteps at same
  split at same
  · split at same
    · exact (Binary64.finite.inj same).1.symm
    · cases same
  · split at same
    · exact (Binary64.finite.inj same).1.symm
    · cases same

theorem eq_of_ofDecimal {negative negative' : Bool} {n m e : Nat} {exponent : Int}
    {canonical : Canonical m e}
    (same : ofDecimal negative n exponent = .finite negative' m e canonical) :
    negative' = negative := by
  unfold ofDecimal at same
  dsimp only at same
  split at same
  · exact (Binary64.finite.inj same).1.symm
  · split at same
    · cases same
    · split at same
      · exact eq_of_ofSteps same
      · exact eq_of_ofSteps same

/-- The product with a whole number is the number nearest to the exact product. -/
theorem mul_ofNat {m e k : Nat} (canonical : Canonical m e) (small : k ≤ 2 ^ 53) :
    finite false m e canonical * ofNat k = ofCount (steps m e * k) := by
  obtain ⟨m', e', canonical', same, count⟩ := exists_ofCount_eq (representable_whole small)
  have factor : ofNat k = finite false m' e' canonical' := same
  have product : finite false m e canonical * finite false m' e' canonical' =
      ofSteps false (steps m e * steps m' e') stepsPerUnit := by
    show mul _ _ = _
    rw [mul, Bool.xor_false]
  have scaled : ofSteps false (steps m e * k * stepsPerUnit) (1 * stepsPerUnit) =
      ofSteps false (steps m e * k) 1 :=
    ofSteps_mul stepsPerUnit_pos
  rw [factor, product, count, ← Nat.mul_assoc, ofCount, ← scaled, Nat.one_mul]

end Binary64

/-! ## Numerals -/

namespace PlainNumeral

variable (n : PlainNumeral)

/-- The number that the numeral stands for. -/
def value : Binary64 := .ofDecimal false n.units (0 - n.fraction.length)

theorem readNumeral?_chars : readNumeral? n.chars = some n.value :=
  n.readNumeral?_eq false

/-- The format has the exact value of the numeral. -/
def IsExact : Prop :=
  ∃ m e, Canonical m e ∧ steps m e * 10 ^ n.fraction.length = n.units * stepsPerUnit

variable {n}

/-- A numeral that is exact has exactly the steps that its digits say. -/
theorem IsExact.exists_value_eq (exact : n.IsExact) :
    ∃ m e canonical, n.value = .finite false m e canonical ∧
      steps m e * 10 ^ n.fraction.length = n.units * stepsPerUnit := by
  obtain ⟨m, e, canonical, same⟩ := exact
  refine ⟨m, e, canonical, ?_, same⟩
  rcases Nat.eq_zero_or_pos m with rfl | positive
  · obtain rfl : e = 0 := canonical.full_or_least.resolve_left (by decide)
    have none : n.units = 0 := by
      have zero : 0 = n.units * stepsPerUnit := by
        rw [← same, steps, Nat.zero_mul]
      exact (Nat.mul_eq_zero.mp zero.symm).resolve_right (Nat.ne_of_gt Binary64.stepsPerUnit_pos)
    rw [value, none, Binary64.ofDecimal]
    exact if_pos (.inl rfl)
  · refine Binary64.ofDecimal_of_contains canonical positive ?_
    rw [← same, steps, Nat.mul_assoc, ← Nat.mul_assoc]
    exact Binary64.interval_contains_middle m e
      (Nat.mul_pos (Nat.two_pow_pos e) (Nat.pow_pos (by decide)))

section

variable {k : Nat}

/-- A finite product of a numeral has no sign.  A finite product has a finite numeral as its
factor, since an infinity gives an infinity or none. -/
theorem exists_mul_eq (small : k ≤ 2 ^ 53) (finite : (n.value * Binary64.ofNat k).isFinite = true) :
    ∃ m e canonical, n.value * Binary64.ofNat k = .finite false m e canonical := by
  have numeral : n.value = .ofDecimal false n.units (0 - n.fraction.length) := rfl
  cases value : n.value with
  | nan =>
    rw [value] at finite
    cases finite
  | infinite negative =>
    obtain ⟨m, e, canonical, factor, -⟩ :=
      Binary64.exists_ofCount_eq (Binary64.representable_whole small)
    have whole : Binary64.ofNat k = .finite false m e canonical := factor
    rw [value, whole] at finite
    change Binary64.isFinite
      (if m = 0 then .nan else .infinite (negative ^^ false)) = true at finite
    split at finite <;> cases finite
  | finite negative m e canonical =>
    rw [value] at finite numeral
    obtain rfl := Binary64.eq_of_ofDecimal numeral.symm
    rw [Binary64.mul_ofNat canonical small] at finite ⊢
    cases product : Binary64.ofCount (steps m e * k) with
    | nan =>
      rw [product] at finite
      cases finite
    | infinite =>
      rw [product] at finite
      cases finite
    | finite negative m' e' canonical' =>
      obtain rfl := Binary64.eq_of_ofSteps product
      exact ⟨m', e', canonical', rfl⟩

/-- An exact numeral is multiplied with one rounding. -/
theorem IsExact.mul_eq (exact : n.IsExact) (small : k ≤ 2 ^ 53) :
    n.value * .ofNat k = ofRatio false (n.units * k) (10 ^ n.fraction.length) := by
  obtain ⟨m, e, canonical, same, value⟩ := exact.exists_value_eq
  have product : n.units * k * stepsPerUnit = steps m e * k * 10 ^ n.fraction.length := by
    rw [Nat.mul_right_comm, ← value, Nat.mul_right_comm]
  have scaled : Binary64.ofSteps false (steps m e * k * 10 ^ n.fraction.length)
      (1 * 10 ^ n.fraction.length) = Binary64.ofSteps false (steps m e * k) 1 :=
    Binary64.ofSteps_mul (Nat.pow_pos (by decide))
  rw [Nat.one_mul] at scaled
  rw [same, Binary64.mul_ofNat canonical small, ofRatio, product, scaled, Binary64.ofCount]

/-- If the exact product is a whole number below `2^53`, it is written as its digits. -/
theorem IsExact.plainChars_mul (exact : n.IsExact) (small : k ≤ 2 ^ 53) {j : Nat}
    (whole : j * 10 ^ n.fraction.length = n.units * k) (below : j < 2 ^ 53) :
    (n.value * .ofNat k).plainChars = digits j := by
  obtain ⟨m, e, canonical, same, value⟩ := exact.exists_value_eq
  have count : steps m e * k = j * stepsPerUnit := by
    have positive : 0 < 10 ^ n.fraction.length := Nat.pow_pos (by decide)
    refine Nat.eq_of_mul_eq_mul_right positive ?_
    rw [Nat.mul_right_comm, value, Nat.mul_right_comm j, whole, Nat.mul_right_comm]
  obtain ⟨m', e', canonical', product, count'⟩ :=
    Binary64.exists_ofCount_eq (Binary64.representable_whole (Nat.le_of_lt below))
  rw [same, Binary64.mul_ofNat canonical small, count, product]
  exact Binary64.plainChars_of_whole below count'

end

end PlainNumeral

end MarketRules
