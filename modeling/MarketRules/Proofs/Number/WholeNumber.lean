import MarketRules.Proofs.Number.ReadBack

/-!
# The number nearest to a whole number

Between two neighbouring powers of two a natural number rounds to a whole number, and
to one that is not above the upper power: below `2^53` the number is exact, and above it
the numbers of the format are whole.  The digits of a natural number are read as the
number nearest to it.
-/

namespace MarketRules.Binary64

/-! ## The mantissa -/

/-- A multiple is divided exactly. -/
theorem nearestEven_mul (k : Nat) {d : Nat} (positive : 0 < d) : nearestEven (k * d) d = k :=
  nearestEven_eq (by omega) (by omega) (fun _ => by omega) positive

/-- A quotient below a whole number is not rounded above it. -/
theorem nearestEven_le {a d n : Nat} (below : a < n * d) : nearestEven a d ≤ n := by
  have positive : 0 < d := by
    refine Nat.pos_of_ne_zero fun zero => ?_
    rw [zero, Nat.mul_zero] at below
    exact Nat.not_lt_zero a below
  have division := (Nat.div_lt_iff_lt_mul positive).mpr below
  unfold nearestEven
  repeat' split
  all_goals omega

/-! ## Powers of two in steps -/

theorem stepsPerUnit_eq_mul {a b : Nat} (sum : a + b = 1074) : stepsPerUnit = 2 ^ a * 2 ^ b := by
  unfold stepsPerUnit
  rw [← sum]
  exact Nat.pow_add 2 a b

theorem two_pow_mul_stepsPerUnit (a : Nat) : 2 ^ a * stepsPerUnit = 2 ^ (a + 1074) := by
  unfold stepsPerUnit
  generalize 1074 = places
  exact (Nat.pow_add 2 a places).symm

/-! ## Whole numbers -/

section

variable {n l : Nat}

theorem two_pow_mul_exponent (l : Nat) :
    2 ^ 53 * 2 ^ (l + 1022) = 2 ^ (l + 1) * stepsPerUnit := by
  rw [two_pow_mul_stepsPerUnit, ← Nat.pow_add, show 53 + (l + 1022) = l + 1 + 1074 by omega]

/-- A number of `l + 1` bits has a mantissa of 53 bits at this exponent. -/
theorem exponentFor_ofNat (lower : 2 ^ l ≤ n) (upper : n < 2 ^ (l + 1)) :
    exponentFor (n * stepsPerUnit) 1 = l + 1022 := by
  have least : 2 ^ 52 * 2 ^ (l + 1022) = 2 ^ l * stepsPerUnit := by
    rw [two_pow_mul_stepsPerUnit, ← Nat.pow_add, show 52 + (l + 1022) = l + 1074 by omega]
  refine exponentFor_eq Nat.one_pos (.inr ?_) ?_
  · rw [Nat.mul_one, least]
    exact Nat.mul_le_mul_right _ lower
  · rw [Nat.mul_one, two_pow_mul_exponent]
    exact Nat.mul_lt_mul_of_pos_right upper stepsPerUnit_pos

/-- The mantissa of a number of `l + 1` bits, counted in steps, is a whole number.  With more
bits than a mantissa it is rounded, and otherwise it is exact. -/
theorem exists_nearestEven_mul_eq (n l : Nat) :
    ∃ k, nearestEven (n * stepsPerUnit) (2 ^ (l + 1022)) * 2 ^ (l + 1022) = k * stepsPerUnit := by
  rcases Nat.lt_or_ge l 52 with short | long
  · have exact : n * stepsPerUnit = n * 2 ^ (52 - l) * 2 ^ (l + 1022) := by
      rw [Nat.mul_assoc, ← stepsPerUnit_eq_mul (by omega)]
    rw [exact, nearestEven_mul _ (Nat.two_pow_pos _), ← exact]
    exact ⟨n, rfl⟩
  · refine ⟨nearestEven (n * stepsPerUnit) (2 ^ (l + 1022)) * 2 ^ (l - 52), ?_⟩
    rw [Nat.mul_assoc _ (2 ^ (l - 52)), two_pow_mul_stepsPerUnit,
      show l - 52 + 1074 = l + 1022 by omega]

/-- A number of up to 64 bits rounds to a whole number that is not above the next power
of two. -/
theorem exists_ofNat_eq (lower : 2 ^ l ≤ n) (upper : n < 2 ^ (l + 1)) (small : l < 64) :
    ∃ m e canonical k, ofNat n = .finite false m e canonical ∧
      steps m e = k * stepsPerUnit ∧ k ≤ 2 ^ (l + 1) := by
  have exponent := exponentFor_ofNat lower upper
  obtain ⟨k, whole⟩ := exists_nearestEven_mul_eq n l
  have full := full_nearestEven (n * stepsPerUnit) 1
  rw [exponent, Nat.one_mul] at full
  have atMost : nearestEven (n * stepsPerUnit) (2 ^ (l + 1022)) ≤ 2 ^ 53 := by
    refine nearestEven_le ?_
    rw [two_pow_mul_exponent]
    exact Nat.mul_lt_mul_of_pos_right upper stepsPerUnit_pos
  rcases Nat.lt_or_eq_of_le atMost with fits | carried
  · have canonical : Canonical (nearestEven (n * stepsPerUnit) (2 ^ (l + 1022))) (l + 1022) :=
      ⟨fits, full, by omega⟩
    have rounded : ofNat n = .finite false _ _ canonical :=
      ofSteps_of_parts canonical exponent (by rw [Nat.mul_one])
    refine ⟨_, _, canonical, k, rounded, whole, ?_⟩
    have bound := Nat.mul_le_mul_right (2 ^ (l + 1022)) atMost
    rw [whole, two_pow_mul_exponent] at bound
    exact Nat.le_of_mul_le_mul_right bound stepsPerUnit_pos
  · have canonical : Canonical (2 ^ 52) (l + 1022 + 1) :=
      ⟨by decide, .inl (Nat.le_refl _), by omega⟩
    have rounded : ofNat n = .finite false _ _ canonical :=
      ofSteps_of_carry canonical exponent (by rw [Nat.mul_one, carried])
    have product : 2 ^ 52 * 2 ^ (l + 1022 + 1) = 2 ^ (l + 1) * stepsPerUnit := by
      rw [two_pow_mul_stepsPerUnit, ← Nat.pow_add,
        show 52 + (l + 1022 + 1) = l + 1 + 1074 by omega]
    exact ⟨_, _, canonical, 2 ^ (l + 1), rounded, product, Nat.le_refl _⟩

end

/-! ## Reading digits -/

/-- The digits of a number of up to 64 bits are read as the number nearest to it. -/
theorem readNumeral?_digits {n : Nat} (positive : 0 < n) (small : n < 2 ^ 64) :
    readNumeral? (digits n) = some (ofNat n) := by
  have read : readNumeral? (digits n) = some (ofDecimal false n 0) := by
    have plain := (PlainNumeral.ofNat n).readNumeral?_eq false
    rw [PlainNumeral.ofNat_chars, PlainNumeral.ofNat_units] at plain
    exact plain
  have short : (digits n).length ≤ 20 :=
    (Nat.length_toDigits_le_iff (by decide) (by decide)).mpr
      (Nat.lt_trans small (by decide))
  have notSmall : ¬ (n = 0 ∨ ((digits n).length : Int) + 0 < -400) := by omega
  have notLarge : ¬ 400 < ((digits n).length : Int) + 0 := by omega
  rw [read, ofDecimal, if_neg notSmall, if_neg notLarge, if_neg (by decide)]
  show some (ofRatio false (n * 1) 1) = _
  rw [Nat.mul_one]
  rfl

end MarketRules.Binary64
