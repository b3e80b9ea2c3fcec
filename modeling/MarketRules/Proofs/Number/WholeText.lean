import MarketRules.Proofs.Number.ExactSums

/-!
# The text of a whole number

A whole number below `2^53` is written as its digits.  The grids without a fraction are
searched before the others, the last of them has the number itself, and no other whole
number lies in its interval.
-/

namespace MarketRules

/-! ## Zeros at the end -/

/-- A power of ten appends zeros. -/
theorem digits_mul_pow {n : Nat} (positive : 0 < n) (zeros : Nat) :
    digits (n * 10 ^ zeros) = digits n ++ List.replicate zeros '0' := by
  induction zeros with
  | zero => rw [Nat.pow_zero, Nat.mul_one, List.replicate_zero, List.append_nil]
  | succ zeros ih =>
    have product : n * 10 ^ (zeros + 1) = 10 * (n * 10 ^ zeros) + 0 := by
      rw [Nat.pow_succ, ← Nat.mul_assoc, Nat.mul_comm, Nat.add_zero]
    have last : digits (n * 10 ^ zeros) ++ digits 0 = digits (10 * (n * 10 ^ zeros) + 0) :=
      Nat.toDigits_append_toDigits (by decide) (Nat.mul_pos positive (Nat.pow_pos (by decide)))
        (by decide)
    rw [product, ← last, ih, List.append_assoc, List.replicate_succ']
    rfl

/-- A whole number of units without a fraction is written in digits. -/
theorem positional_ofUnits {n : Nat} (positive : 0 < n) (exponent : Nat) :
    (Decimal.ofUnits n exponent).positional = digits (n * 10 ^ exponent) := by
  obtain ⟨zeros, shape⟩ := exists_digits_eq_append n
  have nonempty : 0 < (digits n).length := Nat.length_toDigits_pos
  rw [digits_mul_pow positive, Decimal.ofUnits]
  generalize ((digits n).reverse.dropWhile (· == '0')).reverse = ds at shape
  have length := congrArg List.length shape
  rw [List.length_append, List.length_replicate] at length
  have before : ¬ ((digits n).length : Int) + exponent ≤ 0 := by omega
  have within : ds.length ≤ (((digits n).length : Int) + exponent).natAbs := by omega
  have others : (((digits n).length : Int) + exponent).natAbs - ds.length = zeros + exponent := by
    omega
  rw [Decimal.positional]
  dsimp only
  rw [if_neg before, if_pos within, others, ← List.replicate_append_replicate, ← List.append_assoc,
    ← shape]

namespace Binary64

section

variable {m e n : Nat}

/-! ## Decimals without a fraction -/

/-- The last place of a whole number below `2^53` is at most one. -/
theorem two_pow_le_stepsPerUnit (canonical : Canonical m e) (small : n < 2 ^ 53)
    (whole : steps m e = n * stepsPerUnit) : 2 ^ e ≤ stepsPerUnit := by
  refine Nat.le_of_not_lt fun large => ?_
  have double : 2 * stepsPerUnit ≤ 2 ^ e := by
    unfold stepsPerUnit at large ⊢
    generalize 1074 = places at large ⊢
    have above : places < e := (Nat.pow_lt_pow_iff_right (by decide)).mp large
    have power : 2 ^ (places + 1) ≤ 2 ^ e := Nat.pow_le_pow_right (by decide) above
    rw [Nat.pow_succ, Nat.mul_comm] at power
    exact power
  have full : 2 ^ 52 ≤ m := by
    refine canonical.full_or_least.resolve_right ?_
    rintro rfl
    exact absurd stepsPerUnit_pos (Nat.not_lt.mpr (Nat.lt_succ_iff.mp large))
  have least : 2 ^ 52 * (2 * stepsPerUnit) ≤ n * stepsPerUnit := by
    rw [← whole]
    exact Nat.mul_le_mul full double
  have less := Nat.mul_lt_mul_of_pos_right small stepsPerUnit_pos
  omega

/-- A decimal without a fraction that rounds to the number is the number.  Counted in fourths
of a step, the interval reaches less than a half to either side. -/
theorem eq_of_covers (canonical : Canonical m e) (positive : 0 < m) (small : n < 2 ^ 53)
    (whole : steps m e = n * stepsPerUnit) {units exponent : Nat}
    (covers : Covers m e units exponent) : units * 10 ^ exponent = n := by
  have place := two_pow_le_stepsPerUnit canonical small whole
  have exact : m * 2 ^ e = n * stepsPerUnit := whole
  have noPlaces : (-(exponent : Int)).toNat = 0 := by omega
  rw [Covers, noPlaces, Int.toNat_natCast, Nat.pow_zero, Nat.mul_one] at covers
  obtain ⟨lower, upper, -⟩ := Interval.contains_iff.mp covers
  have low : 4 * m ≤ (interval m e).low + 2 := by
    unfold interval
    dsimp only
    split <;> omega
  generalize units * 10 ^ exponent = k at lower upper
  have notBelow : 4 * n * stepsPerUnit ≤ (4 * k + 2) * stepsPerUnit := by
    have bound := Nat.mul_le_mul_right (2 ^ e) low
    rw [Nat.mul_assoc, exact, Nat.add_mul] at bound
    rw [Nat.add_mul, Nat.mul_assoc, Nat.mul_assoc]
    omega
  have notAbove : 4 * k * stepsPerUnit ≤ (4 * n + 2) * stepsPerUnit := by
    have high : (interval m e).high * 2 ^ e = 4 * (n * stepsPerUnit) + 2 * 2 ^ e := by
      rw [← exact, ← Nat.mul_assoc, ← Nat.add_mul]
      rfl
    rw [high] at upper
    rw [Nat.add_mul, Nat.mul_assoc, Nat.mul_assoc]
    omega
  have atLeast := Nat.le_of_mul_le_mul_right notBelow stepsPerUnit_pos
  have atMost := Nat.le_of_mul_le_mul_right notAbove stepsPerUnit_pos
  omega

/-! ## The search -/

/-- The grid of units has the number. -/
theorem isSome_onGrid? (tie : Tie) (whole : steps m e = n * stepsPerUnit) :
    (onGrid? tie m e 0).isSome = true := by
  have middle : 4 * m * 2 ^ e = n * (4 * stepsPerUnit) := by
    have exact : m * 2 ^ e = n * stepsPerUnit := whole
    rw [Nat.mul_assoc, exact, Nat.mul_left_comm]
  have below : 4 * m * 2 ^ e / (4 * stepsPerUnit) = n := by
    rw [middle]
    exact Nat.mul_div_cancel n (Nat.mul_pos (by decide) stepsPerUnit_pos)
  have contained : (interval m e).contains (2 ^ e) (n * (4 * stepsPerUnit)) = true := by
    rw [← middle]
    exact interval_contains_middle m e (Nat.two_pow_pos e)
  have scale : Nat.pow 10 (0 : Int).natAbs = 1 := rfl
  have quotient : (interval m e).middle * Nat.pow 2 e / (4 * stepsPerUnit) = n := below
  have hit : (interval m e).contains (Nat.pow 2 e) (n * (4 * stepsPerUnit)) = true := contained
  rw [onGrid?]
  simp only [Int.lt_irrefl, if_false]
  rw [scale, Nat.mul_one, quotient, hit]
  cases (interval m e).contains (Nat.pow 2 e) ((n + 1) * (4 * stepsPerUnit)) <;> rfl

/-- If something is found at a place, then something is found there or before it. -/
theorem exists_findSome?_range {α : Type} {f : Nat → Option α} {k count : Nat} (within : k < count)
    (hit : (f k).isSome = true) :
    ∃ j ≤ k, ∃ found, f j = some found ∧ (List.range count).findSome? f = some found := by
  have shape : List.range count =
      List.range (k + 1) ++ (List.range (count - (k + 1))).map (k + 1 + ·) := by
    rw [← List.range_add, Nat.add_sub_cancel' within]
  have hits : ((List.range (k + 1)).findSome? f).isSome = true :=
    List.findSome?_isSome_iff.mpr ⟨k, List.mem_range.mpr (Nat.lt_succ_self k), hit⟩
  obtain ⟨found, first⟩ := Option.isSome_iff_exists.mp hits
  obtain ⟨j, listed, here⟩ := List.exists_of_findSome?_eq_some first
  refine ⟨j, Nat.lt_succ_iff.mp (List.mem_range.mp listed), found, here, ?_⟩
  rw [shape, List.findSome?_append, first]
  rfl

/-- The shortest decimal of a whole number has no fraction. -/
theorem exists_shortest_whole (tie : Tie) (canonical : Canonical m e) (positive : 0 < n)
    (small : n < 2 ^ 53) (whole : steps m e = n * stepsPerUnit) :
    ∃ units exponent : Nat, shortest tie m e = .ofUnits units exponent ∧
      units * 10 ^ exponent = n := by
  have short : (digits n).length ≤ 16 :=
    (Nat.length_toDigits_le_iff (by decide) (by decide)).mpr (Nat.lt_trans small (by decide))
  have nonempty : 0 < (digits n).length := Nat.length_toDigits_pos
  have mantissaPos : 0 < m := by
    refine Nat.pos_of_ne_zero fun zero => ?_
    have none := whole.symm.trans (steps_eq_zero_iff.mpr zero)
    exact Nat.ne_of_gt (Nat.mul_pos positive stepsPerUnit_pos) none
  have point : pointOf (steps m e) stepsPerUnit = (digits n).length := by
    rw [pointOf, whole, Nat.mul_div_cancel n stepsPerUnit_pos,
      if_pos (Nat.le_mul_of_pos_left _ positive)]
  let grid (k : Nat) : Int := (digits n).length - (k + 1 : Nat)
  have hit : ((onGrid? tie m e (grid ((digits n).length - 1))).map
      (Decimal.ofUnits · (grid ((digits n).length - 1)))).isSome = true := by
    have units : grid ((digits n).length - 1) = 0 := by
      show ((digits n).length : Int) - ((digits n).length - 1 + 1 : Nat) = 0
      omega
    rw [units, Option.isSome_map]
    exact isSome_onGrid? tie whole
  have within : (digits n).length - 1 < 17 := by omega
  obtain ⟨j, early, found, here, searched⟩ := exists_findSome?_range within
    (f := fun k => (onGrid? tie m e (grid k)).map (Decimal.ofUnits · (grid k))) hit
  obtain ⟨units, onGrid, rfl⟩ := Option.map_eq_some_iff.mp here
  have noFraction : grid j = ((digits n).length - (j + 1) : Nat) := by
    show ((digits n).length : Int) - (j + 1 : Nat) = ((digits n).length - (j + 1) : Nat)
    omega
  have covers := covers_of_onGrid? onGrid
  rw [noFraction] at covers
  refine ⟨units, (digits n).length - (j + 1), ?_,
    eq_of_covers canonical mantissaPos small whole covers⟩
  rw [shortest, point]
  dsimp only
  rw [searched, Option.getD_some, noFraction]

/-- A whole number below `2^53` is written as its digits. -/
theorem plainChars_of_whole {canonical : Canonical m e} (small : n < 2 ^ 53)
    (whole : steps m e = n * stepsPerUnit) :
    (finite false m e canonical).plainChars = digits n := by
  rcases Nat.eq_zero_or_pos n with rfl | positive
  · have none : m = 0 := steps_eq_zero_iff.mp (whole.trans (Nat.zero_mul _))
    subst none
    rfl
  · obtain ⟨units, exponent, written, value⟩ := exists_shortest_whole .larger canonical positive
      small whole
    have mantissa : m ≠ 0 := by
      intro zero
      have none := whole.symm.trans (steps_eq_zero_iff.mpr zero)
      exact Nat.ne_of_gt (Nat.mul_pos positive stepsPerUnit_pos) none
    have unitsPos : 0 < units := by
      refine Nat.pos_of_ne_zero fun zero => ?_
      rw [zero, Nat.zero_mul] at value
      exact Nat.ne_of_gt positive value.symm
    rw [plainChars, if_neg mantissa, written, positional_ofUnits unitsPos, value]
    rfl

end

end Binary64

end MarketRules
