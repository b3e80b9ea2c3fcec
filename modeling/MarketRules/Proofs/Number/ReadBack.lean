import MarketRules.Proofs.Number.PlainNumeral
import MarketRules.Proofs.Number.Rounding

/-!
# Plain text reads back as the number

What is written for a finite number is a decimal in the interval of the number,
and every such decimal rounds to the number.  So the text reads back as exactly
the number that was written, with its sign.
-/

namespace MarketRules.Binary64

/-! ## Decimals in the interval -/

/-- The decimal `n * 10^exponent` lies in the interval of `m * 2^e` steps. -/
def Covers (m e n : Nat) (exponent : Int) : Prop :=
  (interval m e).contains (2 ^ e * 10 ^ (-exponent).toNat)
    (4 * (n * 10 ^ exponent.toNat * stepsPerUnit)) = true

/-- The nearer candidate is one of two neighbours. -/
theorem nearer_eq (tie : Tie) (below rest den : Nat) :
    nearer tie below rest den = below ∨ nearer tie below rest den = below + 1 := by
  unfold nearer
  repeat' split
  all_goals omega

/-- What is found on a grid lies in the interval. -/
theorem covers_of_onGrid? {tie : Tie} {m e n : Nat} {exponent : Int}
    (found : onGrid? tie m e exponent = some n) : Covers m e n exponent := by
  unfold onGrid? at found
  dsimp only at found
  have unit : (if exponent < 0 then Nat.pow 2 e * Nat.pow 10 exponent.natAbs else Nat.pow 2 e) =
      2 ^ e * 10 ^ (-exponent).toNat := by
    split
    · rw [show exponent.natAbs = (-exponent).toNat by omega]
      rfl
    · rw [show (-exponent).toNat = 0 by omega, Nat.pow_zero, Nat.mul_one]
      rfl
  have den : (if exponent < 0 then 4 * stepsPerUnit
      else 4 * stepsPerUnit * Nat.pow 10 exponent.natAbs) =
      4 * (10 ^ exponent.toNat * stepsPerUnit) := by
    split
    · rw [show exponent.toNat = 0 by omega, Nat.pow_zero, Nat.one_mul]
    · rw [show exponent.natAbs = exponent.toNat by omega, Nat.mul_assoc,
        Nat.mul_comm stepsPerUnit]
      rfl
  have covers (k : Nat) (contained : (interval m e).contains (2 ^ e * 10 ^ (-exponent).toNat)
      (k * (4 * (10 ^ exponent.toNat * stepsPerUnit))) = true) : Covers m e k exponent := by
    rw [Nat.mul_left_comm, ← Nat.mul_assoc k] at contained
    exact contained
  rw [unit, den] at found
  split at found
  · next below above =>
    obtain rfl := Option.some.inj found
    rcases nearer_eq tie _ _ _ with taken | taken
    · rw [taken]
      exact covers _ below
    · rw [taken]
      exact covers _ above
  · next below _ =>
    obtain rfl := Option.some.inj found
    exact covers _ below
  · next _ above =>
    obtain rfl := Option.some.inj found
    exact covers _ above
  · cases found

/-- The exact value lies in the interval. -/
theorem covers_exactly (m e : Nat) : Covers m e (steps m e * Nat.pow 5 1074) (-1074) := by
  have up : (-1074 : Int).toNat = 0 := rfl
  have down : (-(-1074) : Int).toNat = 1074 := rfl
  rw [Covers, up, down, Nat.pow_zero, Nat.mul_one, steps]
  unfold stepsPerUnit
  generalize 1074 = places
  have point : 4 * (m * Nat.pow 2 e * Nat.pow 5 places * Nat.pow 2 places) =
      4 * m * (2 ^ e * 10 ^ places) := by
    have power : 5 ^ places * 2 ^ places = 10 ^ places := (Nat.mul_pow 5 2 places).symm
    rw [Nat.mul_assoc (m * _), Nat.mul_assoc m, ← Nat.mul_assoc 4]
    exact congrArg (fun x => 4 * m * (2 ^ e * x)) power
  have unitPos : 0 < 2 ^ e * 10 ^ places :=
    Nat.mul_pos (Nat.two_pow_pos e) (Nat.pow_pos (by decide))
  rw [point]
  exact interval_contains_middle m e unitPos

/-- The shortest decimal lies in the interval. -/
theorem exists_shortest_eq (tie : Tie) (m e : Nat) :
    ∃ n exponent, shortest tie m e = .ofUnits n exponent ∧ Covers m e n exponent := by
  unfold shortest
  dsimp only
  generalize search : List.findSome? _ _ = found
  cases found with
  | none => exact ⟨_, _, rfl, covers_exactly m e⟩
  | some d =>
    obtain ⟨k, -, onGrid⟩ := List.exists_of_findSome?_eq_some search
    obtain ⟨n, found, rfl⟩ := Option.map_eq_some_iff.mp onGrid
    exact ⟨n, _, rfl, covers_of_onGrid? found⟩

/-! ## Reading -/

theorem lt_pow_length_digits (n : Nat) : n < 10 ^ (digits n).length :=
  (Nat.length_toDigits_le_iff (by decide) Nat.length_toDigits_pos).mp (Nat.le_refl _)

theorem pow_le_of_lt_length_digits {n k : Nat} (positive : 0 < k) (long : k < (digits n).length) :
    10 ^ k ≤ n :=
  Nat.le_of_not_lt fun less =>
    Nat.not_le.mpr long ((Nat.length_toDigits_le_iff (by decide) positive).mpr less)

/-- A product that is large enough makes a number of many digits. -/
theorem lt_length_digits_add {n c k places : Nat} (least : 10 ^ places ≤ n * c)
    (most : c ≤ 10 ^ k) : places < (digits n).length + k := by
  refine Nat.lt_of_not_le fun long => ?_
  have bound : 10 ^ (digits n).length * 10 ^ k ≤ n * 10 ^ k := by
    rw [← Nat.pow_add]
    exact Nat.le_trans (Nat.pow_le_pow_right (by decide) long)
      (Nat.le_trans least (Nat.mul_le_mul_left n most))
  exact Nat.not_lt.mpr (Nat.le_of_mul_le_mul_right bound (Nat.pow_pos (by decide)))
    (lt_pow_length_digits n)

/-- A product that is small enough makes a number of few digits. -/
theorem length_digits_le_add {n c k top places : Nat} (positive : 0 < k)
    (most : n * c ≤ top * 10 ^ places) (less : top < 10 ^ k * c) :
    (digits n).length ≤ k + places := by
  refine Nat.le_of_not_lt fun long => ?_
  have many : 10 ^ k * 10 ^ places ≤ n := by
    rw [← Nat.pow_add]
    exact pow_le_of_lt_length_digits (Nat.add_pos_left positive places) long
  have bound := Nat.le_trans (Nat.mul_le_mul_right c many) most
  rw [Nat.mul_right_comm] at bound
  exact Nat.not_le.mpr less (Nat.le_of_mul_le_mul_right bound (Nat.pow_pos (by decide)))

/-- Half a step is more than `10^-400`. -/
theorem two_mul_stepsPerUnit_le : 2 * stepsPerUnit ≤ 10 ^ 400 := by decide +kernel

/-- All numbers are less than `10^400`. -/
theorem largest_lt : 2 ^ 53 * 2 ^ 2045 < 10 ^ 400 * stepsPerUnit := by decide +kernel

/-- A decimal in the interval is at least half a step. -/
theorem pow_le_of_contains {m e units places : Nat} (mantissaPos : 0 < m)
    (contained :
      (interval m e).contains (2 ^ e * 10 ^ places) (4 * (units * stepsPerUnit)) = true) :
    10 ^ places ≤ units * (2 * stepsPerUnit) := by
  obtain ⟨lower, -, -⟩ := Interval.contains_iff.mp contained
  have unit := Nat.le_mul_of_pos_left (10 ^ places) (Nat.two_pow_pos e)
  have half := Nat.mul_le_mul_right (2 ^ e * 10 ^ places) (@interval_low_pos m e mantissaPos)
  rw [Nat.mul_left_comm]
  omega

/-- A decimal in the interval is not larger than all numbers. -/
theorem le_pow_of_contains {m e top units places : Nat} (mantissaLt : m < 2 ^ 53)
    (exponentLe : e ≤ top)
    (contained :
      (interval m e).contains (2 ^ e * 10 ^ places) (4 * (units * stepsPerUnit)) = true) :
    units * stepsPerUnit ≤ 2 ^ 53 * 2 ^ top * 10 ^ places := by
  obtain ⟨-, upper, -⟩ := Interval.contains_iff.mp contained
  have high : (interval m e).high ≤ 4 * 2 ^ 53 := by
    show 4 * m + 2 ≤ 4 * 2 ^ 53
    omega
  have power := Nat.mul_le_mul_right (10 ^ places)
    (Nat.pow_le_pow_right (n := 2) (by decide) exponentLe)
  have bound := Nat.le_trans upper (Nat.mul_le_mul high power)
  rw [Nat.mul_assoc 4] at bound
  rw [Nat.mul_assoc]
  exact Nat.le_of_mul_le_mul_left bound (by decide)

/-- A decimal in the interval is neither too large nor too small to be looked at. -/
theorem ofDecimal_of_contains {negative : Bool} {m e units places : Nat}
    (canonical : Canonical m e) (mantissaPos : 0 < m)
    (contained :
      (interval m e).contains (2 ^ e * 10 ^ places) (4 * (units * stepsPerUnit)) = true) :
    ofDecimal negative units (0 - places) = .finite negative m e canonical := by
  have rounded : ofSteps negative (units * stepsPerUnit) (10 ^ places) =
      .finite negative m e canonical :=
    ofSteps_of_contains canonical mantissaPos (Nat.pow_pos (by decide)) contained
  have least := pow_le_of_contains mantissaPos contained
  have unitsPos : units ≠ 0 := by
    rintro rfl
    rw [Nat.zero_mul] at least
    exact Nat.not_lt.mpr least (Nat.pow_pos (by decide))
  have notSmall : ¬ ((digits units).length : Int) + (0 - places) < -400 := by
    intro small
    have bound := lt_length_digits_add least two_mul_stepsPerUnit_le
    omega
  have notLarge : ¬ 400 < ((digits units).length : Int) + (0 - places) := by
    intro large
    have bound := length_digits_le_add (k := 400) (by decide)
      (le_pow_of_contains canonical.mantissa_lt canonical.exponent_le contained) largest_lt
    omega
  rw [ofDecimal, if_neg (by simp only [unitsPos, notSmall, or_self, not_false_eq_true]),
    if_neg notLarge]
  split
  · rw [show (0 - (places : Int)).natAbs = places by omega]
    exact rounded
  · obtain rfl : places = 0 := by omega
    show ofSteps negative (units * 1 * stepsPerUnit) 1 = _
    rw [Nat.mul_one]
    exact rounded

/-- The interval does not depend on how the decimal is written. -/
theorem Covers.contains {m e n units places : Nat} {exponent : Int} (covers : Covers m e n exponent)
    (value : n * 10 ^ exponent.toNat * 10 ^ places = units * 10 ^ (-exponent).toNat) :
    (interval m e).contains (2 ^ e * 10 ^ places) (4 * (units * stepsPerUnit)) = true := by
  rw [Covers, ← Interval.contains_mul (c := 10 ^ places) (Nat.pow_pos (by decide))] at covers
  rw [← Interval.contains_mul (c := 10 ^ (-exponent).toNat) (Nat.pow_pos (by decide))]
  have unit : 2 ^ e * 10 ^ places * 10 ^ (-exponent).toNat =
      2 ^ e * 10 ^ (-exponent).toNat * 10 ^ places := Nat.mul_right_comm _ _ _
  have point : 4 * (units * stepsPerUnit) * 10 ^ (-exponent).toNat =
      4 * (n * 10 ^ exponent.toNat * stepsPerUnit) * 10 ^ places := by
    rw [Nat.mul_assoc 4, Nat.mul_assoc 4, Nat.mul_right_comm units, ← value,
      Nat.mul_right_comm _ stepsPerUnit]
  rw [unit, point]
  exact covers

/-- A finite number is written as a plain numeral behind its sign, and reads back as
itself. -/
theorem exists_plainChars_finite (negative : Bool) {m e : Nat} (canonical : Canonical m e) :
    ∃ p : PlainNumeral, (finite negative m e canonical).plainChars = sign negative ++ p.chars ∧
      readNumeral? (sign negative ++ p.chars) = some (finite negative m e canonical) := by
  rcases Nat.eq_zero_or_pos m with rfl | mantissaPos
  · obtain rfl : e = 0 := canonical.full_or_least.resolve_left (by decide)
    refine ⟨.ofNat 0, rfl, ?_⟩
    rw [PlainNumeral.readNumeral?_eq, PlainNumeral.ofNat_units]
    rfl
  · obtain ⟨n, exponent, written, covers⟩ := exists_shortest_eq .larger m e
    have positive : 0 < n := by
      refine Nat.pos_of_ne_zero fun zero => ?_
      have half : 10 ^ 0 ≤ 0 * (2 * stepsPerUnit) := pow_le_of_contains (e := e) mantissaPos
        (covers.contains (by rw [zero, Nat.zero_mul, Nat.zero_mul, Nat.zero_mul]))
      rw [Nat.zero_mul] at half
      exact Nat.not_lt.mpr half (Nat.pow_pos (by decide))
    obtain ⟨p, chars, value⟩ := PlainNumeral.exists_chars_eq_positional positive exponent
    refine ⟨p, ?_, ?_⟩
    · rw [plainChars, if_neg (Nat.pos_iff_ne_zero.mp mantissaPos), written, chars]
    · rw [p.readNumeral?_eq, ofDecimal_of_contains canonical mantissaPos (covers.contains value)]

/-- A finite number is written as a sign and a plain numeral, which are read back. -/
theorem exists_plainChars_eq {x : Binary64} (finite : x.isFinite = true) :
    ∃ (negative : Bool) (p : PlainNumeral), x.plainChars = sign negative ++ p.chars ∧
      readNumeral? (sign negative ++ p.chars) = some x := by
  cases x with
  | nan => cases finite
  | infinite negative => cases finite
  | finite negative m e canonical => exact ⟨negative, exists_plainChars_finite negative canonical⟩

/-- A finite number reads back from how it is written. -/
theorem readNumeral_plainChars {x : Binary64} (finite : x.isFinite = true) :
    readNumeral x.plainChars = .ok x := by
  obtain ⟨negative, p, written, read⟩ := exists_plainChars_eq finite
  rw [← written, readNumeral?] at read
  cases result : readNumeral x.plainChars with
  | error e =>
    rw [result] at read
    cases read
  | ok y =>
    rw [result] at read
    exact congrArg Except.ok (Option.some.inj read)

/-! ## Whole numbers -/

theorem stepsPerUnit_pos : 0 < stepsPerUnit := by decide +kernel

/-- A positive whole number that is one of the format reads back from its digits. -/
theorem readNumeral?_digits_of_whole? {x : Binary64} {n : Nat} (positive : 0 < n)
    (whole : x.whole? = some (n : Int)) : readNumeral? (digits n) = some x := by
  cases x with
  | nan => cases whole
  | infinite negative => cases whole
  | finite negative m e canonical =>
    rw [whole?] at whole
    split at whole
    · next divides =>
      have value := Option.some.inj whole
      obtain rfl : negative = false := by
        cases negative with
        | false => rfl
        | true =>
          rw [if_pos rfl] at value
          generalize steps m e / stepsPerUnit = quotient at value
          omega
      rw [if_neg Bool.false_ne_true] at value
      have exact : n * stepsPerUnit = m * 2 ^ e := by
        rw [← Int.ofNat.inj value]
        exact Nat.div_mul_cancel (Nat.dvd_of_mod_eq_zero divides)
      have mantissaPos : 0 < m := by
        refine Nat.pos_of_ne_zero fun zero => ?_
        rw [zero, Nat.zero_mul] at exact
        exact Nat.pos_iff_ne_zero.mp (Nat.mul_pos positive stepsPerUnit_pos) exact
      have contained :
          (interval m e).contains (2 ^ e * 10 ^ 0) (4 * (n * stepsPerUnit)) = true := by
        rw [exact, ← Nat.mul_assoc, Nat.pow_zero, Nat.mul_one]
        exact interval_contains_middle m e (Nat.two_pow_pos e)
      have read := (PlainNumeral.ofNat n).readNumeral?_eq false
      rw [PlainNumeral.ofNat_chars, PlainNumeral.ofNat_units] at read
      exact read.trans (congrArg some (ofDecimal_of_contains canonical mantissaPos contained))
    · cases whole

end MarketRules.Binary64
