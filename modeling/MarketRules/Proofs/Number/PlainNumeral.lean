import Mathlib.Algebra.Group.Nat.Defs
import MarketRules.Number.Numeral
import MarketRules.Number.Shortest

/-!
# Numerals without an exponent

A plain numeral is digits, and a point with more digits behind it if there is a
fraction.  This is how `Decimal.positional` writes.  It reads back as the
decimal that was written.
-/

namespace MarketRules

/-! ## Plain numerals -/

/-- Digits before the point, at least one, and digits behind it. -/
structure PlainNumeral where
  /-- The digits before the point. -/
  whole : List Char
  /-- The digits behind the point. -/
  fraction : List Char
  /-- There is a digit before the point. -/
  whole_ne_nil : whole ≠ []
  /-- Only digits stand before the point. -/
  isDigit_whole : ∀ c ∈ whole, c.isDigit = true
  /-- Only digits stand behind the point. -/
  isDigit_fraction : ∀ c ∈ fraction, c.isDigit = true

namespace PlainNumeral

/-- The point and the digits behind it, if there are any. -/
def pointed (p : PlainNumeral) : List Char := if p.fraction = [] then [] else '.' :: p.fraction

/-- The characters of a plain numeral. -/
def chars (p : PlainNumeral) : List Char := p.whole ++ p.pointed

/-- The digits as one number, which counts the last places. -/
def units (p : PlainNumeral) : Nat := ofDigits (p.whole ++ p.fraction)

/-- The digits of a natural number. -/
def ofNat (n : Nat) : PlainNumeral where
  whole := digits n
  fraction := []
  whole_ne_nil := Nat.toDigits_ne_nil
  isDigit_whole _ := isDigit_of_mem_digits
  isDigit_fraction _ member := absurd member List.not_mem_nil

theorem ofNat_chars (n : Nat) : (ofNat n).chars = digits n := List.append_nil _

theorem ofNat_units (n : Nat) : (ofNat n).units = n :=
  (congrArg ofDigits (List.append_nil _)).trans (ofDigits_digits n)

/-- A numeral begins with a digit. -/
theorem exists_chars_eq_cons (p : PlainNumeral) :
    ∃ c cs, p.chars = c :: cs ∧ c.isDigit = true := by
  obtain ⟨c, cs, begins⟩ := List.exists_cons_of_ne_nil p.whole_ne_nil
  refine ⟨c, cs ++ p.pointed, ?_, p.isDigit_whole c ?_⟩
  · rw [chars, begins, List.cons_append]
  · rw [begins]
    exact List.mem_cons_self

/-- A plain numeral consists of digits and points. -/
theorem numeric_chars (p : PlainNumeral) :
    ∀ c ∈ p.chars, c.isDigit = true ∨ c = '.' := by
  intro c member
  rw [chars, pointed, List.mem_append] at member
  rcases member with whole | pointed
  · exact .inl (p.isDigit_whole c whole)
  · split at pointed
    · cases pointed
    · rcases List.mem_cons.mp pointed with rfl | fraction
      · exact .inr rfl
      · exact .inl (p.isDigit_fraction c fraction)

end PlainNumeral

/-! ## Cutting a run of characters off a text -/

section

variable {p : Char → Bool} {run rest : List Char}

/-- A run ends where a character of another class follows. -/
theorem takeWhile_run_append (inRun : ∀ c ∈ run, p c = true)
    (stops : ∀ c ∈ rest.head?, p c = false) : (run ++ rest).takeWhile p = run := by
  rw [List.takeWhile_append_of_pos inRun]
  cases rest with
  | nil => exact List.append_nil run
  | cons c cs =>
    rw [List.takeWhile_cons, stops c rfl]
    exact List.append_nil run

theorem dropWhile_run_append (inRun : ∀ c ∈ run, p c = true)
    (stops : ∀ c ∈ rest.head?, p c = false) : (run ++ rest).dropWhile p = rest := by
  rw [List.dropWhile_append_of_pos inRun]
  cases rest with
  | nil => rfl
  | cons c cs =>
    rw [List.dropWhile_cons, stops c rfl]
    rfl

end

/-- A plain numeral is cut at its point, and ends where neither a digit nor a point
follows. -/
theorem PlainNumeral.splitMantissa_chars (p : PlainNumeral) {rest : List Char}
    (stops : ∀ c ∈ rest.head?, c.isDigit = false ∧ c ≠ '.') :
    splitMantissa (p.chars ++ rest) = (p.whole, p.fraction, rest) := by
  have noDigit : ∀ c ∈ rest.head?, c.isDigit = false := fun c member => (stops c member).1
  rw [chars, pointed, splitMantissa]
  by_cases noFraction : p.fraction = []
  · rw [if_pos noFraction, List.append_nil, takeWhile_run_append p.isDigit_whole noDigit,
      dropWhile_run_append p.isDigit_whole noDigit, noFraction]
    split
    · exact absurd rfl (stops '.' rfl).2
    · rfl
  · have atPoint : ∀ c ∈ ('.' :: (p.fraction ++ rest)).head?, c.isDigit = false := by
      rintro c ⟨⟩
      rfl
    rw [if_neg noFraction, List.append_assoc, List.cons_append,
      takeWhile_run_append p.isDigit_whole atPoint,
      dropWhile_run_append p.isDigit_whole atPoint]
    show (_, (p.fraction ++ rest).takeWhile Char.isDigit,
      (p.fraction ++ rest).dropWhile Char.isDigit) = _
    rw [takeWhile_run_append p.isDigit_fraction noDigit,
      dropWhile_run_append p.isDigit_fraction noDigit]

/-! ## Reading -/

/-- A sign in front of a digit is split off. -/
theorem splitSign_sign_append (negative : Bool) {c : Char} (cs : List Char)
    (isDigit : c.isDigit = true) :
    splitSign (Binary64.sign negative ++ c :: cs) = (negative, c :: cs) := by
  cases negative with
  | true => rfl
  | false =>
    show splitSign (c :: cs) = _
    unfold splitSign
    split
    · next begins =>
      cases begins
      cases isDigit
    · next begins =>
      cases begins
      cases isDigit
    · rfl

theorem toLower_of_isDigit {c : Char} (isDigit : c.isDigit = true) : c.toLower = c := by
  unfold Char.toLower
  rw [dif_neg]
  intro upper
  simp only [Char.isDigit, Bool.and_eq_true, decide_eq_true_eq] at isDigit
  have low := upper.1
  have high := isDigit.2
  simp only [ge_iff_le, UInt32.le_iff_toNat_le] at low high
  exact absurd (Nat.le_trans low high) (by decide)

/-- A text that begins with a digit is no word, in any letter case. -/
theorem map_toLower_ne_cons {c d : Char} {cs ds : List Char} (isDigit : c.isDigit = true)
    (letter : d.isDigit = false) : (c :: cs).map Char.toLower ≠ d :: ds := by
  intro equal
  rw [List.map_cons, toLower_of_isDigit isDigit] at equal
  rw [(List.cons.inj equal).1, letter] at isDigit
  cases isDigit

/-- Digits with a point are read as their decimal. -/
theorem readMagnitude?_of_splitMantissa {negative : Bool} {c : Char} {cs whole fraction : List Char}
    (isDigit : c.isDigit = true) (cut : splitMantissa (c :: cs) = (whole, fraction, []))
    (nonempty : whole ≠ []) :
    readMagnitude? negative (c :: cs) =
      some (.ofDecimal negative (ofDigits (whole ++ fraction)) (0 - fraction.length)) := by
  have notInf : (c :: cs).map Char.toLower ≠ "inf".toList :=
    map_toLower_ne_cons isDigit (d := 'i') rfl
  have notInfinity : (c :: cs).map Char.toLower ≠ "infinity".toList :=
    map_toLower_ne_cons isDigit (d := 'i') rfl
  have notNan : (c :: cs).map Char.toLower ≠ "nan".toList :=
    map_toLower_ne_cons isDigit (d := 'n') rfl
  rw [readMagnitude?]
  simp only [notInf, notInfinity, notNan, cut, nonempty, or_self, false_and, if_false,
    readExponent?, Option.map_some]

/-- A plain numeral with a sign stands for its decimal. -/
theorem PlainNumeral.readNumeral?_eq (p : PlainNumeral) (negative : Bool) :
    readNumeral? (Binary64.sign negative ++ p.chars) =
      some (.ofDecimal negative p.units (0 - p.fraction.length)) := by
  obtain ⟨c, cs, begins, isDigit⟩ := p.exists_chars_eq_cons
  have cut : splitMantissa (p.chars ++ []) = (p.whole, p.fraction, []) :=
    p.splitMantissa_chars (by simp)
  rw [List.append_nil, begins] at cut
  have nonempty : Binary64.sign negative ++ c :: cs ≠ [] := by simp
  rw [readNumeral?, readNumeral, begins, if_neg nonempty, splitSign_sign_append negative cs isDigit,
    readMagnitude?_of_splitMantissa isDigit cut p.whole_ne_nil]
  rfl

/-! ## Writing -/

/-- The digits of a number without the zeros at its end, and how many these are. -/
theorem exists_digits_eq_append (n : Nat) : ∃ zeros,
    digits n = ((digits n).reverse.dropWhile (· == '0')).reverse ++ List.replicate zeros '0' := by
  refine ⟨((digits n).reverse.takeWhile (· == '0')).length, ?_⟩
  have zeros : (digits n).reverse.takeWhile (· == '0') =
      List.replicate ((digits n).reverse.takeWhile (· == '0')).length '0' := by
    refine List.eq_replicate_of_mem fun c member => ?_
    exact eq_of_beq (List.all_eq_true.mp List.all_takeWhile c member)
  conv => lhs; rw [← List.reverse_reverse (digits n),
    ← List.takeWhile_append_dropWhile (p := (· == '0')) (l := (digits n).reverse)]
  rw [List.reverse_append]
  congr 1
  rw [zeros, List.reverse_replicate, List.length_replicate]

/-- Zeros at the end are powers of ten. -/
theorem ofDigits_append_zeros (ds : List Char) (zeros : Nat) :
    ofDigits (ds ++ List.replicate zeros '0') = ofDigits ds * 10 ^ zeros := by
  rw [ofDigits, Nat.ofDigitChars_append, Nat.ofDigitChars_replicate_zero, Nat.mul_comm]
  rfl

/-- Zeros at the front do not count. -/
theorem ofDigits_zeros_append (ds : List Char) (zeros : Nat) :
    ofDigits (List.replicate zeros '0' ++ ds) = ofDigits ds := by
  rw [ofDigits, Nat.ofDigitChars_append, Nat.ofDigitChars_replicate_zero, Nat.mul_zero]
  rfl

theorem isDigit_of_mem_zeros {k : Nat} : ∀ c ∈ List.replicate k '0', c.isDigit = true := by
  intro c member
  rw [List.eq_of_mem_replicate member]
  rfl

/-- A decimal of so many units has the digits of their number, apart from the zeros at its
end. -/
theorem Decimal.exists_ofUnits_eq {n : Nat} (positive : 0 < n) (exponent : Int) :
    ∃ ds zeros, Decimal.ofUnits n exponent = ⟨ds, ((ds.length + zeros : Nat) : Int) + exponent⟩ ∧
      n = ofDigits ds * 10 ^ zeros ∧ ds ≠ [] ∧ ∀ c ∈ ds, c.isDigit = true := by
  obtain ⟨zeros, digits_eq⟩ := exists_digits_eq_append n
  rw [Decimal.ofUnits]
  generalize ((MarketRules.digits n).reverse.dropWhile (· == '0')).reverse = ds at digits_eq ⊢
  have value : n = ofDigits ds * 10 ^ zeros := by
    rw [← ofDigits_append_zeros, ← digits_eq, ofDigits_digits]
  refine ⟨ds, zeros, ?_, value, ?_, fun c member => ?_⟩
  · rw [digits_eq, List.length_append, List.length_replicate]
  · rintro rfl
    rw [show ofDigits [] = 0 from rfl, Nat.zero_mul] at value
    omega
  · apply isDigit_of_mem_digits (n := n)
    rw [digits_eq]
    exact List.mem_append_left _ member

theorem mul_pow_ten_congr (n : Nat) {a b c d : Nat} (sum : a + b = c + d) :
    n * 10 ^ a * 10 ^ b = n * 10 ^ c * 10 ^ d := by
  rw [Nat.mul_assoc, Nat.mul_assoc, ← Nat.pow_add, ← Nat.pow_add, sum]

/-- A decimal in positional notation is a plain numeral of the same value.  The two sides of
the equation are the two values without their denominators.  All digits stand behind the
point, or all before it, or it stands between them. -/
theorem Decimal.exists_positional_eq_chars {d : Decimal} (nonempty : d.digits ≠ [])
    (allDigits : ∀ c ∈ d.digits, c.isDigit = true) :
    ∃ p : PlainNumeral, d.positional = p.chars ∧
      ∀ up down : Nat, (up : Int) - down = d.point - d.digits.length →
        ofDigits d.digits * 10 ^ up * 10 ^ p.fraction.length = p.units * 10 ^ down := by
  obtain ⟨ds, point⟩ := d
  dsimp only at nonempty allDigits ⊢
  rw [Decimal.positional]
  dsimp only
  split
  · let fraction := List.replicate point.natAbs '0' ++ ds
    have units : ofDigits (['0'] ++ fraction) = ofDigits ds * 10 ^ 0 :=
      (ofDigits_zeros_append fraction 1).trans
        ((ofDigits_zeros_append ds point.natAbs).trans (Nat.mul_one _).symm)
    have length : fraction.length = point.natAbs + ds.length := by simp [fraction]
    have fractionDigits : ∀ c ∈ fraction, c.isDigit = true :=
      List.forall_mem_append.mpr ⟨isDigit_of_mem_zeros, allDigits⟩
    refine ⟨⟨['0'], fraction, by simp, List.forall_mem_singleton.mpr rfl, fractionDigits⟩, ?_,
      fun up down same => ?_⟩
    · simp [PlainNumeral.chars, PlainNumeral.pointed, fraction, nonempty]
    · show ofDigits ds * _ * 10 ^ fraction.length = ofDigits (['0'] ++ fraction) * _
      rw [units, length]
      exact mul_pow_ten_congr _ (by omega)
  · split
    · let whole := ds ++ List.replicate (point.natAbs - ds.length) '0'
      have wholeDigits : ∀ c ∈ whole, c.isDigit = true :=
        List.forall_mem_append.mpr ⟨allDigits, isDigit_of_mem_zeros⟩
      refine ⟨⟨whole, [], by simp [whole, nonempty], wholeDigits, by simp⟩, ?_,
        fun up down same => ?_⟩
      · simp [PlainNumeral.chars, PlainNumeral.pointed, whole]
      · show ofDigits ds * _ * 10 ^ 0 = ofDigits (whole ++ []) * _
        rw [List.append_nil, ofDigits_append_zeros]
        exact mul_pow_ten_congr _ (by omega)
    · have units : ofDigits (ds.take point.natAbs ++ ds.drop point.natAbs) =
          ofDigits ds * 10 ^ 0 := by
        rw [List.take_append_drop, Nat.pow_zero, Nat.mul_one]
      refine ⟨⟨ds.take point.natAbs, ds.drop point.natAbs, ?_,
        fun c member => allDigits c (List.mem_of_mem_take member),
        fun c member => allDigits c (List.mem_of_mem_drop member)⟩, ?_, fun up down same => ?_⟩
      · simp only [ne_eq, List.take_eq_nil_iff, nonempty, or_false]
        omega
      · have fractional : ds.drop point.natAbs ≠ [] := by
          simp only [ne_eq, List.drop_eq_nil_iff]
          omega
        simp only [PlainNumeral.chars, PlainNumeral.pointed, fractional, if_false]
      · show ofDigits ds * _ * 10 ^ (ds.drop point.natAbs).length = ofDigits (_ ++ _) * _
        rw [units, List.length_drop]
        exact mul_pow_ten_congr _ (by omega)

/-- A positive number of units of a power of ten, in positional notation, is a plain numeral
of the same value. -/
theorem PlainNumeral.exists_chars_eq_positional {n : Nat} (positive : 0 < n) (exponent : Int) :
    ∃ p : PlainNumeral, (Decimal.ofUnits n exponent).positional = p.chars ∧
      n * 10 ^ exponent.toNat * 10 ^ p.fraction.length = p.units * 10 ^ (-exponent).toNat := by
  obtain ⟨ds, zeros, decimal, value, nonempty, allDigits⟩ :=
    Decimal.exists_ofUnits_eq positive exponent
  rw [decimal]
  obtain ⟨p, written, same⟩ := Decimal.exists_positional_eq_chars
    (d := ⟨ds, ((ds.length + zeros : Nat) : Int) + exponent⟩) nonempty allDigits
  refine ⟨p, written, ?_⟩
  rw [← same (zeros + exponent.toNat) (-exponent).toNat (by dsimp only; omega), value,
    Nat.mul_assoc (ofDigits ds), ← Nat.pow_add]

end MarketRules
