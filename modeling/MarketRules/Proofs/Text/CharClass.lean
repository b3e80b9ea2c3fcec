import MarketRules.Text.Blank

/-!
# Classes of characters

A digit or a capital letter of ASCII is known by its number, and no character is in two of
the classes.  What is said of all characters of a text is decided by going along the text.
-/

namespace MarketRules

/-- There are too many characters to try them all, and few in a text. -/
instance (priority := high) decidableForallMemText {p : Char → Prop} [DecidablePred p]
    (cs : List Char) : Decidable (∀ c ∈ cs, p c) :=
  List.decidableBAll p cs

theorem isBlank_eq_false_of_between {c : Char} (lower : 33 ≤ c.toNat) (upper : c.toNat ≤ 126) :
    isBlank c = false := by
  simp only [isBlank, Bool.or_eq_false_iff, Bool.and_eq_false_iff, decide_eq_false_iff_not,
    beq_eq_false_iff_ne]
  omega

/-- The digits are the ten characters from `0` on. -/
theorem toNat_of_isDigit {c : Char} (digit : c.isDigit = true) : 48 ≤ c.toNat ∧ c.toNat ≤ 57 := by
  simp only [Char.isDigit, Bool.and_eq_true, decide_eq_true_eq, ge_iff_le,
    UInt32.le_iff_toNat_le] at digit
  exact digit

/-- The digits, listed. -/
theorem mem_digits_of_isDigit {c : Char} (digit : c.isDigit = true) :
    c ∈ "0123456789".toList := by
  have within : ∀ k < 10, Char.ofNat (48 + k) ∈ "0123456789".toList := by decide
  obtain ⟨low, high⟩ := toNat_of_isDigit digit
  have member := within (c.toNat - 48) (by omega)
  rwa [Nat.add_sub_cancel' low, Char.ofNat_toNat] at member

theorem isBlank_eq_false_of_isDigit {c : Char} (digit : c.isDigit = true) : isBlank c = false := by
  have bounds := toNat_of_isDigit digit
  exact isBlank_eq_false_of_between (by omega) (by omega)

theorem isDigit_eq_false_of_isBlank {c : Char} (blank : isBlank c = true) : c.isDigit = false := by
  cases digit : c.isDigit with
  | false => rfl
  | true =>
    rw [isBlank_eq_false_of_isDigit digit] at blank
    cases blank

theorem toNat_of_isUpper {c : Char} (upper : c.isUpper = true) : 65 ≤ c.toNat ∧ c.toNat ≤ 90 := by
  have bounds : 'A'.val ≤ c.val ∧ c.val ≤ 'Z'.val := of_decide_eq_true upper
  rw [UInt32.le_iff_toNat_le, UInt32.le_iff_toNat_le] at bounds
  exact bounds

theorem toNat_of_isLower {c : Char} (lower : c.isLower = true) : 97 ≤ c.toNat ∧ c.toNat ≤ 122 := by
  obtain ⟨least, greatest⟩ := Bool.and_eq_true_iff.mp lower
  exact ⟨UInt32.le_iff_toNat_le.mp (of_decide_eq_true least),
    UInt32.le_iff_toNat_le.mp (of_decide_eq_true greatest)⟩

theorem isAlpha_of_isUpper {c : Char} (upper : c.isUpper = true) : c.isAlpha = true := by
  show (c.isUpper || c.isLower) = true
  rw [upper]
  rfl

theorem isDigit_eq_false_of_isUpper {c : Char} (upper : c.isUpper = true) : c.isDigit = false := by
  cases digit : c.isDigit with
  | false => rfl
  | true =>
    have := toNat_of_isUpper upper
    have := toNat_of_isDigit digit
    omega

theorem toUpper_of_isUpper {c : Char} (upper : c.isUpper = true) : c.toUpper = c := by
  have bounds := toNat_of_isUpper upper
  unfold Char.toUpper
  rw [dif_neg]
  intro lower
  have least := lower.1
  rw [UInt32.le_iff_toNat_le] at least
  exact absurd (Nat.le_trans least bounds.2) (by decide)

/-- Characters are apart if a class has only one of them. -/
theorem ne_of_class {p : Char → Bool} {c d : Char} (inside : p c = true) (outside : p d = false) :
    c ≠ d := by
  rintro rfl
  rw [inside] at outside
  cases outside

end MarketRules
