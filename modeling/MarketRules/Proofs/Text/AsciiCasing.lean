import MarketRules.Text.Casing

/-!
# Letter case in ASCII

On ASCII texts the full case mappings change one letter at a time, and a text that
agrees with an ASCII text up to letter case is an ASCII text.
-/

namespace MarketRules

theorem forall_ascii_of_all {cs : List Char} (all : cs.all (·.toNat < 128) = true) :
    ∀ c ∈ cs, c.toNat < 128 :=
  fun c member => of_decide_eq_true (List.all_eq_true.mp all c member)

/-- What holds of the first code points holds of every ASCII character. -/
theorem of_ascii {P : Char → Prop} {c : Char} (ascii : c.toNat < 128)
    (all : ∀ n < 128, P (Char.ofNat n)) : P c := by
  have holds := all c.toNat ascii
  rwa [Char.ofNat_toNat] at holds

/-- What holds of the first code points and their upper case holds of every character, since
no other character is changed. -/
theorem of_toUpper {P : Char → Char → Prop}
    (ascii : ∀ n < 128, P (Char.ofNat n) (Char.ofNat n).toUpper)
    (same : ∀ c, P c c) (c : Char) : P c c.toUpper := by
  by_cases small : c.toNat < 128
  · exact of_ascii (P := fun c => P c c.toUpper) small ascii
  · have unchanged : c.toUpper = c := dif_neg fun lower =>
      small (Nat.lt_of_le_of_lt (UInt32.le_iff_toNat_le.mp lower.2) (by decide))
    rw [unchanged]
    exact same c

/-- The letters of a text are changed one at a time if none of them has a longer lower case,
and none a lower case that depends on its place. -/
theorem lowerAfter_eq_map {cs : List Char}
    (single : ∀ c ∈ cs, c ≠ 'Σ' ∧ lowerChar c = [c.toLower]) :
    ∀ before : List Char, lowerAfter before cs = cs.map Char.toLower := by
  induction cs with
  | nil => exact fun before => rfl
  | cons c cs ih =>
    intro before
    obtain ⟨⟨noSigma, first⟩, later⟩ := List.forall_mem_cons.mp single
    rw [lowerAfter, if_neg noSigma, first, ih later]
    rfl

theorem upper_eq_map {cs : List Char} (single : ∀ c ∈ cs, upperChar c = [c.toUpper]) :
    upper cs = cs.map Char.toUpper := by
  induction cs with
  | nil => rfl
  | cons c cs ih =>
    obtain ⟨first, later⟩ := List.forall_mem_cons.mp single
    rw [upper, List.flatMap_cons, first, List.map_cons, ← ih later]
    rfl

theorem lower_ascii {cs : List Char} (ascii : ∀ c ∈ cs, c.toNat < 128) :
    lower cs = cs.map Char.toLower := by
  refine lowerAfter_eq_map (fun c member => ⟨?_, if_pos (ascii c member)⟩) []
  rintro rfl
  exact absurd (ascii _ member) (by decide)

theorem upper_ascii {cs : List Char} (ascii : ∀ c ∈ cs, c.toNat < 128) :
    upper cs = cs.map Char.toUpper :=
  upper_eq_map fun c member => if_pos (ascii c member)

/-- Is this an ASCII character that stays the same in lower case? -/
def isSmallAscii (c : Char) : Bool := c.toNat < 128 && c.toLower == c

/-- Is this an ASCII character that stays the same in upper case? -/
def isCapitalAscii (c : Char) : Bool := c.toNat < 128 && c.toUpper == c

theorem isSmallAscii_iff {c : Char} : isSmallAscii c = true ↔ c.toNat < 128 ∧ c.toLower = c := by
  simp [isSmallAscii]

theorem isCapitalAscii_iff {c : Char} :
    isCapitalAscii c = true ↔ c.toNat < 128 ∧ c.toUpper = c := by
  simp [isCapitalAscii]

theorem map_toLower_eq_self {cs : List Char} (small : cs.all isSmallAscii = true) :
    cs.map Char.toLower = cs := by
  have same : ∀ c ∈ cs, c.toLower = c :=
    fun c member => (isSmallAscii_iff.mp (List.all_eq_true.mp small c member)).2
  rw [List.map_congr_left same]
  exact List.map_id cs

theorem lower_eq_self {cs : List Char} (small : cs.all isSmallAscii = true) : lower cs = cs := by
  have ascii : ∀ c ∈ cs, c.toNat < 128 :=
    fun c member => (isSmallAscii_iff.mp (List.all_eq_true.mp small c member)).1
  rw [lower_ascii ascii, map_toLower_eq_self small]

theorem upper_eq_self {cs : List Char} (capital : cs.all isCapitalAscii = true) :
    upper cs = cs := by
  have all : ∀ c ∈ cs, c.toNat < 128 ∧ c.toUpper = c :=
    fun c member => isCapitalAscii_iff.mp (List.all_eq_true.mp capital c member)
  rw [upper_ascii fun c member => (all c member).1,
    List.map_congr_left fun c member => (all c member).2]
  exact List.map_id cs

theorem toLower_of_not_ascii {c : Char} (notAscii : ¬ c.toNat < 128) : c.toLower = c := by
  unfold Char.toLower
  rw [dif_neg]
  rintro ⟨-, high⟩
  rw [UInt32.le_iff_toNat_le] at high
  exact notAscii (Nat.lt_of_le_of_lt high (by decide))

theorem toUpper_of_not_ascii {c : Char} (notAscii : ¬ c.toNat < 128) : c.toUpper = c := by
  unfold Char.toUpper
  rw [dif_neg]
  rintro ⟨-, high⟩
  rw [UInt32.le_iff_toNat_le] at high
  exact notAscii (Nat.lt_of_le_of_lt high (by decide))

/-- Lower case maps nothing but ASCII characters to ASCII characters. -/
theorem toNat_lt_of_toLower {c : Char} (small : c.toLower.toNat < 128) : c.toNat < 128 := by
  by_cases ascii : c.toNat < 128
  · exact ascii
  · rwa [toLower_of_not_ascii ascii] at small

/-- A text that agrees with an ASCII text up to letter case has the lower case of that
text. -/
theorem lower_of_sameIgnoringAsciiCase {s t : String} {cs : List Char}
    (same : sameIgnoringAsciiCase s t = true) (lowered : t.toList.map Char.toLower = cs)
    (small : cs.all isSmallAscii = true) : lower s.toList = cs := by
  have equal : s.toList.map Char.toLower = cs := (eq_of_beq same).trans lowered
  have ascii : ∀ c ∈ s.toList, c.toNat < 128 := by
    intro c member
    have inLower : c.toLower ∈ cs := equal ▸ List.mem_map_of_mem member
    exact toNat_lt_of_toLower (isSmallAscii_iff.mp (List.all_eq_true.mp small _ inLower)).1
  rw [lower_ascii ascii, equal]

end MarketRules
