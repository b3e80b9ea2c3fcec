import MarketRules.Proofs.Text.AsciiCasing
import MarketRules.Proofs.Text.CharClass
import MarketRules.Text.WordChar

/-!
# What letter case leaves alone

The decimal digits of every script are the same in upper case, and they are no blanks.
Blanks and points are the same in upper case too, and nothing else becomes one of them.
Blanks are also the same in lower case.  All this is read off the tables, range by range.
-/

namespace MarketRules

/-! ## Ranges -/

/-- Do the ranges have no code point between the two, with both included? -/
def CodeRanges.avoids (ranges : CodeRanges) (first last : Nat) : Bool :=
  ranges.all fun (low, high) => last < low || high < first

theorem CodeRanges.not_between_of_avoids {ranges : CodeRanges} {first last : Nat}
    (avoids : ranges.avoids first last = true) {c : Char} (inside : ranges.contains c = true) :
    ¬ (first ≤ c.toNat ∧ c.toNat ≤ last) := by
  obtain ⟨⟨low, high⟩, listed, within⟩ := List.any_eq_true.mp inside
  have apart : last < low ∨ high < first := by simpa using List.all_eq_true.mp avoids _ listed
  have bounds : low ≤ c.toNat ∧ c.toNat ≤ high := by simpa using within
  omega

/-- The blanks as ranges of code points. -/
def blankRanges : CodeRanges :=
  [(9, 13), (0x20, 0x20), (0x85, 0x85), (0xa0, 0xa0), (0x1680, 0x1680), (0x2000, 0x200a),
   (0x2028, 0x2029), (0x202f, 0x202f), (0x205f, 0x205f), (0x3000, 0x3000)]

theorem isBlank_iff_contains {c : Char} : isBlank c = true ↔ blankRanges.contains c = true := by
  simp only [CodeRanges.contains, blankRanges, List.any_cons, List.any_nil, isBlank,
    Bool.or_eq_true, Bool.and_eq_true, decide_eq_true_eq, beq_iff_eq, Bool.or_false]
  omega

/-! ## Characters without a case -/

/-- Do the runs move none of these code points? -/
def CodeRanges.keptBy (ranges : CodeRanges) (runs : List CaseRun) : Bool :=
  runs.all fun r => ranges.avoids r.first r.last

theorem CodeRanges.moveCase_eq {ranges : CodeRanges} {runs : List CaseRun}
    (kept : ranges.keptBy runs = true) {c : Char} (inside : ranges.contains c = true) :
    moveCase runs c = c := by
  have noRun : runs.find? (·.covers c.toNat) = none := by
    refine List.find?_eq_none.mpr fun r listed covers => ?_
    have bounds := (Bool.and_eq_true_iff.mp covers).1
    exact not_between_of_avoids (List.all_eq_true.mp kept r listed) inside (by simpa using bounds)
  rw [moveCase, noRun]

/-- Is the upper case of every one of these code points the code point itself? -/
def CodeRanges.keepsUpper (ranges : CodeRanges) : Bool :=
  ranges.keptBy upperRuns && upperExpansions.all fun x => ranges.avoids x.1 x.1

theorem CodeRanges.upperChar_eq {ranges : CodeRanges} (keeps : ranges.keepsUpper = true) {c : Char}
    (inside : ranges.contains c = true) (notAscii : ¬ c.toNat < 128) : upperChar c = [c] := by
  obtain ⟨runs, expansions⟩ := Bool.and_eq_true_iff.mp keeps
  have noExpansion : upperExpansions.lookup c.toNat = none := by
    refine List.lookup_eq_none_iff.mpr fun x listed => ?_
    have apart := not_between_of_avoids (List.all_eq_true.mp expansions x listed) inside
    rw [bne_iff_ne]
    omega
  rw [upperChar, if_neg notAscii, noExpansion]
  dsimp only
  rw [moveCase_eq runs inside]

theorem upperChar_of_isDecimalDigit {c : Char} (digit : isDecimalDigit c = true) :
    upperChar c = [c] := by
  by_cases ascii : c.toNat < 128
  · rw [isDecimalDigit, if_pos ascii] at digit
    have bounds := toNat_of_isDigit digit
    have same : ∀ k < 10, (Char.ofNat (48 + k)).toUpper = Char.ofNat (48 + k) := by decide
    have upper := same (c.toNat - 48) (by omega)
    rw [Nat.add_sub_cancel' bounds.1, Char.ofNat_toNat] at upper
    rw [upperChar, if_pos ascii, upper]
  · rw [isDecimalDigit, if_neg ascii] at digit
    have keeps : decimalDigitRanges.keepsUpper = true := by decide +kernel
    exact CodeRanges.upperChar_eq keeps digit ascii

theorem isBlank_eq_false_of_isDecimalDigit {c : Char} (digit : isDecimalDigit c = true) :
    isBlank c = false := by
  by_cases ascii : c.toNat < 128
  · rw [isDecimalDigit, if_pos ascii] at digit
    exact isBlank_eq_false_of_isDigit digit
  · rw [isDecimalDigit, if_neg ascii] at digit
    have apart : blankRanges.all (fun r => decimalDigitRanges.avoids r.1 r.2) = true := by
      decide +kernel
    refine Bool.eq_false_iff.mpr fun blank => ?_
    obtain ⟨r, listed, bounds⟩ := List.any_eq_true.mp (isBlank_iff_contains.mp blank)
    exact CodeRanges.not_between_of_avoids (List.all_eq_true.mp apart r listed) digit
      (by simpa using bounds)

/-! ## Blanks and points -/

/-- Is the character a blank or a point? -/
def isIdle (c : Char) : Bool := isBlank c || c == '.'

/-- The blanks and the point as ranges of code points. -/
def idleRanges : CodeRanges := (46, 46) :: blankRanges

theorem isIdle_iff_contains {c : Char} : isIdle c = true ↔ idleRanges.contains c = true := by
  have point : c = '.' ↔ c.toNat = 46 := by
    constructor
    · rintro rfl
      rfl
    · intro same
      rw [← Char.ofNat_toNat c, same]
  have shape : idleRanges.contains c = ((46 ≤ c.toNat && c.toNat ≤ 46) || blankRanges.contains c) :=
    rfl
  rw [shape, isIdle, Bool.or_eq_true, Bool.or_eq_true, isBlank_iff_contains, beq_iff_eq, point,
    Bool.and_eq_true, decide_eq_true_eq, decide_eq_true_eq, or_comm]
  exact or_congr_left (by omega)

theorem upperChar_of_isIdle {c : Char} (idle : isIdle c = true) : upperChar c = [c] := by
  by_cases ascii : c.toNat < 128
  · have same : isIdle c = true → c.toUpper = c :=
      of_ascii (P := fun c => isIdle c = true → c.toUpper = c) ascii (by decide)
    rw [upperChar, if_pos ascii, same idle]
  · have keeps : idleRanges.keepsUpper = true := by decide +kernel
    exact CodeRanges.upperChar_eq keeps (isIdle_iff_contains.mp idle) ascii

/-- Is nothing moved to one of these code points by the run? -/
def CaseRun.misses (r : CaseRun) (ranges : CodeRanges) : Bool :=
  ranges.all fun (low, high) => decide (r.last + r.shift < low) || decide (high < r.first + r.shift)

theorem toNat_ofNat_or (n : Nat) : (Char.ofNat n).toNat = n ∨ (Char.ofNat n).toNat = 0 := by
  by_cases valid : n.isValidChar
  · rw [Char.ofNat, dif_pos valid]
    exact .inl rfl
  · rw [Char.ofNat, dif_neg valid]
    exact .inr rfl

theorem isIdle_of_moveCase {c : Char} (idle : isIdle (moveCase upperRuns c) = true) :
    isIdle c = true := by
  have misses : upperRuns.all (fun r => r.misses idleRanges) = true := by decide +kernel
  have positive : ∀ r ∈ idleRanges, 0 < r.1 := by decide
  rw [moveCase] at idle
  cases found : upperRuns.find? (·.covers c.toNat) with
  | none =>
    rw [found] at idle
    exact idle
  | some r =>
    rw [found] at idle
    obtain ⟨⟨low, high⟩, listed, bounds⟩ := List.any_eq_true.mp (isIdle_iff_contains.mp idle)
    have lowPos := positive _ listed
    have inRun : r.first ≤ c.toNat ∧ c.toNat ≤ r.last := by
      have covers : r.covers c.toNat = true :=
        List.find?_some (p := (CaseRun.covers · c.toNat)) found
      simpa using (Bool.and_eq_true_iff.mp covers).1
    have apart : r.last + r.shift < low ∨ high < r.first + r.shift := by
      simpa using List.all_eq_true.mp
        (List.all_eq_true.mp misses r (List.mem_of_find?_eq_some found)) _ listed
    simp only [Bool.and_eq_true, decide_eq_true_eq] at bounds
    rcases toNat_ofNat_or (c.toNat + r.shift).toNat with moved | invalid <;> omega

/-- Nothing but blanks and points has an upper case of blanks and points. -/
theorem isIdle_of_upperChar {c : Char} (idle : ∀ d ∈ upperChar c, isIdle d = true) :
    isIdle c = true := by
  rw [upperChar] at idle
  split at idle
  · next ascii =>
    have small : isIdle c.toUpper = true → isIdle c = true :=
      of_ascii (P := fun c => isIdle c.toUpper = true → isIdle c = true) ascii (by decide +kernel)
    exact small (idle c.toUpper (.head _))
  · split at idle
    · next ns expansion =>
      have foreign : ∀ x ∈ upperExpansions, ∃ n ∈ x.2, isIdle (Char.ofNat n) = false := by
        decide +kernel
      obtain ⟨front, back, entries, -⟩ := List.lookup_eq_some_iff.mp expansion
      have entry : (c.toNat, ns) ∈ upperExpansions := by
        rw [entries]
        exact List.mem_append_right front List.mem_cons_self
      obtain ⟨n, listed, other⟩ := foreign _ entry
      rw [idle _ (List.mem_map_of_mem listed)] at other
      cases other
    · exact isIdle_of_moveCase (idle _ (.head _))

theorem upper_eq_self_of_isIdle {cs : List Char} (idle : ∀ c ∈ cs, isIdle c = true) :
    upper cs = cs := by
  induction cs with
  | nil => rfl
  | cons c cs ih =>
    obtain ⟨first, later⟩ := List.forall_mem_cons.mp idle
    rw [upper, List.flatMap_cons, upperChar_of_isIdle first]
    exact congrArg (c :: ·) (ih later)

/-! ## ASCII characters and blanks -/

theorem isIdle_of_isBlank {c : Char} (blank : isBlank c = true) : isIdle c = true := by
  rw [isIdle, blank, Bool.true_or]

theorem toUpper_of_isBlank {c : Char} (blank : isBlank c = true) : c.toUpper = c := by
  by_cases ascii : c.toNat < 128
  · have same := upperChar_of_isIdle (isIdle_of_isBlank blank)
    rw [upperChar, if_pos ascii] at same
    exact List.head_eq_of_cons_eq same
  · exact toUpper_of_not_ascii ascii

theorem toLower_of_isBlank {c : Char} (blank : isBlank c = true) : c.toLower = c := by
  by_cases ascii : c.toNat < 128
  · have same : isBlank c = true → c.toLower = c :=
      of_ascii (P := fun c => isBlank c = true → c.toLower = c) ascii (by decide)
    exact same blank
  · exact toLower_of_not_ascii ascii

theorem lowerChar_of_isBlank {c : Char} (blank : isBlank c = true) : lowerChar c = [c] := by
  by_cases ascii : c.toNat < 128
  · rw [lowerChar, if_pos ascii, toLower_of_isBlank blank]
  · have kept : blankRanges.keptBy lowerRuns = true := by decide +kernel
    have noDot : c ≠ 'İ' := by
      rintro rfl
      exact absurd blank (by decide)
    rw [lowerChar, if_neg ascii, if_neg noDot,
      CodeRanges.moveCase_eq kept (isBlank_iff_contains.mp blank)]

/-- Among ASCII characters and blanks, lower case changes one letter at a time. -/
theorem lower_of_ascii_or_isBlank {cs : List Char}
    (simple : ∀ c ∈ cs, c.toNat < 128 ∨ isBlank c = true) : lower cs = cs.map Char.toLower := by
  refine lowerAfter_eq_map (fun c member => ⟨?_, ?_⟩) []
  · rintro rfl
    have noSigma := simple _ member
    revert noSigma
    decide
  · rcases simple c member with ascii | blank
    · exact if_pos ascii
    · rw [lowerChar_of_isBlank blank, toLower_of_isBlank blank]

/-- And so does upper case. -/
theorem upper_of_ascii_or_isBlank {cs : List Char}
    (simple : ∀ c ∈ cs, c.toNat < 128 ∨ isBlank c = true) : upper cs = cs.map Char.toUpper := by
  refine upper_eq_map fun c member => ?_
  rcases simple c member with ascii | blank
  · exact if_pos ascii
  · rw [upperChar_of_isIdle (isIdle_of_isBlank blank), toUpper_of_isBlank blank]

end MarketRules
