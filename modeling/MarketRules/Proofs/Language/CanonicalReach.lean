import MarketRules.Proofs.Number.WholeNumber
import MarketRules.Proofs.Strategy.Checking

/-!
# Which strategies have a text

Not every strategy can be written.  The canonical text of a strategy stands for it
exactly when the language has the constants and the periods and when the text keeps
within the bounds.  A period is written with its digits but read as a binary64 number,
so it has to survive that.

One half is the round trip of what is readable.  For the other half nothing has to be
known of the ways in which a text can go wrong: what the text compiles to is a strategy
with a text, and if this is the strategy itself then its operands are readable and its
size is that of a tree that was accepted.
-/

namespace MarketRules

/-! ## Periods that survive -/

/-- A number as a number of bars: the places behind the point are dropped, a number below
zero counts as zero, and one that is too large as the largest period. -/
def Binary64.toPeriod : Binary64 → Nat
  | .nan => 0
  | .infinite negative => if negative then 0 else maxPeriod
  | .finite negative m e _ => if negative then 0 else Nat.min (steps m e / stepsPerUnit) maxPeriod

theorem Binary64.toPeriod_le (x : Binary64) : x.toPeriod ≤ maxPeriod := by
  cases x with
  | nan => exact Nat.zero_le _
  | infinite negative => cases negative <;> decide
  | finite negative m e canonical =>
    cases negative with
    | true => exact Nat.zero_le _
    | false => exact Nat.min_le_right _ _

/-- A number that stands for a period is cut down to the period. -/
theorem toPeriod_of_periodOf? {x : Binary64} {n : Nat} (period : periodOf? x = some n) :
    x.toPeriod = n := by
  obtain ⟨whole, isWhole, rounded⟩ := Option.bind_eq_some_iff.mp period
  split at rounded
  · next bounds =>
    obtain rfl := Option.some.inj rounded
    cases x with
    | nan => cases isWhole
    | infinite => cases isWhole
    | finite negative m e canonical =>
      rw [Binary64.whole?] at isWhole
      rw [Binary64.toPeriod]
      generalize Binary64.steps m e / Binary64.stepsPerUnit = quotient at isWhole ⊢
      split at isWhole
      · obtain rfl := Option.some.inj isWhole
        cases negative with
        | true =>
          simp only [if_true] at bounds
          omega
        | false => rfl
      · cases isWhole
  · cases rounded

/-- The number nearest to a period stands for the period if it is cut down to it. -/
theorem periodOf?_ofNat {n : Nat} (positive : 1 ≤ n)
    (survives : (Binary64.ofNat n).toPeriod = n) : periodOf? (.ofNat n) = some n := by
  have small : n < 2 ^ 64 :=
    Nat.lt_of_le_of_lt (survives ▸ (Binary64.ofNat n).toPeriod_le) (by decide)
  have nonzero : n ≠ 0 := Nat.ne_of_gt positive
  have bits : n.log2 < 64 := (Nat.log2_lt nonzero).mpr small
  obtain ⟨m, e, canonical, k, rounded, whole, most⟩ :=
    Binary64.exists_ofNat_eq (Nat.log2_self_le nonzero) Nat.lt_log2_self bits
  have within : k ≤ maxPeriod + 1 :=
    Nat.le_trans most (Nat.pow_le_pow_right (n := 2) (by decide) (by omega : n.log2 + 1 ≤ 64))
  rw [rounded, Binary64.toPeriod, whole, Nat.mul_div_cancel k Binary64.stepsPerUnit_pos]
    at survives
  replace survives : min k maxPeriod = n := survives
  have isWhole : (Binary64.ofNat n).whole? = some (k : Int) := by
    rw [rounded, Binary64.whole?, whole, if_pos (Nat.mul_mod_left k _),
      Nat.mul_div_cancel k Binary64.stepsPerUnit_pos]
    rfl
  rw [periodOf?, isWhole]
  show (if 1 ≤ (k : Int) ∧ (k : Int) ≤ maxPeriod + 1 then _ else _) = _
  rw [if_pos (by omega)]
  exact congrArg some survives

/-- Some number stands for a period exactly when the period survives as a number. -/
theorem exists_periodOf?_iff {n : Nat} :
    (∃ x, periodOf? x = some n) ↔ 1 ≤ n ∧ (Binary64.ofNat n).toPeriod = n := by
  constructor
  · rintro ⟨x, period⟩
    obtain ⟨positive, small⟩ := periodOf?_bounds period
    have read := periodOf?_readNumeral?_digits period
    rw [Binary64.readNumeral?_digits positive (Nat.lt_of_le_of_lt small (by decide)),
      Option.bind_some] at read
    exact ⟨positive, toPeriod_of_periodOf? read⟩
  · rintro ⟨positive, survives⟩
    exact ⟨_, periodOf?_ofNat positive survives⟩

/-- The first whole number between two numbers of the format does not survive. -/
example : (Binary64.ofNat (2 ^ 53 + 1)).toPeriod = 2 ^ 53 := by decide +kernel

/-! ## Rules with a text -/

/-- The canonical text of the rule can stand for it. -/
structure Rule.Writable (r : Rule) : Prop where
  /-- The constants are finite. -/
  constants : ∀ x, .value x ∈ r.operands → x.isFinite = true
  /-- The periods survive as numbers. -/
  periods : ∀ call ∈ r.calls, 1 ≤ call.period ∧ (Binary64.ofNat call.period).toPeriod = call.period
  comparisons : r.comparisonCount ≤ Rule.maxComparisons
  nesting : r.nesting ≤ maxNesting

/-- A rule can be read back if each of its operands can. -/
theorem Rule.readable_iff {r : Rule} : r.Readable ↔ ∀ x ∈ r.operands, x.Readable := by
  induction r with
  | compare op left right => simp [Readable, operands]
  | combine op left right ihLeft ihRight =>
    rw [Readable, ihLeft, ihRight, operands, List.forall_mem_append]

/-- What is readable is within reach of a text but for the bounds. -/
theorem Rule.writable_iff {r : Rule} :
    r.Writable ↔ r.Readable ∧ r.nesting ≤ maxNesting ∧ r.comparisonCount ≤ Rule.maxComparisons := by
  constructor
  · rintro ⟨constants, periods, comparisons, nesting⟩
    refine ⟨readable_iff.mpr fun x member => ?_, nesting, comparisons⟩
    cases x with
    | value x => exact constants x member
    | field => trivial
    | indicator call => exact exists_periodOf?_iff.mpr (periods call (mem_calls.mpr member))
  · rintro ⟨readable, nesting, comparisons⟩
    have operand := readable_iff.mp readable
    exact ⟨fun x member => operand _ member,
      fun call member => exists_periodOf?_iff.mp (operand _ (mem_calls.mp member)),
      comparisons, nesting⟩

/-- A rule that was built from an accepted tree can be written. -/
theorem RuleTree.writable_of_build {tree : RuleTree} {r : Rule} (built : tree.build = .ok r)
    (allowed : tree.extent.Allowed) : r.Writable := by
  have within := RuleTree.builtWithin built
  exact Rule.writable_iff.mpr ⟨within.readable, Nat.le_trans within.nesting_le allowed.1,
    Nat.le_trans (Nat.le_of_eq within.count_eq) allowed.2⟩

namespace Strategy

/-- What compiles can be written. -/
theorem writable_of_ofText {text : String} {s : Strategy} (compiled : ofText text = .ok s) :
    s.entry.Writable ∧ s.exit.Writable := by
  obtain ⟨tree, parsed, built⟩ := ofText_eq_ok_iff.mp compiled
  obtain ⟨builtEntry, builtExit⟩ := StrategyTree.build_rules built
  obtain ⟨entryAllowed, exitAllowed⟩ := StrategyTree.allowed_of_ofText parsed
  exact ⟨RuleTree.writable_of_build builtEntry entryAllowed,
    RuleTree.writable_of_build builtExit exitAllowed⟩

/-- What can be written compiles back. -/
theorem ofText_text_of_writable {s : Strategy} (entry : s.entry.Writable)
    (exit : s.exit.Writable) : ofText s.text = .ok s := by
  obtain ⟨entryReadable, entryDeep, entryLong⟩ := Rule.writable_iff.mp entry
  obtain ⟨exitReadable, exitDeep, exitLong⟩ := Rule.writable_iff.mp exit
  obtain ⟨tree, length, wellFormed, built, entryExtent, exitExtent, tokenized⟩ :=
    exists_tree entryReadable exitReadable
  have entryAllowed : tree.entry.extent.Allowed := entryExtent ▸ ⟨entryDeep, entryLong⟩
  have exitAllowed : tree.exit.extent.Allowed := exitExtent ▸ ⟨exitDeep, exitLong⟩
  refine ofText_eq_ok_iff.mpr ⟨tree, ?_, built⟩
  exact (StrategyTree.ofText_eq_ofTokens tokenized).trans (StrategyTree.ofTokens_eq_ok_iff.mpr
    ⟨wellFormed, rfl, tree.breaches_eq_nil_iff.mpr ⟨entryAllowed, exitAllowed⟩⟩)

/-- The canonical text of a strategy compiles to the strategy exactly when both rules
can be written. -/
theorem ofText_text_eq_ok_iff (s : Strategy) :
    ofText s.text = .ok s ↔ s.entry.Writable ∧ s.exit.Writable :=
  ⟨writable_of_ofText, fun ⟨entry, exit⟩ => ofText_text_of_writable entry exit⟩

end Strategy

end MarketRules
