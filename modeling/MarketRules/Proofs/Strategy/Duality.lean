import MarketRules.Proofs.Number.Order
import MarketRules.Proofs.Strategy.FreshSignals

/-!
# Rules and their duals

The dual of a rule exchanges `AND` with `OR`, and in every comparison `>` with
`<=`, `<` with `>=` and `==` with `!=`.  Where a rule is undefined so is its dual,
and neither holds.  Where it is defined the dual is its negation (`eval?_dual`),
as long as every comparison is decided by its two values: a NaN on one side, or
the same infinity on both, makes `==` and `!=` fail together.
-/

namespace MarketRules

/-! ## Duals -/

/-- The comparison that holds where another does not. -/
def CompareOp.dual : CompareOp → CompareOp
  | .greater => .atMost
  | .less => .atLeast
  | .atLeast => .less
  | .atMost => .greater
  | .equal => .notEqual
  | .notEqual => .equal

/-- The connective that combines negations into the negation. -/
def LogicOp.dual : LogicOp → LogicOp
  | .and => .or
  | .or => .and

namespace Rule

/-- The rule with every comparison and every connective replaced by its dual. -/
def dual : Rule → Rule
  | .compare op l r => .compare op.dual l r
  | .combine op l r => .combine op.dual l.dual r.dual

/-- The two sides of every comparison, from left to right. -/
def comparisons : Rule → List (Operand × Operand)
  | .compare _ l r => [(l, r)]
  | .combine _ l r => l.comparisons ++ r.comparisons

@[simp]
theorem operands_dual (r : Rule) : r.dual.operands = r.operands := by
  induction r with
  | compare op l r => rfl
  | combine op l r ihl ihr => simp only [dual, operands, ihl, ihr]

/-- The values of a rule's operands decide each of its comparisons: none of them is
a NaN, and no comparison has the same infinity on both sides. -/
structure Decided (value? : Operand → Option Binary64) (r : Rule) : Prop where
  number : ∀ x ∈ r.operands, value? x ≠ some .nan
  apart : ∀ c ∈ r.comparisons, ∀ negative,
    ¬(value? c.1 = some (.infinite negative) ∧ value? c.2 = some (.infinite negative))

end Rule

/-! ## Negation -/

/-- The dual connective of what does not hold. -/
theorem LogicOp.combine_dual (op : LogicOp) (p q : Bool) :
    op.dual.combine (!p) (!q) = !op.combine p q := by
  cases op <;> simp [dual, combine]

open Binary64 in
/-- A comparison of numbers fails exactly if its dual holds, but not between equal infinities.
-/
theorem CompareOp.holds_dual (op : CompareOp) {x y : Binary64} (left : x.isNaN = false)
    (right : y.isNaN = false)
    (apart : ∀ negative, ¬(x = .infinite negative ∧ y = .infinite negative)) :
    op.dual.holds x y = !op.holds x y := by
  have distance : (x - y).abs.isNaN = false := by rw [isNaN_abs, isNaN_sub left right apart]
  have near : tolerance.isNaN = false := by
    rw [tolerance, ofRatio, isNaN_ofSteps]
  cases op with
  | greater | less | equal => simp [dual, holds, lt_eq_not_le, *]
  | atLeast | atMost | notEqual => simp [dual, holds, lt_eq_not_le, *]

namespace Rule

variable {value? : Operand → Option Binary64}

theorem Decided.left {op : LogicOp} {l r : Rule} (decided : (combine op l r).Decided value?) :
    l.Decided value? :=
  ⟨fun x member => decided.number x (List.mem_append_left _ member),
    fun c member => decided.apart c (List.mem_append_left _ member)⟩

theorem Decided.right {op : LogicOp} {l r : Rule} (decided : (combine op l r).Decided value?) :
    r.Decided value? :=
  ⟨fun x member => decided.number x (List.mem_append_right _ member),
    fun c member => decided.apart c (List.mem_append_right _ member)⟩

/-- The dual of a rule is defined where the rule is, and has the opposite truth
value there. -/
theorem eval?_dual {r : Rule} (decided : r.Decided value?) :
    r.dual.eval? value? = (r.eval? value?).map (!·) := by
  induction r with
  | compare op l r =>
    cases hl : value? l with
    | none => simp [dual, eval?, hl]
    | some x =>
      cases hr : value? r with
      | none => simp [dual, eval?, hl, hr]
      | some y =>
        have left : x.isNaN = false := by
          have number := decided.number l (by simp [operands])
          cases x <;> simp [Binary64.isNaN, hl] at number ⊢
        have right : y.isNaN = false := by
          have number := decided.number r (by simp [operands])
          cases y <;> simp [Binary64.isNaN, hr] at number ⊢
        have apart : ∀ negative, ¬(x = .infinite negative ∧ y = .infinite negative) := by
          have apart := decided.apart (l, r) (by simp [comparisons])
          simpa [hl, hr] using apart
        simp [dual, eval?, hl, hr, op.holds_dual left right apart]
  | combine op l r ihl ihr =>
    have left := ihl decided.left
    have right := ihr decided.right
    cases hl : l.eval? value? <;> cases hr : r.eval? value? <;>
      simp [dual, eval?, left, right, hl, hr, op.combine_dual]

/-- A rule with an operand that has no value does not hold. -/
theorem holds_eq_false_of_undefined {r : Rule}
    (undefined : ∃ x ∈ r.operands, value? x = none) : r.holds value? = false := by
  obtain ⟨x, member, missing⟩ := undefined
  have no : r.eval? value? = none := by
    rw [← Option.not_isSome_iff_eq_none, eval?_isSome_iff]
    intro all
    have := all x member
    simp [missing] at this
  simp [holds, no]

/-- Negation by duality.  Where an operand has no value, neither a rule nor its dual
holds; where all have one, exactly one of the two holds. -/
theorem holdsAt_dual (r : Rule) (bars : List Bar) (table : IndicatorTable) (index : Nat) :
    ((∃ x ∈ r.operands, table.operandAt? bars index x = none) →
        r.holdsAt bars table index = false ∧ r.dual.holdsAt bars table index = false) ∧
      ((∀ x ∈ r.operands, table.operandAt? bars index x ≠ none) →
        r.Decided (table.operandAt? bars index) →
          r.dual.holdsAt bars table index = !r.holdsAt bars table index) := by
  constructor
  · intro undefined
    exact ⟨holds_eq_false_of_undefined undefined,
      holds_eq_false_of_undefined (by simpa using undefined)⟩
  · intro defined decided
    have some : (r.eval? (table.operandAt? bars index)).isSome = true :=
      (eval?_isSome_iff _ r).mpr fun x member => Option.isSome_iff_ne_none.mpr (defined x member)
    obtain ⟨truth, evaluated⟩ := Option.isSome_iff_exists.mp some
    simp [holdsAt, holds, eval?_dual decided, evaluated]

/-- Above the mean of two days, or at nine. -/
def aboveMeanOrNine : Rule :=
  .combine .or (.compare .greater (.field .closing) (.indicator ⟨.movingAverage, .closing, 2⟩))
    (.compare .equal (.field .closing) (.value 9))

open CheckedStrategy in
/-- On the first day the mean is missing and neither rule holds; on the second the
price is nine, below the mean, and only the rule itself holds. -/
theorem aboveMeanOrNine_dual :
    let table := IndicatorTable.ofCalls [⟨.movingAverage, .closing, 2⟩] threeDays
    (aboveMeanOrNine.holdsAt threeDays table 0 = false ∧
        aboveMeanOrNine.dual.holdsAt threeDays table 0 = false) ∧
      aboveMeanOrNine.dual.holdsAt threeDays table 1 =
        !aboveMeanOrNine.holdsAt threeDays table 1 := by
  intro table
  refine ⟨(aboveMeanOrNine.holdsAt_dual threeDays table 0).1
      ⟨.indicator ⟨.movingAverage, .closing, 2⟩, by decide, by decide +kernel⟩,
    (aboveMeanOrNine.holdsAt_dual threeDays table 1).2 (by decide +kernel)
      ⟨by decide +kernel, ?_⟩⟩
  intro c member negative both
  simp only [aboveMeanOrNine, comparisons, List.cons_append, List.nil_append, List.mem_cons,
    List.not_mem_nil, or_false] at member
  obtain rfl | rfl := member
  · revert negative; decide +kernel
  · revert negative; decide +kernel

end Rule

end MarketRules
