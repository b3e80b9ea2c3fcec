import MarketRules.Rule.Basic

/-!
# What a rule says of a bar

A rule is judged by the values of its operands.  An operand can be without a
value: an indicator has none before it has seen enough bars.  One such operand
anywhere leaves the whole rule undefined, also where an `OR` could be decided
without it, and a rule that is undefined does not hold.
-/

namespace MarketRules

/-- How near two numbers must be to count as equal: `10^-9`. -/
def tolerance : Binary64 := .ofRatio false 1 (Nat.pow 10 9)

/-- Compare two numbers.  Equality has a tolerance, the other comparisons have
none, and nothing holds of a NaN. -/
def CompareOp.holds (op : CompareOp) (x y : Binary64) : Bool :=
  match op with
  | .greater => y.lt x
  | .less => x.lt y
  | .atLeast => y.le x
  | .atMost => x.le y
  | .equal => (x - y).abs.lt tolerance
  | .notEqual => tolerance.le (x - y).abs

/-- Combine two truth values. -/
def LogicOp.combine (op : LogicOp) (p q : Bool) : Bool :=
  match op with
  | .and => p && q
  | .or => p || q

/-- The truth value of a rule, if all its operands have a value. -/
def Rule.eval? (value? : Operand → Option Binary64) : Rule → Option Bool
  | .compare op l r => do
    let x ← value? l
    let y ← value? r
    return op.holds x y
  | .combine op l r => do
    let p ← l.eval? value?
    let q ← r.eval? value?
    return op.combine p q

/-- Does a rule hold?  A rule that is undefined does not. -/
def Rule.holds (value? : Operand → Option Binary64) (r : Rule) : Bool :=
  (r.eval? value?).getD false

/-- A rule is undefined exactly if one of its operands is. -/
theorem Rule.eval?_isSome_iff (value? : Operand → Option Binary64) (r : Rule) :
    (r.eval? value?).isSome = true ↔ ∀ x ∈ r.operands, (value? x).isSome = true := by
  induction r with
  | compare op l r =>
    cases hl : value? l <;> cases hr : value? r <;> simp [eval?, operands, hl, hr]
  | combine op l r ihl ihr =>
    have split : (∀ x ∈ (Rule.combine op l r).operands, (value? x).isSome = true) ↔
        (l.eval? value?).isSome = true ∧ (r.eval? value?).isSome = true := by
      rw [ihl, ihr]
      simp only [operands, List.mem_append]
      exact ⟨fun h => ⟨fun x hx => h x (.inl hx), fun x hx => h x (.inr hx)⟩,
        fun h x hx => hx.elim (h.1 x) (h.2 x)⟩
    rw [split]
    cases hl : l.eval? value? <;> cases hr : r.eval? value? <;> simp [eval?, hl, hr]

end MarketRules
