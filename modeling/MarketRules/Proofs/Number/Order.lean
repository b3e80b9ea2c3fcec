import MarketRules.Number.Binary64

/-!
# The order of binary64 numbers

Numbers that are no NaN are totally preordered by `le`: the only two different
numbers that compare equal are the zeros.  `max` and `min` follow this order and pass
over a NaN.  So a list has one largest and one smallest number up to the sign of zero,
and a search that goes through the list finds them in any order (`Picks.foldl_perm`).
-/

namespace MarketRules.Binary64

variable {x y z : Binary64}

theorem isNaN_zero : (0 : Binary64).isNaN = false := by decide +kernel

/-- A quotient is rounded to a number or to an infinity. -/
theorem isNaN_ofSteps (negative : Bool) (num den : Nat) :
    (ofSteps negative num den).isNaN = false := by
  unfold ofSteps
  repeat' split
  all_goals rfl

theorem isNaN_abs (x : Binary64) : x.abs.isNaN = x.isNaN := by
  cases x <;> rfl

/-- A difference of two numbers is a NaN only if both are the same infinity. -/
theorem isNaN_sub (left : x.isNaN = false) (right : y.isNaN = false)
    (apart : ∀ negative, ¬(x = .infinite negative ∧ y = .infinite negative)) :
    (x - y).isNaN = false := by
  show (x.add y.neg).isNaN = false
  cases x with
  | nan => cases left
  | infinite n =>
    cases y with
    | nan => cases right
    | infinite n' =>
      have differ : n = !n' := by
        cases n <;> cases n' <;> simp at apart ⊢
      simp [add, neg, differ, isNaN]
    | finite n' m' e' h' => rfl
  | finite n m e h =>
    cases y with
    | nan => cases right
    | infinite n' => rfl
    | finite n' m' e' h' =>
      simp only [add, neg]
      split
      · rfl
      · exact isNaN_ofSteps ..

/-- Of two numbers, one is less than the other exactly if that is not at most it. -/
theorem lt_eq_not_le (left : x.isNaN = false) (right : y.isNaN = false) :
    x.lt y = !y.le x := by
  cases x <;> cases y <;> simp [lt, le, isNaN] at left right ⊢
  next n n' => cases n <;> cases n' <;> rfl
  next => grind

theorem le_refl (number : x.isNaN = false) : x.le x = true := by
  cases x with
  | nan => cases number
  | infinite n => cases n <;> rfl
  | finite n m e h => simp [le]

theorem isNaN_eq_false_of_lt (h : x.lt y = true) : x.isNaN = false ∧ y.isNaN = false := by
  cases x <;> cases y <;> simp [lt, isNaN] at h ⊢

theorem le_of_lt (h : x.lt y = true) : x.le y = true := by
  cases x <;> cases y <;> simp [lt, le] at h ⊢
  · exact .inl h.1
  · exact h
  · exact h
  · exact Int.le_of_lt h

/-- The order is transitive, and what is not a number is in no relation. -/
theorem le_trans (first : x.le y = true) (second : y.le z = true) : x.le z = true := by
  cases x <;> cases y <;> cases z <;> simp [le] at first second ⊢ <;> grind

theorem lt_of_lt_of_le (first : x.lt y = true) (second : y.le z = true) : x.lt z = true := by
  cases x <;> cases y <;> cases z <;> simp [lt, le] at first second ⊢ <;> grind

theorem isNaN_max (number : x.isNaN = false) : (x.max y).isNaN = false := by
  rw [max, number]
  split
  · cases ‹false = true›
  · split
    · exact (isNaN_eq_false_of_lt ‹_›).2
    · exact number

/-- The larger of two is not below the first, if this is a number. -/
theorem le_max_left (number : x.isNaN = false) : x.le (x.max y) = true := by
  rw [max, number]
  split
  · cases ‹false = true›
  · split
    · exact le_of_lt ‹_›
    · exact le_refl number

theorem le_max_right (number : y.isNaN = false) : y.le (x.max y) = true := by
  rw [max]
  split
  · exact le_refl number
  · next left =>
    split
    · exact le_refl number
    · next notLess =>
      rw [lt_eq_not_le (by simpa using left) number] at notLess
      simpa using notLess

/-- What is not a number is passed over. -/
theorem max_eq_left_of_isNaN (number : x.isNaN = false) (isNaN : y.isNaN = true) : x.max y = x := by
  rw [max, number, if_neg Bool.false_ne_true, if_neg]
  intro less
  rw [(isNaN_eq_false_of_lt less).2] at isNaN
  cases isNaN

/-- The larger of two is one of them. -/
theorem max_eq_or (x y : Binary64) : x.max y = x ∨ x.max y = y := by
  rw [max]
  split
  · exact .inr rfl
  · split
    · exact .inr rfl
    · exact .inl rfl

theorem min_le_left (number : x.isNaN = false) : (x.min y).le x = true := by
  rw [min, number]
  split
  · cases ‹false = true›
  · split
    · exact le_of_lt ‹_›
    · exact le_refl number

theorem min_le_right (number : y.isNaN = false) : (x.min y).le y = true := by
  rw [min]
  split
  · exact le_refl number
  · next left =>
    split
    · exact le_refl number
    · next notLess =>
      rw [lt_eq_not_le number (by simpa using left)] at notLess
      simpa using notLess

/-- The smaller of two is one of them. -/
theorem min_eq_or (x y : Binary64) : x.min y = x ∨ x.min y = y := by
  rw [min]
  split
  · exact .inr rfl
  · split
    · exact .inr rfl
    · exact .inl rfl

/-! ## Extremes of a list -/

/-- Nothing but itself is below the negative infinity. -/
theorem eq_of_le_infinite (le : x.le (.infinite true) = true) : x = .infinite true := by
  cases x with
  | nan => cases le
  | infinite n => cases n <;> first | rfl | cases le
  | finite => cases le

theorem eq_of_infinite_le (le : (infinite false).le x = true) : x = .infinite false := by
  cases x with
  | nan => cases le
  | infinite n => cases n <;> first | rfl | cases le
  | finite => cases le

/-- `pick` takes the one of two numbers that is further up in the order `below`, and `least`
is at the bottom of this order. -/
structure Picks (pick : Binary64 → Binary64 → Binary64) (below : Binary64 → Binary64 → Bool)
    (least : Binary64) : Prop where
  either : ∀ x y, pick x y = x ∨ pick x y = y
  left : ∀ {x} y, x.isNaN = false → below x (pick x y) = true
  right : ∀ x {y}, y.isNaN = false → below y (pick x y) = true
  refl : ∀ {x}, x.isNaN = false → below x x = true
  trans : ∀ {x y z}, below x y = true → below y z = true → below x z = true
  sameValue : ∀ {x y}, below x y = true → below y x = true → x.sameValue y = true
  isNaN : least.isNaN = false
  eq_least : ∀ {x}, below x least = true → x = least

theorem picks_max : Picks max le (.infinite true) where
  either := max_eq_or
  left _ := le_max_left
  right _ _ := le_max_right
  refl := le_refl
  trans := le_trans
  sameValue first second := Bool.and_eq_true_iff.mpr ⟨first, second⟩
  isNaN := rfl
  eq_least := eq_of_le_infinite

theorem picks_min : Picks min (fun x y => y.le x) (.infinite false) where
  either := min_eq_or
  left _ := min_le_left
  right _ _ := min_le_right
  refl := le_refl
  trans first second := le_trans second first
  sameValue first second := Bool.and_eq_true_iff.mpr ⟨second, first⟩
  isNaN := rfl
  eq_least := eq_of_infinite_le

namespace Picks

variable {pick : Binary64 → Binary64 → Binary64} {below : Binary64 → Binary64 → Bool}
  {least : Binary64} {xs ys : List Binary64}

/-- A fold that picks takes one of the numbers, with all others on the same side of it. -/
theorem foldl_from (picks : Picks pick below least) :
    ∀ {start : Binary64}, (∀ x ∈ start :: xs, x.isNaN = false) →
      xs.foldl pick start ∈ start :: xs ∧
        ∀ x ∈ start :: xs, below x (xs.foldl pick start) = true := by
  induction xs with
  | nil =>
    intro start numbers
    refine ⟨List.mem_singleton_self start, fun x member => ?_⟩
    rw [List.mem_singleton.mp member]
    exact picks.refl (numbers start List.mem_cons_self)
  | cons x xs ih =>
    intro start numbers
    obtain ⟨first, later⟩ := List.forall_mem_cons.mp numbers
    obtain ⟨second, rest⟩ := List.forall_mem_cons.mp later
    have number : (pick start x).isNaN = false := by
      rcases picks.either start x with same | same <;> rw [same] <;> assumption
    obtain ⟨attained, bounds⟩ := ih (List.forall_mem_cons.mpr ⟨number, rest⟩)
    obtain ⟨here, there⟩ := List.forall_mem_cons.mp bounds
    rw [List.foldl_cons]
    constructor
    · rcases List.mem_cons.mp attained with now | later
      · rw [now]
        rcases picks.either start x with same | same <;> rw [same] <;> simp
      · exact List.mem_cons_of_mem _ (List.mem_cons_of_mem _ later)
    · exact List.forall_mem_cons.mpr ⟨picks.trans (picks.left x first) here,
        List.forall_mem_cons.mpr ⟨picks.trans (picks.right start second) here, there⟩⟩

/-- The search ends with a member of the list that no other is above. -/
theorem foldl_extreme (picks : Picks pick below least) (numbers : ∀ x ∈ xs, x.isNaN = false)
    (nonempty : xs ≠ []) :
    xs.foldl pick least ∈ xs ∧ ∀ x ∈ xs, below x (xs.foldl pick least) = true := by
  obtain ⟨attained, bounds⟩ := picks.foldl_from (List.forall_mem_cons.mpr ⟨picks.isNaN, numbers⟩)
  have there := (List.forall_mem_cons.mp bounds).2
  refine ⟨?_, there⟩
  rcases List.mem_cons.mp attained with untouched | inside
  · obtain ⟨x, xs, rfl⟩ := List.exists_cons_of_ne_nil nonempty
    have passed := there x List.mem_cons_self
    rw [untouched] at passed ⊢
    rw [picks.eq_least passed]
    exact List.mem_cons_self
  · exact inside

/-- In another order of the list it ends with a number that compares equal. -/
theorem foldl_perm (picks : Picks pick below least) (numbers : ∀ x ∈ xs, x.isNaN = false)
    (nonempty : xs ≠ []) (perm : xs.Perm ys) :
    (xs.foldl pick least).sameValue (ys.foldl pick least) = true := by
  obtain ⟨attained, bounds⟩ := picks.foldl_extreme numbers nonempty
  have numbers' : ∀ y ∈ ys, y.isNaN = false := fun y member => numbers y (perm.mem_iff.mpr member)
  have nonempty' : ys ≠ [] := fun empty => nonempty (empty ▸ perm).eq_nil
  obtain ⟨attained', bounds'⟩ := picks.foldl_extreme numbers' nonempty'
  exact picks.sameValue (bounds' _ (perm.mem_iff.mp attained))
    (bounds _ (perm.mem_iff.mpr attained'))

end Picks

end MarketRules.Binary64
