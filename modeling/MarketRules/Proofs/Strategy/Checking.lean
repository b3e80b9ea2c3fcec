import MarketRules.Proofs.Language.RoundTrip
import MarketRules.Proofs.Strategy.FirstOccurrences

/-!
# What compiles can be run

A strategy that comes from a text passes the check.  The parser counts the
comparisons of a rule while it reads it, and the check counts them again in the
finished rule, from which parentheses are gone and in which chains are trees.
Both counts are that of the parse tree, so the bound of the parser is the bound
of the check.  A period is never zero, since no number stands for the period zero.
-/

namespace MarketRules

/-! ## The check -/

namespace Strategy

/-- Rules that are small enough and periods that are positive pass the check. -/
theorem fault?_eq_none {s : Strategy}
    (small : ∀ clause, (s.rule clause).comparisonCount ≤ Rule.maxComparisons)
    (positive : ∀ call ∈ s.indicators, 0 < call.period) : s.fault? = none := by
  have found : s.indicators.find? (·.period = 0) = none := by
    rw [List.find?_eq_none]
    intro call member
    simpa using Nat.ne_of_gt (positive call member)
  have entry : ¬ Rule.maxComparisons < s.entry.comparisonCount := Nat.not_lt.mpr (small .entry)
  have exit : ¬ Rule.maxComparisons < s.exit.comparisonCount := Nat.not_lt.mpr (small .exit)
  rw [fault?, if_neg entry, if_neg exit, found]
  rfl

/-- The check changes nothing and accepts every strategy that can be run. -/
theorem check_eq_ok_iff {s : Strategy} {c : CheckedStrategy} :
    s.check = .ok c ↔ c.toStrategy = s := by
  constructor
  · intro checked
    unfold check at checked
    split at checked
    · cases checked
    · cases checked
      rfl
  · rintro rfl
    have sound := fault?_eq_none c.count_le c.period_pos
    unfold check
    split
    · next fault =>
      rw [sound] at fault
      cases fault
    · rfl

/-- The indicators of a strategy are the calls of its rules. -/
theorem mem_indicators {s : Strategy} {call : IndicatorCall} :
    call ∈ s.indicators ↔ ∃ clause, call ∈ (s.rule clause).calls := by
  rw [indicators_eq_foldl, IndicatorCall.mem_foldl_addNew, List.mem_append]
  constructor
  · rintro (none_found | entry | exit)
    · cases none_found
    · exact ⟨.entry, entry⟩
    · exact ⟨.exit, exit⟩
  · rintro ⟨clause, member⟩
    cases clause with
    | entry => exact .inr (.inl member)
    | exit => exact .inr (.inr member)

end Strategy

/-- The calls of a rule are those among its operands. -/
theorem Rule.mem_calls {r : Rule} {call : IndicatorCall} :
    call ∈ r.calls ↔ Operand.indicator call ∈ r.operands := by
  rw [calls, List.mem_filterMap]
  constructor
  · rintro ⟨x, member, isCall⟩
    cases x with
    | indicator found =>
      cases isCall
      exact member
    | value => cases isCall
    | field => cases isCall
  · intro member
    exact ⟨_, member, rfl⟩

/-! ## Operands within bounds -/

/-- A constant is finite, and an indicator looks at a number of bars that fits in 64
bits and is not zero. -/
def Operand.Bounded : Operand → Prop
  | .value x => x.isFinite = true
  | .field _ => True
  | .indicator call => 1 ≤ call.period ∧ call.period ≤ 2 ^ 64 - 1

/-- A number that is a period is not zero and fits in 64 bits. -/
theorem periodOf?_bounds {x : Binary64} {n : Nat} (period : periodOf? x = some n) :
    1 ≤ n ∧ n ≤ maxPeriod := by
  obtain ⟨whole, -, rounded⟩ := Option.bind_eq_some_iff.mp period
  have positive : 1 ≤ maxPeriod := by decide
  split at rounded
  · cases rounded
    omega
  · cases rounded

theorem Operand.Readable.bounded {x : Operand} (readable : x.Readable) : x.Bounded := by
  cases x with
  | value => exact readable
  | field => trivial
  | indicator call =>
    obtain ⟨number, period⟩ := readable
    exact periodOf?_bounds period

/-- Operands that can be read back are within bounds. -/
theorem Rule.Readable.bounded {r : Rule} (readable : r.Readable) :
    ∀ x ∈ r.operands, x.Bounded := by
  induction r with
  | compare op left right =>
    intro x member
    simp only [operands, List.mem_cons, List.not_mem_nil, or_false] at member
    rcases member with rfl | rfl
    · exact readable.1.bounded
    · exact readable.2.bounded
  | combine op left right ihLeft ihRight =>
    intro x member
    rcases List.mem_append.mp member with inLeft | inRight
    · exact ihLeft readable.1 x inLeft
    · exact ihRight readable.2 x inRight

/-! ## Levels -/

/-- The number of levels of a rule. -/
def Rule.levels : Rule → Nat
  | .compare .. => 1
  | .combine _ l r => max l.levels r.levels + 1

/-- A rule has no more levels than comparisons. -/
theorem Rule.levels_le_comparisonCount (r : Rule) : r.levels ≤ r.comparisonCount := by
  induction r with
  | compare op left right => exact Nat.le_of_eq (comparisonCount_compare op left right).symm
  | combine op left right ihLeft ihRight =>
    have leftPos := left.comparisonCount_pos
    have rightPos := right.comparisonCount_pos
    rw [levels, comparisonCount_combine]
    omega

/-- A rule of the size and with the operands that a text can give it. -/
structure Rule.WithinBounds (r : Rule) : Prop where
  count_pos : 1 ≤ r.comparisonCount
  count_le : r.comparisonCount ≤ 256
  levels_le : r.levels ≤ r.comparisonCount
  bounded : ∀ x ∈ r.operands, x.Bounded

theorem Rule.BuiltWithin.withinBounds {r : Rule} {nesting count : Nat}
    (built : r.BuiltWithin nesting count) (allowed : count ≤ Rule.maxComparisons) :
    r.WithinBounds where
  count_pos := r.comparisonCount_pos
  count_le := Nat.le_trans (Nat.le_of_eq built.count_eq) allowed
  levels_le := r.levels_le_comparisonCount
  bounded := built.readable.bounded

/-! ## The counter of the parser -/

/-- The states in which the two rules of a text end: the one in front of the label of
the exit rule, and the one behind the last token. -/
def RulesEnd (ts : List Token) (entry exit : RuleState) : Prop :=
  ∃ (entryLabel exitLabel : Token) (entryTree : RuleTree) (front back : List Token),
    ts = front ++ exitLabel :: back ∧ exitLabel.kind = .exitLabel ∧
      front.foldlM ParseState.step .start = .ok (.entry entryLabel entry) ∧
      ts.foldlM ParseState.step .start = .ok (.exit entryLabel entryTree exitLabel exit)

/-- At the end of a rule the counter of the parser stands at the number of its
comparisons. -/
theorem StrategyTree.rulesEnd_of_ofTokens {s : TokenStream} {tree : StrategyTree}
    (parsed : ofTokens s = .ok tree) :
    ∃ entry exit, RulesEnd s.tokens entry exit ∧
      entry.comparisons = tree.entry.comparisonCount ∧
      exit.comparisons = tree.exit.comparisonCount := by
  obtain ⟨wellFormed, read, noBreach⟩ := ofTokens_eq_ok_iff.mp parsed
  have noEntryBreach : tree.entry.breaches 0 0 = [] := (List.append_eq_nil_iff.mp noBreach).1
  refine ⟨tree.entry.endState, tree.exit.endState, ⟨tree.entryLabel, tree.exitLabel, tree.entry,
    tree.entryLabel :: tree.entry.tokens, tree.exit.tokens, read.symm, wellFormed.2.2.1, ?_, ?_⟩,
    Nat.zero_add _, Nat.zero_add _⟩
  · rw [wellFormed.foldlM_entry, noEntryBreach]
    rfl
  · rw [← read, wellFormed.foldlM_tokens, noBreach]
    rfl

/-! ## The warm-up -/

theorem foldl_max_le_iff {ns : List Nat} {start bound : Nat} :
    ns.foldl max start ≤ bound ↔ start ≤ bound ∧ ∀ n ∈ ns, n ≤ bound := by
  induction ns generalizing start with
  | nil => simp
  | cons m ns ih =>
    rw [List.foldl_cons, ih, Nat.max_le, List.forall_mem_cons, and_assoc]

/-- The maximum is one of the numbers or the start. -/
theorem foldl_max_mem (ns : List Nat) (start : Nat) : ns.foldl max start ∈ start :: ns := by
  induction ns generalizing start with
  | nil => exact List.mem_singleton.mpr rfl
  | cons m ns ih =>
    rw [List.foldl_cons]
    rcases List.mem_cons.mp (ih (max start m)) with atStart | later
    · rw [atStart]
      rcases Nat.le_total start m with below | above
      · rw [Nat.max_eq_right below]
        exact List.mem_cons_of_mem _ List.mem_cons_self
      · rw [Nat.max_eq_left above]
        exact List.mem_cons_self
    · exact List.mem_cons_of_mem _ (List.mem_cons_of_mem _ later)

namespace CheckedStrategy

/-- No indicator has to see more bars than the warm-up and one. -/
theorem period_le_warmup (s : CheckedStrategy) :
    ∀ call ∈ s.indicators, call.period ≤ s.warmup + 1 := by
  intro call member
  have below : call.period - 1 ≤ s.warmup :=
    (foldl_max_le_iff.mp (Nat.le_refl s.warmup)).2 _ (List.mem_map_of_mem member)
  omega

/-- If there are indicators, one of them has to see as many bars as that.  If the warm-up is
zero every period is one. -/
theorem exists_period_eq_warmup (s : CheckedStrategy) (some_call : s.indicators ≠ []) :
    ∃ call ∈ s.indicators, call.period = s.warmup + 1 := by
  rcases List.mem_cons.mp (foldl_max_mem (s.indicators.map (·.period - 1)) 0) with zero | found
  · obtain ⟨call, others, listed⟩ := List.exists_cons_of_ne_nil some_call
    have member : call ∈ s.indicators := by simp [listed]
    have positive := s.period_pos call member
    have small := s.period_le_warmup call member
    have noWarmup : s.warmup = 0 := zero
    exact ⟨call, member, by omega⟩
  · obtain ⟨call, member, longest⟩ := List.mem_map.mp found
    have positive := s.period_pos call member
    have attained : call.period - 1 = s.warmup := longest
    exact ⟨call, member, by omega⟩

/-! ## Texts -/

/-- A strategy whose rules keep within their bounds passes the check. -/
theorem exists_of_withinBounds {s : Strategy} (within : ∀ clause, (s.rule clause).WithinBounds) :
    ∃ c : CheckedStrategy, c.toStrategy = s := by
  refine ⟨⟨s, fun clause => (within clause).count_le, ?_⟩, rfl⟩
  intro call member
  obtain ⟨clause, called⟩ := Strategy.mem_indicators.mp member
  exact ((within clause).bounded _ (Rule.mem_calls.mp called)).1

theorem ofStrategy_eq_ok_iff {s : Strategy} {c : CheckedStrategy} :
    ofStrategy s = .ok c ↔ c.toStrategy = s := by
  rw [← Strategy.check_eq_ok_iff, ofStrategy]
  constructor
  · exact of_mapError_eq_ok
  · intro checked
    rw [checked]
    rfl

/-- A text gives a checked strategy exactly if it gives the strategy. -/
theorem ofText_eq_ok_iff {text : String} {c : CheckedStrategy} :
    ofText text = .ok c ↔ Strategy.ofText text = .ok c.toStrategy := by
  constructor
  · intro compiled
    obtain ⟨s, built, checked⟩ := exists_of_bind_eq_ok compiled
    rw [built, ofStrategy_eq_ok_iff.mp checked]
  · intro built
    rw [ofText, built]
    exact ofStrategy_eq_ok_iff.mpr rfl

end CheckedStrategy

/-- The rules that a text gives keep within their bounds. -/
theorem Strategy.withinBounds_of_ofText {text : String} {s : Strategy}
    (compiled : ofText text = .ok s) : ∀ clause, (s.rule clause).WithinBounds := by
  obtain ⟨tree, parsed, built⟩ := ofText_eq_ok_iff.mp compiled
  obtain ⟨builtEntry, builtExit⟩ := StrategyTree.build_rules built
  obtain ⟨entryAllowed, exitAllowed⟩ := StrategyTree.allowed_of_ofText parsed
  intro clause
  cases clause with
  | entry => exact (RuleTree.builtWithin builtEntry).withinBounds entryAllowed.2
  | exit => exact (RuleTree.builtWithin builtExit).withinBounds exitAllowed.2

namespace CheckedStrategy

/-- The strategy that a text gives passes the check and is not changed by it. -/
theorem exists_of_ofText {text : String} {s : Strategy} (compiled : Strategy.ofText text = .ok s) :
    ∃ c : CheckedStrategy, ofText text = .ok c ∧ c.toStrategy = s := by
  obtain ⟨c, rfl⟩ := exists_of_withinBounds (Strategy.withinBounds_of_ofText compiled)
  exact ⟨c, ofText_eq_ok_iff.mpr compiled, rfl⟩

/-- The check refuses no text that gives a strategy. -/
theorem exists_ofText_iff_exists_strategy {text : String} :
    (∃ c, ofText text = .ok c) ↔ ∃ s, Strategy.ofText text = .ok s := by
  constructor
  · rintro ⟨c, checked⟩
    exact ⟨c.toStrategy, ofText_eq_ok_iff.mp checked⟩
  · rintro ⟨s, compiled⟩
    obtain ⟨c, checked, -⟩ := exists_of_ofText compiled
    exact ⟨c, checked⟩

/-- A text that compiles gives a strategy that can be run, and the same one.  Its
rules have as many comparisons as the parser counted, and its warm-up is exactly
one bar less than the longest period. -/
theorem ofText_accepts_compiled (text : String) :
    ((∃ c, ofText text = .ok c) ↔ ∃ s, Strategy.ofText text = .ok s) ∧
    ∀ s, Strategy.ofText text = .ok s →
      (∀ clause, (s.rule clause).WithinBounds) ∧
      (∃ stream entry exit, TokenStream.ofText text = .ok stream ∧
        RulesEnd stream.tokens entry exit ∧ entry.comparisons = s.entry.comparisonCount ∧
        exit.comparisons = s.exit.comparisonCount) ∧
      ∃ c : CheckedStrategy, ofText text = .ok c ∧ c.toStrategy = s ∧
        (∀ call ∈ s.indicators, call.period ≤ c.warmup + 1) ∧
        (s.indicators ≠ [] → ∃ call ∈ s.indicators, call.period = c.warmup + 1) := by
  refine ⟨exists_ofText_iff_exists_strategy, fun s compiled => ?_⟩
  refine ⟨Strategy.withinBounds_of_ofText compiled, ?_, ?_⟩
  · obtain ⟨tree, parsed, built⟩ := Strategy.ofText_eq_ok_iff.mp compiled
    obtain ⟨builtEntry, builtExit⟩ := StrategyTree.build_rules built
    obtain ⟨stream, tokenized, read⟩ := StrategyTree.exists_stream_of_ofText parsed
    obtain ⟨entry, exit, ends, entryCount, exitCount⟩ := StrategyTree.rulesEnd_of_ofTokens read
    exact ⟨stream, entry, exit, tokenized, ends,
      entryCount.trans (RuleTree.builtWithin builtEntry).count_eq.symm,
      exitCount.trans (RuleTree.builtWithin builtExit).count_eq.symm⟩
  · obtain ⟨c, checked, rfl⟩ := exists_of_ofText compiled
    exact ⟨c, checked, rfl, c.period_le_warmup, c.exists_period_eq_warmup⟩

/-- A strategy with parentheses, an indicator in each rule and numbers that are not written
as they are printed. -/
def groupedText : String :=
  "ENTRY: (close > -0 and (open < SMA(close, 3) or 1e-3 EQ 2.50)) EXIT: SMA(low, 2e1) <= 1"

/-- The grouped text gives a strategy, which passes the check. -/
theorem grouped_text_is_accepted : ∃ s c,
    Strategy.ofText groupedText = .ok s ∧ ofText groupedText = .ok c ∧ c.toStrategy = s := by
  have compiles : (Strategy.ofText groupedText).toOption.isSome = true := by
    decide +kernel
  cases compiled : Strategy.ofText groupedText with
  | error e =>
    rw [compiled] at compiles
    cases compiles
  | ok s =>
    obtain ⟨-, -, c, checked, same, -⟩ := (ofText_accepts_compiled groupedText).2 s compiled
    exact ⟨s, c, rfl, checked, same⟩

end CheckedStrategy

end MarketRules
