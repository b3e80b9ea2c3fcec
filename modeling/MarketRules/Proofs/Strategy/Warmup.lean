import MarketRules.Proofs.Strategy.FreshSignals

/-!
# Warm-up

The warm-up of a strategy is taken over the indicators of both rules, but a rule waits
only for its own.  So each rule has a warm-up of its own, before which it never signals,
and the longer one of the two is the warm-up of the strategy.  The other rule can signal
before that is over (`entry_signal_within_warmup`).
-/

namespace MarketRules

/-! ## The warm-up of a rule -/

/-- The largest number of bars that an indicator of the rule has to see before it has a
value, the first such bar not counted. -/
def Rule.warmup (r : Rule) : Nat := (r.calls.map (·.period - 1)).foldl max 0

theorem longestWait_le_iff {calls : List IndicatorCall} {bound : Nat} :
    (calls.map (·.period - 1)).foldl max 0 ≤ bound ↔ ∀ call ∈ calls, call.period ≤ bound + 1 := by
  rw [foldl_max_le_iff, List.forall_mem_map]
  simp only [Nat.zero_le, true_and, Nat.sub_le_iff_le_add]

/-- Before the warm-up of a rule is over one of its indicators has not seen its period. -/
theorem Rule.exists_call_of_lt_warmup {r : Rule} {index : Nat} (early : index < r.warmup) :
    ∃ call ∈ r.calls, index + 1 < call.period := by
  have unseen : ¬ ∀ call ∈ r.calls, call.period ≤ index + 1 := fun all =>
    Nat.not_le.mpr early (longestWait_le_iff.mpr all)
  simpa using unseen

/-- The warm-up of a strategy is the longer one of those of its rules. -/
theorem CheckedStrategy.warmup_eq_max (s : CheckedStrategy) :
    s.warmup = max s.entry.warmup s.exit.warmup := by
  have same (bound : Nat) : s.warmup ≤ bound ↔ max s.entry.warmup s.exit.warmup ≤ bound := by
    rw [Nat.max_le, warmup, Rule.warmup, Rule.warmup, longestWait_le_iff, longestWait_le_iff,
      longestWait_le_iff]
    constructor
    · intro all
      exact ⟨fun call called => all call (Strategy.mem_indicators.mpr ⟨.entry, called⟩),
        fun call called => all call (Strategy.mem_indicators.mpr ⟨.exit, called⟩)⟩
    · rintro ⟨entry, exit⟩ call member
      obtain ⟨clause, called⟩ := Strategy.mem_indicators.mp member
      cases clause with
      | entry => exact entry call called
      | exit => exact exit call called
  exact Nat.le_antisymm ((same _).mpr (Nat.le_refl _)) ((same _).mp (Nat.le_refl _))

/-! ## Bars before it -/

namespace CheckedStrategy

/-- A rule does not hold at a bar at which one of its indicators has not seen its period. -/
theorem holdsAt_eq_false_of_unseen (s : CheckedStrategy) (bars : List Bar) {clause : Clause}
    (index : Fin bars.length) {call : IndicatorCall} (called : call ∈ (s.rule clause).calls)
    (unseen : index + 1 < call.period) :
    (s.rule clause).holdsAt bars (.ofCalls s.indicators bars) index = false := by
  have listed : ∀ other, Operand.indicator call = .indicator other → other ∈ s.indicators := by
    rintro other ⟨⟩
    exact Strategy.mem_indicators.mpr ⟨clause, called⟩
  have noValue : ¬ ((IndicatorTable.ofCalls s.indicators bars).operandAt? bars index
      (.indicator call)).isSome = true := by
    rw [IndicatorTable.isSome_operandAt?_iff s.period_pos bars index listed]
    exact fun seen => Nat.not_le.mpr unseen (seen call rfl)
  have undefined : ¬ ((s.rule clause).eval?
      ((IndicatorTable.ofCalls s.indicators bars).operandAt? bars index)).isSome = true := by
    rw [Rule.eval?_isSome_iff]
    exact fun all => noValue (all _ (Rule.mem_calls.mp called))
  rw [Rule.holdsAt, Rule.holds, Option.not_isSome_iff_eq_none.mp undefined]
  rfl

/-- No rule signals before its own warm-up is over, and the warm-up of the strategy is the
longer one of the two.  So only a rule with the shorter warm-up can signal before that of
the strategy is over. -/
theorem no_signal_before_warmup (s : CheckedStrategy) (bars : List Bar) (clause : Clause) :
    (∀ index < (s.rule clause).warmup, ((s.signals bars).column clause)[index]? ≠ some true) ∧
      s.warmup = max s.entry.warmup s.exit.warmup := by
  refine ⟨fun index early signalled => ?_, s.warmup_eq_max⟩
  obtain ⟨call, called, unseen⟩ := Rule.exists_call_of_lt_warmup early
  rw [column_signals, List.getElem?_map] at signalled
  obtain ⟨i, found, holds⟩ := Option.map_eq_some_iff.mp signalled
  obtain ⟨inside, same⟩ := List.getElem?_eq_some_iff.mp found
  rw [List.getElem_range] at same
  rw [List.length_range] at inside
  subst same
  rw [s.holdsAt_eq_false_of_unseen bars ⟨index, inside⟩ called unseen] at holds
  cases holds

/-- Buy above zero, and sell below the mean of three days. -/
def impatient : CheckedStrategy where
  entry := .compare .greater (.field .closing) (.value 0)
  exit := .compare .less (.field .closing) (.indicator ⟨.movingAverage, .closing, 3⟩)
  count_le := by rintro ⟨⟩ <;> decide
  period_pos := by decide

/-- An exit rule with an indicator waits for it, beside an entry rule without one. -/
theorem impatient_exit_waits :
    1 < (impatient.rule .exit).warmup ∧
      ((impatient.signals threeDays).column .exit)[1]? ≠ some true := by
  have within : 1 < (impatient.rule .exit).warmup := by decide
  exact ⟨within, (impatient.no_signal_before_warmup threeDays .exit).1 1 within⟩

/-- The entry rule, which has no indicator, signals before the warm-up that the exit rule
gives the strategy is over. -/
theorem entry_signal_within_warmup :
    0 < impatient.warmup ∧ ((impatient.signals threeDays).column .entry)[0]? = some true := by
  decide +kernel

end CheckedStrategy

end MarketRules
