import Mathlib.Data.List.Basic
import MarketRules.Strategy.Basic

/-!
# Indicators in the order in which they occur

The calls of a strategy are collected twice over.  A walk through each rule passes on the
calls that it has found, and the calls of the exit rule are then put behind those of the
entry rule.  Both leave out what was found before, and together they do what one pass over
all operands does (`Strategy.indicators_eq_foldl`).

`Listed` is the invariant of that pass: the calls found so far are those of the operands read
so far, each once and in the order in which they first occur.  One operand moves it forward
(`Listed.skip`, `Listed.addNew`), and a run of operands follows by induction.
-/

namespace MarketRules

/-! ## One list of calls -/

namespace IndicatorCall

variable {found : List IndicatorCall} {call c : IndicatorCall}

theorem addNew_of_mem (member : call ∈ found) : addNew found call = found := if_pos member

theorem addNew_of_notMem (new : call ∉ found) : addNew found call = found ++ [call] := if_neg new

theorem mem_addNew : c ∈ addNew found call ↔ c ∈ found ∨ c = call := by
  by_cases member : call ∈ found
  · rw [addNew_of_mem member]
    constructor
    · exact .inl
    · rintro (old | rfl)
      · exact old
      · exact member
  · rw [addNew_of_notMem member, List.mem_append, List.mem_singleton]

/-- What is collected are the calls and what was there before. -/
theorem mem_foldl_addNew {calls : List IndicatorCall} :
    c ∈ calls.foldl addNew found ↔ c ∈ found ∨ c ∈ calls := by
  induction calls generalizing found with
  | nil => simp
  | cons call calls ih => rw [List.foldl_cons, ih, mem_addNew, List.mem_cons, or_assoc]

/-- To add one more call to some calls and then add all of them is to add them first. -/
theorem foldl_addNew_addNew (known : List IndicatorCall) :
    (addNew known call).foldl addNew found = addNew (known.foldl addNew found) call := by
  by_cases member : call ∈ known
  · rw [addNew_of_mem member, addNew_of_mem (mem_foldl_addNew.mpr (.inr member))]
  · rw [addNew_of_notMem member, List.foldl_append, List.foldl_cons, List.foldl_nil]

/-- Repetitions that were left out before make no difference. -/
theorem foldl_addNew_foldl (known calls : List IndicatorCall) :
    (calls.foldl addNew known).foldl addNew found =
      calls.foldl addNew (known.foldl addNew found) := by
  induction calls generalizing known with
  | nil => rfl
  | cons call calls ih => rw [List.foldl_cons, ih, foldl_addNew_addNew, List.foldl_cons]

end IndicatorCall

open IndicatorCall (addNew)

theorem Rule.calls_combine (op : LogicOp) (l r : Rule) :
    (Rule.combine op l r).calls = l.calls ++ r.calls := by
  rw [calls, operands, List.filterMap_append]
  rfl

/-- The walk through a rule adds its calls from left to right. -/
theorem Rule.collect_eq_foldl (r : Rule) (found : List IndicatorCall) :
    r.collect found = r.calls.foldl addNew found := by
  induction r generalizing found with
  | compare op l r => rfl
  | combine op l r ihl ihr => rw [collect, ihr, ihl, calls_combine, List.foldl_append]

/-- The calls of the exit rule are collected behind those of the entry rule. -/
theorem Strategy.indicators_eq_foldl (s : Strategy) :
    s.indicators = (s.entry.calls ++ s.exit.calls).foldl addNew [] := by
  rw [indicators, Rule.indicators, Rule.indicators, Rule.collect_eq_foldl, Rule.collect_eq_foldl,
    IndicatorCall.foldl_addNew_foldl, List.foldl_append, List.foldl_nil]

/-! ## The order of the operands -/

/-- `found` lists the indicator calls among some operands, in the order in which they first
occur there. -/
structure Listed (found : List IndicatorCall) (operands : List Operand) : Prop where
  mem_iff : ∀ call, call ∈ found ↔ Operand.indicator call ∈ operands
  ordered : found.Pairwise fun c d =>
    operands.idxOf (.indicator c) < operands.idxOf (.indicator d)

namespace Listed

variable {found : List IndicatorCall} {operands : List Operand}

theorem nil : Listed [] [] := ⟨by simp, .nil⟩

/-- Behind the operands that were read the calls keep their places. -/
theorem ordered_append (listed : Listed found operands) (later : List Operand) :
    found.Pairwise fun c d =>
      (operands ++ later).idxOf (.indicator c) < (operands ++ later).idxOf (.indicator d) := by
  refine listed.ordered.imp_of_mem fun {c d} first second before => ?_
  rw [List.idxOf_append_of_mem ((listed.mem_iff c).mp first),
    List.idxOf_append_of_mem ((listed.mem_iff d).mp second)]
  exact before

/-- An operand that is no call keeps the list. -/
theorem skip {x : Operand} (noCall : x.call? = none) (listed : Listed found operands) :
    Listed found (operands ++ [x]) := by
  refine ⟨fun call => ?_, listed.ordered_append [x]⟩
  have other : Operand.indicator call ≠ x := by
    rintro rfl
    cases noCall
  simp [listed.mem_iff, other]

/-- One more call keeps the list.  If it is new it stands behind all operands, and so behind
the calls that were listed. -/
theorem addNew (call : IndicatorCall) (listed : Listed found operands) :
    Listed (addNew found call) (operands ++ [.indicator call]) := by
  refine ⟨fun c => ?_, ?_⟩
  · simp [IndicatorCall.mem_addNew, listed.mem_iff]
  · have kept := listed.ordered_append [.indicator call]
    by_cases member : call ∈ found
    · rwa [IndicatorCall.addNew_of_mem member]
    · rw [IndicatorCall.addNew_of_notMem member]
      refine List.pairwise_append.mpr ⟨kept, List.pairwise_singleton .., fun c old d new => ?_⟩
      obtain rfl := List.mem_singleton.mp new
      have inside := (listed.mem_iff c).mp old
      have outside : Operand.indicator d ∉ operands := mt (listed.mem_iff d).mpr member
      rw [List.idxOf_append_of_mem inside, List.idxOf_append_of_notMem outside]
      exact Nat.lt_add_right _ (List.idxOf_lt_length_of_mem inside)

/-- The calls of more operands are added one by one. -/
theorem foldl (listed : Listed found operands) (xs : List Operand) :
    Listed ((xs.filterMap Operand.call?).foldl IndicatorCall.addNew found) (operands ++ xs) := by
  induction xs generalizing found operands with
  | nil => simpa using listed
  | cons x xs ih =>
    rw [List.append_cons]
    cases isCall : x.call? with
    | none =>
      rw [List.filterMap_cons_none isCall]
      exact ih (listed.skip isCall)
    | some call =>
      obtain rfl : x = .indicator call := by
        cases x <;> cases isCall
        rfl
      rw [List.filterMap_cons_some isCall]
      exact ih (listed.addNew call)

/-- No call is listed twice. -/
theorem nodup (listed : Listed found operands) : found.Nodup := by
  refine listed.ordered.imp fun {c d} before same => ?_
  rw [same] at before
  exact Nat.lt_irrefl _ before

end Listed

/-- The indicators of a strategy are its calls in the order of their first occurrences. -/
theorem Strategy.listed_indicators (s : Strategy) :
    Listed s.indicators (s.entry.operands ++ s.exit.operands) := by
  have listed := Listed.nil.foldl (s.entry.operands ++ s.exit.operands)
  rw [List.filterMap_append, List.nil_append] at listed
  rw [indicators_eq_foldl]
  exact listed

/-! ## Comparisons -/

/-- The number of leaves of a rule. -/
def Rule.leaves : Rule → Nat
  | .compare .. => 1
  | .combine _ l r => l.leaves + r.leaves

/-- The count with a stack is the number of leaves. -/
theorem Rule.comparisonCount_eq_leaves (r : Rule) : r.comparisonCount = r.leaves := by
  induction r with
  | compare op l r => exact comparisonCount_compare op l r
  | combine op l r ihl ihr => rw [comparisonCount_combine, ihl, ihr, leaves]

/-- The indicators of a strategy are the calls among the operands of both rules, each once and
in the order in which they first occur, and the comparisons of a rule are its leaves. -/
theorem Strategy.indicators_by_first_occurrence (s : Strategy) :
    (∀ call, call ∈ s.indicators ↔
      Operand.indicator call ∈ s.entry.operands ++ s.exit.operands) ∧
    s.indicators.Nodup ∧
    (s.indicators.Pairwise fun c d =>
      (s.entry.operands ++ s.exit.operands).idxOf (.indicator c) <
        (s.entry.operands ++ s.exit.operands).idxOf (.indicator d)) ∧
    ∀ r : Rule, r.comparisonCount = r.leaves :=
  have listed := s.listed_indicators
  ⟨listed.mem_iff, listed.nodup, listed.ordered, Rule.comparisonCount_eq_leaves⟩

end MarketRules
