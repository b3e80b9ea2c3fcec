import MarketRules.Proofs.Strategy.Checking
import MarketRules.Proofs.Strategy.SignalPrefix

/-!
# What signals mean

The signals of a strategy look up indicators in a table in which each different
call was computed once.  Here every call is computed afresh where it occurs, and a
rule has its ordinary meaning over the values of its operands.  Both agree: the
table has a series for each call of either rule (`valueAt?_ofCalls_of_mem`), a
series has a value at a bar exactly if the period fits in front of it
(`isSome_valueAt?_iff`), and a rule holds exactly if all its operands have values
and it is true of them (`holds_iff`).
-/

namespace MarketRules

/-! ## Where an average is defined -/

namespace MovingAverage

theorem length_runningSums (sum : Binary64) (xs : List Binary64)
    (outs : List (Option Binary64)) (enough : xs.length ≤ outs.length) :
    (runningSums sum xs outs).length = xs.length := by
  induction xs generalizing sum outs with
  | nil => rfl
  | cons x xs ih =>
    cases outs with
    | nil => cases enough
    | cons out outs =>
      simp only [runningSums, List.length_cons]
      rw [ih _ _ (Nat.le_of_succ_le_succ enough)]

theorem length_windowSums (period : Nat) (xs : List Binary64) :
    (windowSums period xs).length = xs.length := by
  apply length_runningSums
  simp [leaving]

/-- There is a mean for every bar, of some sum. -/
theorem getElem?_averages (period : Nat) (xs : List Binary64) {index : Nat}
    (inside : index < xs.length) :
    ∃ sum, (averages period xs)[index]? = some (average? period sum index) := by
  have inside' : index < (windowSums period xs).length := by
    rw [length_windowSums]
    exact inside
  refine ⟨(windowSums period xs)[index], ?_⟩
  rw [averages, List.getElem?_mapIdx, List.getElem?_eq_getElem inside']
  rfl

/-- A mean is defined as soon as its window is full. -/
theorem isSome_average?_iff {period : Nat} (positive : 0 < period) (sum : Binary64)
    (index : Nat) : (average? period sum index).isSome = true ↔ period ≤ index + 1 := by
  rw [average?]
  split
  · next defined => simp [defined.2]
  · next undefined =>
    simp only [Option.isSome_none, Bool.false_eq_true, false_iff]
    exact fun fits => undefined ⟨positive, fits⟩

end MovingAverage

/-! ## Calls computed afresh -/

namespace IndicatorCall

/-- A call has a value as soon as it has seen as many bars as its period. -/
theorem isSome_valueAt?_iff (c : IndicatorCall) (positive : 0 < c.period) (bars : List Bar)
    {index : Nat} (inside : index < bars.length) :
    ((c.series bars).valueAt? index).isSome = true ↔ c.period ≤ index + 1 := by
  obtain ⟨kind, field, period⟩ := c
  cases kind
  have column : index < (bars.map (·.value field)).length := by
    rw [List.length_map]
    exact inside
  obtain ⟨sum, found⟩ := MovingAverage.getElem?_averages period _ column
  rw [← MovingAverage.isSome_average?_iff positive sum index]
  simp [IndicatorSeries.valueAt?, series, valuesOn, List.getElem?_zipWith, found, inside]

/-- The value of a call at a bar, computed for this call alone.  It is zero where the
call has none. -/
def freshValue (c : IndicatorCall) (bars : List Bar) (index : Nat) : Binary64 :=
  ((c.series bars).valueAt? index).getD 0

/-- A call has its value exactly from the bar on at which it has seen its period. -/
theorem valueAt?_eq_freshValue_iff (c : IndicatorCall) (positive : 0 < c.period)
    (bars : List Bar) {index : Nat} (inside : index < bars.length) :
    (c.series bars).valueAt? index = some (c.freshValue bars index) ↔ c.period ≤ index + 1 := by
  rw [← c.isSome_valueAt?_iff positive bars inside, freshValue]
  cases (c.series bars).valueAt? index with
  | none => simp
  | some x => simp

end IndicatorCall

/-- The value of an operand at a bar, with every indicator computed afresh. -/
def Operand.freshValue (bars : List Bar) (index : Fin bars.length) : Operand → Binary64
  | .value x => x
  | .field f => (bars.get index).value f
  | .indicator call => call.freshValue bars index

/-! ## The ordinary meaning of a rule -/

/-- A comparison is true of two numbers.  Only equality has a tolerance, which is `10^-9`. -/
def CompareOp.Means (x y : Binary64) : CompareOp → Prop
  | .greater => y.lt x = true
  | .less => x.lt y = true
  | .atLeast => y.le x = true
  | .atMost => x.le y = true
  | .equal => (x - y).abs.lt (.ofRatio false 1 (10 ^ 9)) = true
  | .notEqual => (Binary64.ofRatio false 1 (10 ^ 9)).le (x - y).abs = true

/-- A rule is true of the values of its operands. -/
def Rule.Means (value : Operand → Binary64) : Rule → Prop
  | .compare op l r => op.Means (value l) (value r)
  | .combine .and l r => l.Means value ∧ r.Means value
  | .combine .or l r => l.Means value ∨ r.Means value

/-- Comparing two numbers decides what the comparison means. -/
theorem CompareOp.holds_iff_means (op : CompareOp) (x y : Binary64) :
    op.holds x y = true ↔ op.Means x y := by
  cases op <;> exact Iff.rfl

/-- Where all operands have values, a rule has the truth value that it means. -/
theorem Rule.exists_eval?_of_defined {value? : Operand → Option Binary64}
    {value : Operand → Binary64} (r : Rule)
    (defined : ∀ x ∈ r.operands, value? x = some (value x)) :
    ∃ b, r.eval? value? = some b ∧ (b = true ↔ r.Means value) := by
  induction r with
  | compare op left right =>
    have atLeft := defined left (by simp [operands])
    have atRight := defined right (by simp [operands])
    refine ⟨op.holds (value left) (value right), ?_, op.holds_iff_means _ _⟩
    rw [eval?, atLeft, atRight]
    rfl
  | combine op left right ihLeft ihRight =>
    obtain ⟨p, evalLeft, meansLeft⟩ :=
      ihLeft fun x member => defined x (List.mem_append_left _ member)
    obtain ⟨q, evalRight, meansRight⟩ :=
      ihRight fun x member => defined x (List.mem_append_right _ member)
    refine ⟨op.combine p q, ?_, ?_⟩
    · rw [eval?, evalLeft, evalRight]
      rfl
    · cases op with
      | and => rw [LogicOp.combine, Bool.and_eq_true, meansLeft, meansRight, Means]
      | or => rw [LogicOp.combine, Bool.or_eq_true, meansLeft, meansRight, Means]

/-- A rule holds exactly if all its operands have values and it is true of them. -/
theorem Rule.holds_iff {value? : Operand → Option Binary64} {value : Operand → Binary64}
    (r : Rule) (agrees : ∀ x ∈ r.operands, (value? x).isSome = true → value? x = some (value x)) :
    r.holds value? = true ↔
      (∀ x ∈ r.operands, (value? x).isSome = true) ∧ r.Means value := by
  by_cases defined : ∀ x ∈ r.operands, (value? x).isSome = true
  · obtain ⟨b, evaluated, means⟩ :=
      r.exists_eval?_of_defined fun x member => agrees x member (defined x member)
    rw [holds, evaluated, Option.getD_some, means]
    exact (and_iff_right defined).symm
  · have undefined : r.eval? value? = none := by
      rw [← Option.not_isSome_iff_eq_none, r.eval?_isSome_iff]
      exact defined
    rw [holds, undefined]
    simp [defined]

/-! ## The table -/

namespace IndicatorTable

/-- The table has the value of every call that it was computed for. -/
theorem valueAt?_ofCalls_of_mem {calls : List IndicatorCall} {call : IndicatorCall}
    (member : call ∈ calls) (bars : List Bar) (index : Nat) :
    (ofCalls calls bars).valueAt? call index = (call.series bars).valueAt? index := by
  have found : calls.eraseDups.find? (· = call) = some call := by
    cases search : calls.eraseDups.find? (· = call) with
    | none =>
      rw [List.find?_eq_none] at search
      exact absurd (by simp) (search call (List.mem_eraseDups.mpr member))
    | some other =>
      have same : other = call := by simpa using List.find?_some search
      rw [same]
  rw [valueAt?_ofCalls, found]
  rfl

/-- At a bar of the series an operand of a rule is as defined as its call, and has the
value that is computed afresh. -/
theorem isSome_operandAt?_iff {calls : List IndicatorCall}
    (positive : ∀ call ∈ calls, 0 < call.period) (bars : List Bar) (index : Fin bars.length)
    {x : Operand} (listed : ∀ call, x = .indicator call → call ∈ calls) :
    ((ofCalls calls bars).operandAt? bars index x).isSome = true ↔
      ∀ call, x = .indicator call → call.period ≤ index + 1 := by
  cases x with
  | value x => simp [operandAt?]
  | field f => simp [operandAt?]
  | indicator call =>
    have member := listed call rfl
    rw [operandAt?, valueAt?_ofCalls_of_mem member,
      call.isSome_valueAt?_iff (positive call member) bars index.isLt]
    simp

/-- An operand that has a value in the shared table has the value of its call alone. -/
theorem operandAt?_eq_freshValue {calls : List IndicatorCall} (bars : List Bar)
    (index : Fin bars.length) {x : Operand} (listed : ∀ call, x = .indicator call → call ∈ calls)
    (defined : ((ofCalls calls bars).operandAt? bars index x).isSome = true) :
    (ofCalls calls bars).operandAt? bars index x = some (x.freshValue bars index) := by
  cases x with
  | value x => rfl
  | field f => simp [operandAt?, Operand.freshValue]
  | indicator call =>
    rw [operandAt?, valueAt?_ofCalls_of_mem (listed call rfl)] at defined ⊢
    obtain ⟨x, found⟩ := Option.isSome_iff_exists.mp defined
    rw [Operand.freshValue, IndicatorCall.freshValue, found]
    rfl

end IndicatorTable

/-! ## Signals -/

/-- The signals of one clause. -/
def Signals.column (s : Signals) : Clause → List Bool
  | .entry => s.entry
  | .exit => s.exit

namespace CheckedStrategy

/-- A column of the signals has the verdict of its rule at each bar. -/
theorem column_signals (s : CheckedStrategy) (bars : List Bar) (clause : Clause) :
    (s.signals bars).column clause = (List.range bars.length).map
      ((s.rule clause).holdsAt bars (.ofCalls s.indicators bars)) := by
  cases clause with
  | entry => rfl
  | exit => rfl

/-- A rule signals at a bar exactly if each of its own indicators has seen its period
there and the rule is true of the values, each call being computed afresh. -/
theorem column_signals_iff (s : CheckedStrategy) (bars : List Bar) (clause : Clause) :
    ((s.signals bars).column clause).length = bars.length ∧
    ∀ index : Fin bars.length,
      (((s.signals bars).column clause)[index.val]? = some true ↔
        (∀ call ∈ (s.rule clause).calls, call.period ≤ index + 1) ∧
          (s.rule clause).Means (Operand.freshValue bars index)) ∧
      ∀ call ∈ (s.rule clause).calls,
        ((call.series bars).valueAt? index = some (call.freshValue bars index) ↔
          call.period ≤ index + 1) := by
  have listed (call : IndicatorCall) (called : call ∈ (s.rule clause).calls) :
      call ∈ s.indicators := Strategy.mem_indicators.mpr ⟨clause, called⟩
  rw [column_signals]
  refine ⟨by simp, fun index => ⟨?_, fun call called =>
    call.valueAt?_eq_freshValue_iff (s.period_pos call (listed call called)) bars index.isLt⟩⟩
  have known (x : Operand) (member : x ∈ (s.rule clause).operands) (call : IndicatorCall)
      (isCall : x = .indicator call) : call ∈ s.indicators :=
    listed call (Rule.mem_calls.mpr (isCall ▸ member))
  have held := (s.rule clause).holds_iff fun x member =>
    IndicatorTable.operandAt?_eq_freshValue bars index (known x member)
  have defined : (∀ x ∈ (s.rule clause).operands,
      ((IndicatorTable.ofCalls s.indicators bars).operandAt? bars index x).isSome = true) ↔
      ∀ call ∈ (s.rule clause).calls, call.period ≤ index + 1 := by
    constructor
    · intro all call called
      have member := Rule.mem_calls.mp called
      exact (IndicatorTable.isSome_operandAt?_iff s.period_pos bars index (known _ member)).mp
        (all _ member) call rfl
    · intro all x member
      refine (IndicatorTable.isSome_operandAt?_iff s.period_pos bars index (known x member)).mpr ?_
      rintro call rfl
      exact all call (Rule.mem_calls.mpr member)
  rw [List.getElem?_map, List.getElem?_range index.isLt, Option.map_some, Option.some_inj,
    Rule.holdsAt, held, defined]

/-- Buy above the mean of three days or above zero, and sell below the mean of two. -/
def eager : CheckedStrategy where
  entry := .combine .or
    (.compare .greater (.field .closing) (.indicator ⟨.movingAverage, .closing, 3⟩))
    (.compare .greater (.field .closing) (.value 0))
  exit := .compare .less (.field .closing) (.indicator ⟨.movingAverage, .closing, 2⟩)
  count_le := by rintro ⟨⟩ <;> decide
  period_pos := by decide

def threeDays : List Bar :=
  [ ⟨⟨2025, 2, 1, by decide⟩, 10, 10, 10, 10, 100⟩, ⟨⟨2025, 2, 2, by decide⟩, 9, 9, 9, 9, 100⟩,
    ⟨⟨2025, 2, 3, by decide⟩, 8, 8, 8, 8, 100⟩ ]

/-- The entry waits for the mean of three days although its other branch is true, and
the exit does not wait with it. -/
theorem eager_signals :
    ((eager.signals threeDays).column .entry)[1]? ≠ some true ∧
      ((eager.signals threeDays).column .exit)[1]? = some true ∧
      ((eager.signals threeDays).column .entry)[2]? = some true := by
  have signalled (clause : Clause) (index : Fin threeDays.length) :=
    ((eager.column_signals_iff threeDays clause).2 index).1
  refine ⟨?_, (signalled .exit ⟨1, by decide⟩).mpr ⟨by decide, ?_⟩,
    (signalled .entry ⟨2, by decide⟩).mpr ⟨by decide, .inr ?_⟩⟩
  · intro early
    have waited := ((signalled .entry ⟨1, by decide⟩).mp early).1 ⟨.movingAverage, .closing, 3⟩
      (by decide)
    exact absurd waited (by decide)
  · show Binary64.lt _ _ = true
    decide +kernel
  · show Binary64.lt _ _ = true
    decide +kernel

end CheckedStrategy

end MarketRules
