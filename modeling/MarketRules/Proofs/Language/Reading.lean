import MarketRules.Proofs.Language.Grammar

/-!
# Reading the tokens of a tree

The tokens of a tree of the grammar are read to the end if the tree keeps within
the bounds, and are refused at its first breach otherwise.  Nothing is assumed of
what stands around the tree: a condition is read the same way within any number
of open parentheses and behind any number of comparisons, which is what carries
the induction over the trees.
-/

namespace MarketRules

/-! ## Verdicts -/

/-- The first of the errors, or a value if there are none. -/
def verdict {α : Type} (errors : List SyntaxError) (x : α) : Except SyntaxError α :=
  match errors with
  | [] => .ok x
  | e :: _ => .error e

/-- Two readings in a row have the errors of both, in order. -/
theorem verdict_bind {α β : Type} {errors later : List SyntaxError} {x : α} {y : β}
    {f : α → Except SyntaxError β} (continues : f x = verdict later y) :
    (verdict errors x >>= f) = verdict (errors ++ later) y := by
  cases errors with
  | nil => exact continues
  | cons e es => rfl

theorem verdict_bind_ok {α β : Type} {errors : List SyntaxError} {x : α} {y : β}
    {f : α → Except SyntaxError β} (continues : f x = .ok y) :
    (verdict errors x >>= f) = verdict errors y := by
  cases errors with
  | nil => exact continues
  | cons e es => rfl

/-- A verdict accepts exactly if there are no errors. -/
theorem verdict_eq_ok_iff {α : Type} {errors : List SyntaxError} {x y : α} :
    verdict errors x = .ok y ↔ errors = [] ∧ x = y := by
  cases errors with
  | nil => simp [verdict]
  | cons e es => simp [verdict]

theorem verdict_map {α β : Type} (errors : List SyntaxError) (x : α) (f : α → β) :
    (verdict errors x).map f = verdict errors (f x) := by
  cases errors with
  | nil => rfl
  | cons e es => rfl

/-! ## Steps within a rule -/

namespace RuleState

/-- Read one token of a rule. -/
def step (atEnd : SyntaxFault) (s : RuleState) (t : Token) : Except SyntaxError RuleState :=
  match s.next? t with
  | some s' => .ok s'
  | none => .error (t.error (s.fault atEnd t))

/-- Read tokens of a rule one after another. -/
def read (atEnd : SyntaxFault) (s : RuleState) (ts : List Token) : Except SyntaxError RuleState :=
  ts.foldlM (step atEnd) s

variable {atEnd : SyntaxFault} {s s' : RuleState} {t : Token}

theorem step_of_next (next : s.next? t = some s') : s.step atEnd t = .ok s' := by
  rw [step, next]

/-- A token that has no place is refused with the fault of the state. -/
theorem step_of_refused (refused : s.next? t = none) :
    s.step atEnd t = .error (t.error (s.fault atEnd t)) := by
  rw [step, refused]

theorem read_cons (ts : List Token) :
    s.read atEnd (t :: ts) = s.step atEnd t >>= fun s' => s'.read atEnd ts := rfl

theorem read_of_next (next : s.next? t = some s') (ts : List Token) :
    s.read atEnd (t :: ts) = s'.read atEnd ts := by
  rw [read_cons, step_of_next next]
  rfl

/-- Tokens are read one list after the other. -/
theorem read_append (ts ts' : List Token) :
    s.read atEnd (ts ++ ts') = s.read atEnd ts >>= fun s' => s'.read atEnd ts' :=
  List.foldlM_append

end RuleState

/-! ## Operands and comparisons -/

section

variable (atEnd : SyntaxFault)

/-- Behind its first token, an operand is read to its end. -/
theorem OperandTree.Grammatical.read {x : OperandTree} (wellFormed : x.Grammatical)
    (left : Option LeftHalf) :
    ∃ place rest, x.tokens = x.firstToken :: rest ∧
      Place.beginOperand? left x.firstToken = some place ∧
      ∀ s : RuleState,
        (s.moveTo place).read atEnd rest = .ok (s.moveTo (.afterOperand left x)) := by
  cases x with
  | field t f =>
    refine ⟨.afterOperand left (.field t f), [], rfl, ?_, fun s => rfl⟩
    rw [OperandTree.Grammatical] at wellFormed
    simp only [firstToken, Place.beginOperand?, wellFormed]
  | number t =>
    refine ⟨.afterOperand left (.number t), [], rfl, ?_, fun s => rfl⟩
    rw [OperandTree.Grammatical] at wellFormed
    simp only [firstToken, Place.beginOperand?, wellFormed]
  | call name lp ft f comma period rp =>
    obtain ⟨atName, atLp, atField, atComma, atPeriod, atRp⟩ := wellFormed
    refine ⟨.call left (.name name), [lp, ft, comma, period, rp], rfl, ?_, fun s => ?_⟩
    · simp only [firstToken, Place.beginOperand?, atName]
    · simp [RuleState.read, RuleState.step, RuleState.next?, RuleState.moveTo,
        Place.continueCall?, atLp, atField, atComma, atPeriod, atRp]
      rfl

theorem OperandTree.Grammatical.firstToken_ne_leftParen {x : OperandTree}
    (wellFormed : x.Grammatical) : x.firstToken.kind ≠ .leftParen := by
  cases x with
  | field t f => exact fun opened => TokenKind.noConfusion (wellFormed.symm.trans opened)
  | number t => exact fun opened => TokenKind.noConfusion (wellFormed.symm.trans opened)
  | call => exact fun opened => TokenKind.noConfusion (wellFormed.1.symm.trans opened)

/-- A comparison is counted at its first token and then read to its end, unless it is one too
many. -/
theorem ComparisonTree.Grammatical.read {c : ComparisonTree} (wellFormed : c.Grammatical)
    (count : Nat) (groups : List OpenGroup) (before : Option ChainStart) :
    RuleState.read atEnd ⟨count, groups, before, .start⟩ c.tokens =
      verdict ((ConditionTree.comparison c).breaches groups.length count)
        ⟨count + 1, groups, before, .done (.comparison c)⟩ := by
  obtain ⟨leftWellFormed, operator, rightWellFormed⟩ := wellFormed
  obtain ⟨place, rest, leftTokens, leftBegun, leftRest⟩ := leftWellFormed.read atEnd none
  have noGroup := leftWellFormed.firstToken_ne_leftParen
  rw [ComparisonTree.tokens, leftTokens, List.cons_append, ConditionTree.breaches]
  by_cases room : count < Rule.maxComparisons
  · obtain ⟨place', rest', rightTokens, rightBegun, rightRest⟩ :=
      rightWellFormed.read atEnd (some ⟨c.left, c.token, c.op⟩)
    let counted : RuleState := ⟨count + 1, groups, before, .start⟩
    have first : RuleState.next? ⟨count, groups, before, .start⟩ c.left.firstToken =
        some (counted.moveTo place) := by
      simp [RuleState.next?, RuleState.beginCondition?, room, leftBegun, RuleState.moveTo, counted]
    have middle : (counted.moveTo (.operator c.left)).next? c.token =
        some (counted.moveTo (.right ⟨c.left, c.token, c.op⟩)) := by
      simp only [RuleState.next?, RuleState.moveTo, operator]
    have second : (counted.moveTo (.right ⟨c.left, c.token, c.op⟩)).next? c.right.firstToken =
        some (counted.moveTo place') := by
      simp only [RuleState.next?, RuleState.moveTo, rightBegun, Option.map_some]
    rw [if_pos room, RuleState.read_of_next first, RuleState.read_append, leftRest counted]
    show RuleState.read atEnd (counted.moveTo (.operator c.left)) (c.token :: c.right.tokens) = _
    rw [RuleState.read_of_next middle, rightTokens, RuleState.read_of_next second,
      rightRest counted]
    rfl
  · have refused : RuleState.next? ⟨count, groups, before, .start⟩ c.left.firstToken = none := by
      simp [RuleState.next?, RuleState.beginCondition?, room]
    rw [if_neg room, RuleState.read_cons, RuleState.step_of_refused refused]
    simp only [RuleState.fault, if_neg noGroup, if_neg room]
    rfl

/-! ## Conditions and chains -/

/-- What stands in front of the last condition of a chain. -/
def RuleTree.before? : RuleTree → Option ChainStart
  | .one _ => none
  | .chain before t op _ => some ⟨before, t, op⟩

/-- The last condition of a chain. -/
def RuleTree.last : RuleTree → ConditionTree
  | .one c => c
  | .chain _ _ _ last => last

/-- A rule is made of what stands in front of its last condition and this condition. -/
theorem RuleTree.extend?_before?_last (r : RuleTree) :
    ChainStart.extend? r.before? r.last = r := by
  cases r with
  | one c => rfl
  | chain before t op last => rfl

mutual

/-- A chain is read up to the end of its last condition, or to its first breach. -/
theorem RuleTree.Grammatical.read : {r : RuleTree} → r.Grammatical →
    ∀ (count : Nat) (groups : List OpenGroup),
    RuleState.read atEnd ⟨count, groups, none, .start⟩ r.tokens =
      verdict (r.breaches groups.length count)
        ⟨count + r.comparisonCount, groups, r.before?, .done r.last⟩
  | .one c, wellFormed, count, groups =>
    ConditionTree.Grammatical.read wellFormed count groups none
  | .chain before t op last, wellFormed, count, groups => by
    rw [RuleTree.Grammatical] at wellFormed
    obtain ⟨beforeWellFormed, connective, lastWellFormed⟩ := wellFormed
    have linked : RuleState.next?
        ⟨count + before.comparisonCount, groups, before.before?, .done before.last⟩ t =
        some ⟨count + before.comparisonCount, groups, some ⟨before, t, op⟩, .start⟩ := by
      simp only [RuleState.next?, RuleState.continueChain?, connective,
        RuleTree.extend?_before?_last]
    rw [RuleTree.tokens, RuleState.read_append,
      RuleTree.Grammatical.read beforeWellFormed count groups, RuleTree.breaches]
    apply verdict_bind
    rw [RuleState.read_of_next linked,
      ConditionTree.Grammatical.read lastWellFormed _ groups (some ⟨before, t, op⟩), Nat.add_assoc]
    rfl

/-- A condition is read to its end, or to its first breach. -/
theorem ConditionTree.Grammatical.read : {c : ConditionTree} → c.Grammatical →
    ∀ (count : Nat) (groups : List OpenGroup) (before : Option ChainStart),
    RuleState.read atEnd ⟨count, groups, before, .start⟩ c.tokens =
      verdict (c.breaches groups.length count)
        ⟨count + c.comparisonCount, groups, before, .done c⟩
  | .comparison c, wellFormed, count, groups, before => by
    rw [ConditionTree.Grammatical] at wellFormed
    exact wellFormed.read atEnd count groups before
  | .group lp rule rp, wellFormed, count, groups, before => by
    rw [ConditionTree.Grammatical] at wellFormed
    obtain ⟨opened, inside, closed⟩ := wellFormed
    rw [ConditionTree.tokens, List.cons_append, ConditionTree.breaches]
    by_cases room : groups.length < maxNesting
    · have entered : RuleState.next? ⟨count, groups, before, .start⟩ lp =
          some ⟨count, ⟨before, lp⟩ :: groups, none, .start⟩ := by
        simp only [RuleState.next?, RuleState.beginCondition?, opened, if_pos room]
      have left : RuleState.next? ⟨count + rule.comparisonCount, ⟨before, lp⟩ :: groups,
          rule.before?, .done rule.last⟩ rp =
          some ⟨count + rule.comparisonCount, groups, before, .done (.group lp rule rp)⟩ := by
        simp only [RuleState.next?, RuleState.continueChain?, closed,
          RuleTree.extend?_before?_last]
      rw [if_pos room, RuleState.read_of_next entered, RuleState.read_append,
        RuleTree.Grammatical.read inside count (⟨before, lp⟩ :: groups), List.nil_append,
        ← List.append_nil (rule.breaches (groups.length + 1) count)]
      apply verdict_bind
      rw [RuleState.read_of_next left]
      rfl
    · have refused : RuleState.next? ⟨count, groups, before, .start⟩ lp = none := by
        simp only [RuleState.next?, RuleState.beginCondition?, opened, if_neg room]
      rw [if_neg room, RuleState.read_cons, RuleState.step_of_refused refused]
      simp only [RuleState.fault, if_pos opened]
      rfl

end

end

end MarketRules
