import MarketRules.Language.Parse

/-!
# The grammar of the rule language

The language is a set of sequences of token kinds.  It is given twice.  The
productions say it in the way it is written down for users:

```text
strategy   := "ENTRY:" rule_set "EXIT:" rule_set
rule_set   := condition (LOGIC_OP condition)*
condition  := comparison | "(" rule_set ")"
comparison := expression OPERATOR expression
expression := FIELD | indicator | NUMBER
indicator  := INDICATOR_NAME "(" FIELD "," NUMBER ")"
```

The trees of `Language.Tree` say it with the tokens in place.  A sequence of
tokens is that of a tree exactly when its kinds are derived by the productions,
and then both agree on how deep parentheses nest and on how many comparisons
there are.

A tree that breaks one of the two bounds does so at certain tokens, and the list
of these errors goes through the tree from left to right.
-/

namespace MarketRules

/-! ## The productions -/

namespace Grammar

/-- The production `indicator`. -/
inductive Indicator : List TokenKind → Prop
  | call (f : PriceField) :
    Indicator [.indicatorName, .leftParen, .field f, .comma, .number, .rightParen]

/-- The production `expression`. -/
inductive Expression : List TokenKind → Prop
  | field (f : PriceField) : Expression [.field f]
  | indicator {ks : List TokenKind} : Indicator ks → Expression ks
  | number : Expression [.number]

/-- The production `comparison`. -/
inductive Comparison : List TokenKind → Prop
  | compare {left right : List TokenKind} (op : CompareOp) :
    Expression left → Expression right → Comparison (left ++ .operator op :: right)

mutual

/-- The production `rule_set`, with the depth of its parentheses and the number of
its comparisons.  The repetition is read from the left. -/
inductive RuleSet : Nat → Nat → List TokenKind → Prop
  | one {nesting count : Nat} {ks : List TokenKind} :
    Condition nesting count ks → RuleSet nesting count ks
  | chain {nesting nesting' count count' : Nat} {before last : List TokenKind} (op : LogicOp) :
    RuleSet nesting count before → Condition nesting' count' last →
    RuleSet (max nesting nesting') (count + count') (before ++ .logic op :: last)

/-- The production `condition`, with the same two numbers. -/
inductive Condition : Nat → Nat → List TokenKind → Prop
  | comparison {ks : List TokenKind} : Comparison ks → Condition 0 1 ks
  | group {nesting count : Nat} {ks : List TokenKind} :
    RuleSet nesting count ks →
    Condition (nesting + 1) count (.leftParen :: ks ++ [.rightParen])

end

/-- How deep the parentheses of a rule nest, and how many comparisons it has. -/
structure Extent where
  nesting : Nat
  comparisons : Nat

/-- Both numbers keep within their bounds. -/
def Extent.Allowed (e : Extent) : Prop :=
  e.nesting ≤ maxNesting ∧ e.comparisons ≤ Rule.maxComparisons

/-- The production `strategy`, with the extents of the two rules. -/
inductive Strategy : Extent → Extent → List TokenKind → Prop
  | rules {entry exit : Extent} {ks ks' : List TokenKind} :
    RuleSet entry.nesting entry.comparisons ks → RuleSet exit.nesting exit.comparisons ks' →
    Strategy entry exit (.entryLabel :: ks ++ .exitLabel :: ks')

def Sentence (ks : List TokenKind) : Prop := ∃ entry exit, Strategy entry exit ks

/-- A sentence in which both rules keep within the bounds. -/
def BoundedSentence (ks : List TokenKind) : Prop :=
  ∃ entry exit, Strategy entry exit ks ∧ entry.Allowed ∧ exit.Allowed

/-- Parentheses around a rule make it as much deeper. -/
theorem RuleSet.wrap {nesting count : Nat} {ks : List TokenKind}
    (derived : RuleSet nesting count ks) (n : Nat) : RuleSet (nesting + n) count
      (List.replicate n .leftParen ++ ks ++ List.replicate n .rightParen) := by
  induction n with
  | zero => simpa using derived
  | succ n ih =>
    have wrapped := RuleSet.one (.group ih)
    rw [List.replicate_succ, List.replicate_succ', ← Nat.add_assoc]
    simpa using wrapped

end Grammar

/-! ## Trees of the grammar

A tree has a place for every token.  It belongs to the grammar if the token at
each place is of the kind that the place is for. -/

def OperandTree.Grammatical : OperandTree → Prop
  | .field t f => t.kind = .field f
  | .number t => t.kind = .number
  | .call name lp ft f comma period rp =>
    name.kind = .indicatorName ∧ lp.kind = .leftParen ∧ ft.kind = .field f ∧
      comma.kind = .comma ∧ period.kind = .number ∧ rp.kind = .rightParen

def ComparisonTree.Grammatical (c : ComparisonTree) : Prop :=
  c.left.Grammatical ∧ c.token.kind = .operator c.op ∧ c.right.Grammatical

mutual

def RuleTree.Grammatical : RuleTree → Prop
  | .one c => c.Grammatical
  | .chain before t op last => before.Grammatical ∧ t.kind = .logic op ∧ last.Grammatical

def ConditionTree.Grammatical : ConditionTree → Prop
  | .comparison c => c.Grammatical
  | .group lp rule rp => lp.kind = .leftParen ∧ rule.Grammatical ∧ rp.kind = .rightParen

end

def StrategyTree.Grammatical (s : StrategyTree) : Prop :=
  s.entryLabel.kind = .entryLabel ∧ s.entry.Grammatical ∧
    s.exitLabel.kind = .exitLabel ∧ s.exit.Grammatical

mutual

/-- How deep the parentheses around conditions nest. -/
def RuleTree.nesting : RuleTree → Nat
  | .one c => c.nesting
  | .chain before _ _ last => max before.nesting last.nesting

def ConditionTree.nesting : ConditionTree → Nat
  | .comparison _ => 0
  | .group _ rule _ => rule.nesting + 1

end

mutual

/-- The number of comparisons, those in parentheses included. -/
def RuleTree.comparisonCount : RuleTree → Nat
  | .one c => c.comparisonCount
  | .chain before _ _ last => before.comparisonCount + last.comparisonCount

def ConditionTree.comparisonCount : ConditionTree → Nat
  | .comparison _ => 1
  | .group _ rule _ => rule.comparisonCount

end

def RuleTree.extent (r : RuleTree) : Grammar.Extent := ⟨r.nesting, r.comparisonCount⟩

/-! ## Trees and productions agree -/

theorem OperandTree.Grammatical.expression {x : OperandTree} (wellFormed : x.Grammatical) :
    Grammar.Expression (x.tokens.map Token.kind) := by
  cases x with
  | field t f =>
    rw [Grammatical] at wellFormed
    simpa [tokens, wellFormed] using Grammar.Expression.field f
  | number t =>
    rw [Grammatical] at wellFormed
    simpa [tokens, wellFormed] using Grammar.Expression.number
  | call name lp ft f comma period rp =>
    obtain ⟨atName, atLp, atField, atComma, atPeriod, atRp⟩ := wellFormed
    simpa [tokens, atName, atLp, atField, atComma, atPeriod, atRp] using
      Grammar.Expression.indicator (.call f)

theorem ComparisonTree.Grammatical.comparison {c : ComparisonTree} (wellFormed : c.Grammatical) :
    Grammar.Comparison (c.tokens.map Token.kind) := by
  obtain ⟨left, operator, right⟩ := wellFormed
  simpa [tokens, operator] using Grammar.Comparison.compare c.op left.expression right.expression

mutual

/-- The productions derive the tokens of a grammatical tree, with its two numbers. -/
theorem RuleTree.Grammatical.ruleSet : {r : RuleTree} → r.Grammatical →
    Grammar.RuleSet r.nesting r.comparisonCount (r.tokens.map Token.kind)
  | .one c, wellFormed => by
    rw [RuleTree.Grammatical] at wellFormed
    exact .one (ConditionTree.Grammatical.condition wellFormed)
  | .chain before t op last, wellFormed => by
    rw [RuleTree.Grammatical] at wellFormed
    obtain ⟨atBefore, connective, atLast⟩ := wellFormed
    have derived := Grammar.RuleSet.chain op (RuleTree.Grammatical.ruleSet atBefore)
      (ConditionTree.Grammatical.condition atLast)
    simpa [RuleTree.tokens, RuleTree.nesting, RuleTree.comparisonCount, connective] using derived

theorem ConditionTree.Grammatical.condition : {c : ConditionTree} → c.Grammatical →
    Grammar.Condition c.nesting c.comparisonCount (c.tokens.map Token.kind)
  | .comparison c, wellFormed => by
    rw [ConditionTree.Grammatical] at wellFormed
    exact .comparison wellFormed.comparison
  | .group lp rule rp, wellFormed => by
    rw [ConditionTree.Grammatical] at wellFormed
    obtain ⟨opened, inside, closed⟩ := wellFormed
    have derived := Grammar.Condition.group (RuleTree.Grammatical.ruleSet inside)
    simpa [ConditionTree.tokens, ConditionTree.nesting, ConditionTree.comparisonCount, opened,
      closed] using derived

end

theorem Grammar.Expression.exists_tree {ks : List TokenKind} (derived : Expression ks)
    {ts : List Token} (kinds : ts.map Token.kind = ks) :
    ∃ x : OperandTree, x.Grammatical ∧ x.tokens = ts := by
  cases derived with
  | field f =>
    obtain ⟨t, rfl, atField⟩ := List.map_eq_singleton_iff.mp kinds
    exact ⟨.field t f, atField, rfl⟩
  | number =>
    obtain ⟨t, rfl, atNumber⟩ := List.map_eq_singleton_iff.mp kinds
    exact ⟨.number t, atNumber, rfl⟩
  | indicator call =>
    cases call with
    | call f =>
      obtain ⟨name, rest, rfl, atName, kinds⟩ := List.map_eq_cons_iff.mp kinds
      obtain ⟨lp, rest, rfl, atLp, kinds⟩ := List.map_eq_cons_iff.mp kinds
      obtain ⟨ft, rest, rfl, atField, kinds⟩ := List.map_eq_cons_iff.mp kinds
      obtain ⟨comma, rest, rfl, atComma, kinds⟩ := List.map_eq_cons_iff.mp kinds
      obtain ⟨period, rest, rfl, atPeriod, kinds⟩ := List.map_eq_cons_iff.mp kinds
      obtain ⟨rp, rfl, atRp⟩ := List.map_eq_singleton_iff.mp kinds
      exact ⟨.call name lp ft f comma period rp,
        ⟨atName, atLp, atField, atComma, atPeriod, atRp⟩, rfl⟩

theorem Grammar.Comparison.exists_tree {ks : List TokenKind} (derived : Comparison ks)
    {ts : List Token} (kinds : ts.map Token.kind = ks) :
    ∃ c : ComparisonTree, c.Grammatical ∧ c.tokens = ts := by
  obtain ⟨op, derivedLeft, derivedRight⟩ := derived
  obtain ⟨leftTokens, rest, rfl, leftKinds, kinds⟩ := List.map_eq_append_iff.mp kinds
  obtain ⟨t, rightTokens, rfl, operator, rightKinds⟩ := List.map_eq_cons_iff.mp kinds
  obtain ⟨left, leftWellFormed, rfl⟩ := derivedLeft.exists_tree leftKinds
  obtain ⟨right, rightWellFormed, rfl⟩ := derivedRight.exists_tree rightKinds
  exact ⟨⟨left, t, op, right⟩, ⟨leftWellFormed, operator, rightWellFormed⟩, rfl⟩

mutual

/-- Tokens whose kinds are derived are those of a tree with the same two numbers. -/
theorem Grammar.RuleSet.exists_tree {nesting count : Nat} {ks : List TokenKind} :
    RuleSet nesting count ks → ∀ {ts : List Token}, ts.map Token.kind = ks →
    ∃ r : RuleTree, r.Grammatical ∧ r.tokens = ts ∧ r.extent = ⟨nesting, count⟩
  | .one derived, ts, kinds => by
    obtain ⟨c, wellFormed, tokens, rfl, rfl⟩ := Grammar.Condition.exists_tree derived kinds
    exact ⟨.one c, wellFormed, tokens, rfl⟩
  | .chain op derivedBefore derivedLast, ts, kinds => by
    obtain ⟨beforeTokens, rest, rfl, beforeKinds, kinds⟩ := List.map_eq_append_iff.mp kinds
    obtain ⟨t, lastTokens, rfl, connective, lastKinds⟩ := List.map_eq_cons_iff.mp kinds
    obtain ⟨before, beforeWellFormed, rfl, extent⟩ :=
      Grammar.RuleSet.exists_tree derivedBefore beforeKinds
    obtain ⟨last, lastWellFormed, rfl, rfl, rfl⟩ :=
      Grammar.Condition.exists_tree derivedLast lastKinds
    obtain ⟨rfl, rfl⟩ := Grammar.Extent.mk.inj extent
    exact ⟨.chain before t op last, ⟨beforeWellFormed, connective, lastWellFormed⟩, rfl, rfl⟩

theorem Grammar.Condition.exists_tree {nesting count : Nat} {ks : List TokenKind} :
    Condition nesting count ks → ∀ {ts : List Token}, ts.map Token.kind = ks →
    ∃ c : ConditionTree, c.Grammatical ∧ c.tokens = ts ∧ c.nesting = nesting ∧
      c.comparisonCount = count
  | .comparison derived, ts, kinds => by
    obtain ⟨c, wellFormed, tokens⟩ := derived.exists_tree kinds
    exact ⟨.comparison c, wellFormed, tokens, rfl, rfl⟩
  | .group derived, ts, kinds => by
    obtain ⟨front, last, rfl, frontKinds, lastKinds⟩ := List.map_eq_append_iff.mp kinds
    obtain ⟨lp, inside, rfl, opened, insideKinds⟩ := List.map_eq_cons_iff.mp frontKinds
    obtain ⟨rp, rfl, closed⟩ := List.map_eq_singleton_iff.mp lastKinds
    obtain ⟨rule, wellFormed, rfl, extent⟩ := Grammar.RuleSet.exists_tree derived insideKinds
    obtain ⟨rfl, rfl⟩ := Grammar.Extent.mk.inj extent
    exact ⟨.group lp rule rp, ⟨opened, wellFormed, closed⟩, rfl, rfl, rfl⟩

end

/-- The tokens of a strategy are those whose kinds the productions derive. -/
theorem Grammar.strategy_iff_exists_tree {entry exit : Extent} {ts : List Token} :
    Strategy entry exit (ts.map Token.kind) ↔
      ∃ tree : StrategyTree, tree.Grammatical ∧ tree.tokens = ts ∧
        tree.entry.extent = entry ∧ tree.exit.extent = exit := by
  constructor
  · intro derived
    generalize kinds : ts.map Token.kind = ks at derived
    obtain ⟨derivedEntry, derivedExit⟩ := derived
    obtain ⟨front, back, rfl, frontKinds, backKinds⟩ := List.map_eq_append_iff.mp kinds
    obtain ⟨entryLabel, entryTokens, rfl, atEntry, entryKinds⟩ := List.map_eq_cons_iff.mp frontKinds
    obtain ⟨exitLabel, exitTokens, rfl, atExit, exitKinds⟩ := List.map_eq_cons_iff.mp backKinds
    obtain ⟨entryTree, entryWellFormed, rfl, entryExtent⟩ := derivedEntry.exists_tree entryKinds
    obtain ⟨exitTree, exitWellFormed, rfl, exitExtent⟩ := derivedExit.exists_tree exitKinds
    exact ⟨⟨entryLabel, entryTree, exitLabel, exitTree⟩,
      ⟨atEntry, entryWellFormed, atExit, exitWellFormed⟩, rfl, entryExtent, exitExtent⟩
  · rintro ⟨tree, ⟨atEntry, entryWellFormed, atExit, exitWellFormed⟩, rfl, rfl, rfl⟩
    have derived := @Strategy.rules tree.entry.extent tree.exit.extent _ _
      entryWellFormed.ruleSet exitWellFormed.ruleSet
    simpa [StrategyTree.tokens, atEntry, atExit] using derived

/-! ## Where a tree breaks a bound -/

/-- The error with this fault at a token. -/
def Token.error (t : Token) (fault : SyntaxFault) : SyntaxError := ⟨fault, t.describe, t.position⟩

/-- The token with which an operand begins. -/
def OperandTree.firstToken : OperandTree → Token
  | .field t _ => t
  | .number t => t
  | .call name _ _ _ _ _ _ => name

mutual

/-- The errors of a rule that stands within `level` parentheses and behind `count`
comparisons: at each parenthesis that opens a level too many, and at the first
token of each comparison too many. -/
def RuleTree.breaches (level count : Nat) : RuleTree → List SyntaxError
  | .one c => c.breaches level count
  | .chain before _ _ last =>
    before.breaches level count ++ last.breaches level (count + before.comparisonCount)

/-- The errors of a condition at the same place. -/
def ConditionTree.breaches (level count : Nat) : ConditionTree → List SyntaxError
  | .comparison c =>
    if count < Rule.maxComparisons then [] else [c.left.firstToken.error .tooLong]
  | .group lp rule _ =>
    (if level < maxNesting then [] else [lp.error .tooDeep]) ++ rule.breaches (level + 1) count

end

/-- The errors of a strategy.  Each of its rules is counted on its own. -/
def StrategyTree.breaches (s : StrategyTree) : List SyntaxError :=
  s.entry.breaches 0 0 ++ s.exit.breaches 0 0

/-! ### The errors stand in the order of the source -/

/-- An operand begins with one of its tokens. -/
theorem OperandTree.firstToken_sublist (x : OperandTree) : [x.firstToken].Sublist x.tokens := by
  cases x <;> simp [firstToken, tokens]

mutual

/-- The errors of a rule stand at tokens of the rule, from left to right. -/
theorem RuleTree.breaches_sublist (level : Nat) : ∀ (r : RuleTree) (count : Nat),
    ((r.breaches level count).map SyntaxError.position).Sublist (r.tokens.map Token.position)
  | .one c, count => ConditionTree.breaches_sublist level c count
  | .chain before _ _ last, count => by
    rw [RuleTree.breaches, RuleTree.tokens, List.map_append, List.map_append, List.map_cons]
    exact (RuleTree.breaches_sublist level before count).append
      ((ConditionTree.breaches_sublist level last _).cons _)

theorem ConditionTree.breaches_sublist (level : Nat) : ∀ (c : ConditionTree) (count : Nat),
    ((c.breaches level count).map SyntaxError.position).Sublist (c.tokens.map Token.position)
  | .comparison c, count => by
    rw [ConditionTree.breaches, ConditionTree.tokens, ComparisonTree.tokens]
    split
    · exact List.nil_sublist _
    · rw [List.map_append]
      exact (c.left.firstToken_sublist.map Token.position).trans (List.sublist_append_left _ _)
  | .group lp rule rp, count => by
    have inside := RuleTree.breaches_sublist (level + 1) rule count
    rw [ConditionTree.breaches, ConditionTree.tokens, List.map_append, List.map_append,
      List.map_cons]
    refine List.Sublist.trans ?_ (List.sublist_append_left _ _)
    split
    · exact inside.cons _
    · exact inside.cons_cons _

end

/-- The errors of a strategy are listed in the order in which its tokens stand. -/
theorem StrategyTree.breaches_sublist (s : StrategyTree) :
    (s.breaches.map SyntaxError.position).Sublist (s.tokens.map Token.position) := by
  rw [breaches, tokens, List.map_append, List.map_append, List.map_cons, List.map_cons]
  exact ((s.entry.breaches_sublist 0 0).cons _).append ((s.exit.breaches_sublist 0 0).cons _)

/-! ### The bounds -/

mutual

/-- A rule has no errors if the levels and comparisons around it leave room for its own. -/
theorem RuleTree.breaches_eq_nil_iff {level : Nat} (levelAllowed : level ≤ maxNesting) :
    ∀ (r : RuleTree) (count : Nat), r.breaches level count = [] ↔
      level + r.nesting ≤ maxNesting ∧ count + r.comparisonCount ≤ Rule.maxComparisons
  | .one c, count => ConditionTree.breaches_eq_nil_iff levelAllowed c count
  | .chain before _ _ last, count => by
    rw [RuleTree.breaches, List.append_eq_nil_iff,
      RuleTree.breaches_eq_nil_iff levelAllowed before,
      ConditionTree.breaches_eq_nil_iff levelAllowed last, RuleTree.nesting,
      RuleTree.comparisonCount]
    omega

theorem ConditionTree.breaches_eq_nil_iff {level : Nat} (levelAllowed : level ≤ maxNesting) :
    ∀ (c : ConditionTree) (count : Nat), c.breaches level count = [] ↔
      level + c.nesting ≤ maxNesting ∧ count + c.comparisonCount ≤ Rule.maxComparisons
  | .comparison _, count => by
    rw [ConditionTree.breaches, ConditionTree.nesting, ConditionTree.comparisonCount]
    by_cases room : count < Rule.maxComparisons
    · simp only [if_pos room, true_iff]
      omega
    · simp only [if_neg room, List.cons_ne_nil, false_iff]
      omega
  | .group lp rule _, count => by
    rw [ConditionTree.breaches, List.append_eq_nil_iff, ConditionTree.nesting,
      ConditionTree.comparisonCount]
    by_cases room : level < maxNesting
    · rw [if_pos room, RuleTree.breaches_eq_nil_iff (Nat.succ_le_of_lt room) rule]
      simp only [true_and]
      omega
    · simp only [if_neg room, List.cons_ne_nil, false_and, false_iff]
      omega

end

/-- A strategy has no errors when both of its rules keep within the bounds. -/
theorem StrategyTree.breaches_eq_nil_iff (s : StrategyTree) :
    s.breaches = [] ↔ s.entry.extent.Allowed ∧ s.exit.extent.Allowed := by
  rw [breaches, List.append_eq_nil_iff, RuleTree.breaches_eq_nil_iff (Nat.zero_le _),
    RuleTree.breaches_eq_nil_iff (Nat.zero_le _), Nat.zero_add, Nat.zero_add, Nat.zero_add,
    Nat.zero_add]
  rfl

end MarketRules
