import MarketRules.Proofs.Language.Reading

/-!
# What the reading of a strategy accepts

A state of the reading is a tree with open ends.  It has tokens of its own, and a
step appends the token that it reads and keeps every token at its place, so the
tree at the end is a tree of the grammar with the tokens that were read.
Together with what is known of reading the tokens of a tree, this gives the
whole language: a text is accepted exactly when it is a sentence within the
bounds, by the only tree it has, and a sentence that breaks a bound is refused
at the first token that breaks it.
-/

namespace MarketRules

/-! ## The tokens of a state

They stand in the order of the text.  A part that was begun ends with the token
that was read last. -/

/-- The tokens of an indicator call that has begun. -/
def PartialCall.tokens : PartialCall → List Token
  | .name n => [n]
  | .paren n lp => [n, lp]
  | .field n lp ft _ => [n, lp, ft]
  | .comma n lp ft _ c => [n, lp, ft, c]
  | .period n lp ft _ c p => [n, lp, ft, c, p]

/-- The tokens of an operand and the operator behind it. -/
def LeftHalf.tokens (l : LeftHalf) : List Token := l.operand.tokens ++ [l.token]

/-- The tokens of a chain and the connective behind it. -/
def ChainStart.tokens (s : ChainStart) : List Token := s.rule.tokens ++ [s.token]

/-- The tokens of a chain and the parenthesis behind it. -/
def OpenGroup.tokens (g : OpenGroup) : List Token :=
  g.before.elim [] ChainStart.tokens ++ [g.leftParen]

def Place.tokens : Place → List Token
  | .start => []
  | .call left begun => left.elim [] LeftHalf.tokens ++ begun.tokens
  | .operator x => x.tokens
  | .right l => l.tokens
  | .done c => c.tokens

/-- The tokens of the rule under way, from the outermost parenthesis inwards. -/
def RuleState.tokens (s : RuleState) : List Token :=
  s.groups.reverse.flatMap OpenGroup.tokens ++ s.before.elim [] ChainStart.tokens ++ s.place.tokens

/-! ## Every token at its place

What has been read is grammatical when each token is of the kind that its place is
for, in the finished trees and in the parts that are open. -/

def PartialCall.Grammatical : PartialCall → Prop
  | .name n => n.kind = .indicatorName
  | .paren n lp => n.kind = .indicatorName ∧ lp.kind = .leftParen
  | .field n lp ft f => n.kind = .indicatorName ∧ lp.kind = .leftParen ∧ ft.kind = .field f
  | .comma n lp ft f c =>
    n.kind = .indicatorName ∧ lp.kind = .leftParen ∧ ft.kind = .field f ∧ c.kind = .comma
  | .period n lp ft f c p =>
    n.kind = .indicatorName ∧ lp.kind = .leftParen ∧ ft.kind = .field f ∧ c.kind = .comma ∧
      p.kind = .number

def LeftHalf.Grammatical (l : LeftHalf) : Prop :=
  l.operand.Grammatical ∧ l.token.kind = .operator l.op

def ChainStart.Grammatical (s : ChainStart) : Prop :=
  s.rule.Grammatical ∧ s.token.kind = .logic s.op

def OpenGroup.Grammatical (g : OpenGroup) : Prop :=
  (∀ b ∈ g.before, b.Grammatical) ∧ g.leftParen.kind = .leftParen

def Place.Grammatical : Place → Prop
  | .start => True
  | .call left begun => (∀ l ∈ left, l.Grammatical) ∧ begun.Grammatical
  | .operator x => x.Grammatical
  | .right l => l.Grammatical
  | .done c => c.Grammatical

structure RuleState.Grammatical (s : RuleState) : Prop where
  groups : ∀ g ∈ s.groups, g.Grammatical
  before : ∀ b ∈ s.before, b.Grammatical
  place : s.place.Grammatical

/-! ## What one step appends -/

/-- A chain that is extended by a condition ends with its tokens. -/
theorem ChainStart.extend?_tokens (before : Option ChainStart) (c : ConditionTree) :
    (extend? before c).tokens = before.elim [] tokens ++ c.tokens := by
  cases before with
  | none => rfl
  | some b => simp [extend?, RuleTree.tokens, tokens]

theorem ChainStart.extend?_grammatical {before : Option ChainStart} {c : ConditionTree}
    (front : ∀ b ∈ before, b.Grammatical) (last : c.Grammatical) :
    (extend? before c).Grammatical := by
  cases before with
  | none => exact last
  | some b => exact ⟨(front b rfl).1, (front b rfl).2, last⟩

namespace Place

theorem afterOperand_tokens (left : Option LeftHalf) (x : OperandTree) :
    (afterOperand left x).tokens = left.elim [] LeftHalf.tokens ++ x.tokens := by
  cases left with
  | none => rfl
  | some l =>
    simp [afterOperand, tokens, ConditionTree.tokens, ComparisonTree.tokens, LeftHalf.tokens]

theorem afterOperand_grammatical {left : Option LeftHalf} {x : OperandTree}
    (half : ∀ l ∈ left, l.Grammatical) (operand : x.Grammatical) :
    (afterOperand left x).Grammatical := by
  cases left with
  | none => exact operand
  | some l => exact ⟨(half l rfl).1, (half l rfl).2, operand⟩

variable {left : Option LeftHalf} {t : Token} {place : Place}

/-- An operand begins with the token that was read. -/
theorem beginOperand?_tokens (begun : beginOperand? left t = some place) :
    place.tokens = left.elim [] LeftHalf.tokens ++ [t] := by
  rw [beginOperand?] at begun
  split at begun <;> cases begun
  · exact afterOperand_tokens left _
  · exact afterOperand_tokens left _
  · rfl

theorem beginOperand?_grammatical (begun : beginOperand? left t = some place)
    (half : ∀ l ∈ left, l.Grammatical) : place.Grammatical := by
  rw [beginOperand?] at begun
  split at begun <;> cases begun
  · exact afterOperand_grammatical half (by assumption)
  · exact afterOperand_grammatical half (by assumption)
  · exact ⟨half, by assumption⟩

/-- A call goes on with the token that was read. -/
theorem continueCall?_tokens {c : PartialCall}
    (continued : continueCall? left c t = some place) :
    place.tokens = left.elim [] LeftHalf.tokens ++ c.tokens ++ [t] := by
  unfold continueCall? at continued
  split at continued <;> cases continued
  · simp [tokens, PartialCall.tokens]
  · simp [tokens, PartialCall.tokens]
  · simp [tokens, PartialCall.tokens]
  · simp [tokens, PartialCall.tokens]
  · rw [afterOperand_tokens]
    simp [PartialCall.tokens, OperandTree.tokens]

theorem continueCall?_grammatical {c : PartialCall}
    (continued : continueCall? left c t = some place)
    (half : ∀ l ∈ left, l.Grammatical) (begun : c.Grammatical) : place.Grammatical := by
  unfold continueCall? at continued
  split at continued <;> cases continued
  · exact ⟨half, begun, by assumption⟩
  · exact ⟨half, begun.1, begun.2, by assumption⟩
  · exact ⟨half, begun.1, begun.2.1, begun.2.2, by assumption⟩
  · exact ⟨half, begun.1, begun.2.1, begun.2.2.1, begun.2.2.2, by assumption⟩
  · exact afterOperand_grammatical half
      ⟨begun.1, begun.2.1, begun.2.2.1, begun.2.2.2.1, begun.2.2.2.2, by assumption⟩

end Place

namespace RuleState

variable {s s' : RuleState} {t : Token}

/-- A condition begins with the token that was read, a parenthesis or the first of an operand.
-/
theorem beginCondition?_tokens (atStart : s.place = .start)
    (begun : s.beginCondition? t = some s') : s'.tokens = s.tokens ++ [t] := by
  rw [beginCondition?] at begun
  split at begun
  · split at begun <;> cases begun
    simp [tokens, OpenGroup.tokens, atStart, Place.tokens]
  · split at begun
    · obtain ⟨place, operand, rfl⟩ := Option.map_eq_some_iff.mp begun
      rw [tokens, Place.beginOperand?_tokens operand]
      simp [tokens, atStart, Place.tokens]
    · cases begun

theorem beginCondition?_grammatical (begun : s.beginCondition? t = some s')
    (wellFormed : s.Grammatical) : s'.Grammatical := by
  rw [beginCondition?] at begun
  split at begun
  · split at begun <;> cases begun
    refine ⟨?_, by simp, trivial⟩
    simp only [List.mem_cons, forall_eq_or_imp]
    exact ⟨⟨wellFormed.before, by assumption⟩, wellFormed.groups⟩
  · split at begun
    · obtain ⟨place, operand, rfl⟩ := Option.map_eq_some_iff.mp begun
      exact ⟨wellFormed.groups, wellFormed.before,
        Place.beginOperand?_grammatical operand (by simp)⟩
    · cases begun

/-- Behind a condition a connective or a closing parenthesis is appended. -/
theorem continueChain?_tokens {c : ConditionTree} (atDone : s.place = .done c)
    (continued : s.continueChain? c t = some s') : s'.tokens = s.tokens ++ [t] := by
  rw [continueChain?] at continued
  split at continued <;> cases continued
  · simp [tokens, atDone, Place.tokens, ChainStart.tokens, ChainStart.extend?_tokens]
  · next groups =>
    simp [tokens, atDone, groups, Place.tokens, ConditionTree.tokens, OpenGroup.tokens,
      ChainStart.extend?_tokens]

theorem continueChain?_grammatical {c : ConditionTree}
    (continued : s.continueChain? c t = some s') (wellFormed : s.Grammatical)
    (condition : c.Grammatical) : s'.Grammatical := by
  have inside := ChainStart.extend?_grammatical wellFormed.before condition
  rw [continueChain?] at continued
  split at continued <;> cases continued
  · refine ⟨wellFormed.groups, ?_, trivial⟩
    rintro b ⟨⟩
    exact ⟨inside, by assumption⟩
  · next closed groups =>
    have group := wellFormed.groups
    simp only [groups, List.mem_cons, forall_eq_or_imp] at group
    exact ⟨group.2, group.1.1, group.1.2, inside, closed⟩

/-- A step appends the token it reads. -/
theorem next?_tokens (next : s.next? t = some s') : s'.tokens = s.tokens ++ [t] := by
  rw [next?] at next
  split at next
  · exact beginCondition?_tokens (by assumption) next
  · next atCall =>
    obtain ⟨place, continued, rfl⟩ := Option.map_eq_some_iff.mp next
    rw [moveTo, tokens, Place.continueCall?_tokens continued]
    simp [tokens, atCall, Place.tokens]
  · next atOperator =>
    split at next <;> cases next
    simp [tokens, moveTo, atOperator, Place.tokens, LeftHalf.tokens]
  · next atRight =>
    obtain ⟨place, begun, rfl⟩ := Option.map_eq_some_iff.mp next
    rw [moveTo, tokens, Place.beginOperand?_tokens begun]
    simp [tokens, atRight, Place.tokens]
  · exact continueChain?_tokens (by assumption) next

/-- A step keeps every token at its place. -/
theorem next?_grammatical (next : s.next? t = some s') (wellFormed : s.Grammatical) :
    s'.Grammatical := by
  have ⟨groups, before, condition⟩ := wellFormed
  rw [next?] at next
  split at next <;> simp only [*, Place.Grammatical] at condition
  · exact beginCondition?_grammatical next wellFormed
  · obtain ⟨place, continued, rfl⟩ := Option.map_eq_some_iff.mp next
    exact ⟨groups, before, Place.continueCall?_grammatical continued condition.1 condition.2⟩
  · split at next <;> cases next
    exact ⟨groups, before, condition, by assumption⟩
  · obtain ⟨place, begun, rfl⟩ := Option.map_eq_some_iff.mp next
    refine ⟨groups, before, Place.beginOperand?_grammatical begun ?_⟩
    rintro l ⟨⟩
    exact condition
  · exact continueChain?_grammatical next wellFormed condition

/-- A rule that is finished has all the tokens of its state. -/
theorem finished?_tokens {r : RuleTree} (finished : s.finished? = some r) :
    r.tokens = s.tokens := by
  rw [finished?] at finished
  split at finished <;> cases finished
  next noGroups atDone =>
    simp [tokens, noGroups, atDone, Place.tokens, ChainStart.extend?_tokens]

/-- A rule that is finished is a tree of the grammar. -/
theorem finished?_grammatical {r : RuleTree} (finished : s.finished? = some r)
    (wellFormed : s.Grammatical) : r.Grammatical := by
  have condition := wellFormed.place
  rw [finished?] at finished
  split at finished <;> cases finished
  next atDone =>
    rw [atDone] at condition
    exact ChainStart.extend?_grammatical wellFormed.before condition

theorem initial_grammatical : initial.Grammatical := ⟨by simp [initial], by simp [initial], trivial⟩

end RuleState

/-! ## Reading a strategy -/

namespace ParseState

def tokens : ParseState → List Token
  | .start => []
  | .entry label rule => label :: rule.tokens
  | .exit entryLabel entryTree exitLabel rule =>
    entryLabel :: entryTree.tokens ++ exitLabel :: rule.tokens

def Grammatical : ParseState → Prop
  | .start => True
  | .entry label rule => label.kind = .entryLabel ∧ rule.Grammatical
  | .exit entryLabel entryTree exitLabel rule =>
    entryLabel.kind = .entryLabel ∧ entryTree.Grammatical ∧ exitLabel.kind = .exitLabel ∧
      rule.Grammatical

variable {s s' : ParseState} {t : Token}

theorem next?_tokens (next : s.next? t = some s') : s'.tokens = s.tokens ++ [t] := by
  unfold next? at next
  split at next
  · split at next <;> cases next
    rfl
  · split at next
    · next finished _ =>
      cases next
      simp only [tokens, RuleState.finished?_tokens finished]
      simp [RuleState.tokens, RuleState.initial, Place.tokens]
    · obtain ⟨rule, stepped, rfl⟩ := Option.map_eq_some_iff.mp next
      simp [tokens, RuleState.next?_tokens stepped]
  · obtain ⟨rule, stepped, rfl⟩ := Option.map_eq_some_iff.mp next
    simp [tokens, RuleState.next?_tokens stepped]

theorem next?_grammatical (next : s.next? t = some s') (wellFormed : s.Grammatical) :
    s'.Grammatical := by
  unfold next? at next
  split at next
  · split at next <;> cases next
    exact ⟨by assumption, RuleState.initial_grammatical⟩
  · obtain ⟨label, rule⟩ := wellFormed
    split at next
    · next finished exitLabel =>
      cases next
      exact ⟨label, RuleState.finished?_grammatical finished rule, exitLabel,
        RuleState.initial_grammatical⟩
    · obtain ⟨rule', stepped, rfl⟩ := Option.map_eq_some_iff.mp next
      exact ⟨label, RuleState.next?_grammatical stepped rule⟩
  · obtain ⟨entryLabel, entryTree, exitLabel, rule⟩ := wellFormed
    obtain ⟨rule', stepped, rfl⟩ := Option.map_eq_some_iff.mp next
    exact ⟨entryLabel, entryTree, exitLabel, RuleState.next?_grammatical stepped rule⟩

/-- Reading appends the tokens that are read, each at its place. -/
theorem foldlM_step (ts : List Token) : ∀ {s s' : ParseState},
    ts.foldlM step s = .ok s' → s.Grammatical →
    s'.tokens = s.tokens ++ ts ∧ s'.Grammatical := by
  induction ts with
  | nil =>
    rintro s s' ⟨⟩ wellFormed
    exact ⟨(List.append_nil _).symm, wellFormed⟩
  | cons t ts ih =>
    intro s s' run wellFormed
    rw [List.foldlM_cons, step] at run
    cases stepped : s.next? t with
    | none =>
      rw [stepped] at run
      cases run
    | some middle =>
      rw [stepped] at run
      obtain ⟨appended, kept⟩ := ih run (next?_grammatical stepped wellFormed)
      rw [next?_tokens stepped, List.append_assoc] at appended
      exact ⟨appended, kept⟩

theorem foldlM_step_of_ok (stepped : s.step t = .ok s') (ts : List Token) :
    (t :: ts).foldlM step s = ts.foldlM step s' := by
  rw [List.foldlM_cons, stepped]
  rfl

/-- A label of the exit rule is read by the strategy.  Any other token of the entry
rule is read by the rule. -/
theorem step_entry {label : Token} {rule : RuleState} (notExit : t.kind ≠ .exitLabel) :
    (entry label rule).step t =
      (rule.step (.expected (.kind .exitLabel)) t).map (entry label) := by
  have passed : (entry label rule).next? t = (rule.next? t).map (entry label) := by
    rw [next?]
    split
    · next exitLabel => exact absurd exitLabel notExit
    · rfl
  rw [step, RuleState.step, passed]
  cases rule.next? t with
  | none => rfl
  | some rule' => rfl

theorem step_exit {entryLabel : Token} {entryTree : RuleTree} {exitLabel : Token}
    {rule : RuleState} : (exit entryLabel entryTree exitLabel rule).step t =
      (rule.step .trailing t).map (exit entryLabel entryTree exitLabel) := by
  rw [step, RuleState.step, next?]
  cases rule.next? t with
  | none => rfl
  | some rule' => rfl

/-- A strategy reads the tokens of a rule as the rule does. -/
theorem foldlM_step_of_rule {atEnd : SyntaxFault} {wrap : RuleState → ParseState}
    (ts : List Token) (stepped : ∀ t ∈ ts, ∀ rule : RuleState,
      (wrap rule).step t = (rule.step atEnd t).map wrap) (rule : RuleState) :
    ts.foldlM step (wrap rule) = (rule.read atEnd ts).map wrap := by
  induction ts generalizing rule with
  | nil => rfl
  | cons t ts ih =>
    rw [List.foldlM_cons, stepped t List.mem_cons_self, RuleState.read_cons]
    cases rule.step atEnd t with
    | error e => rfl
    | ok rule' => exact ih (fun u member => stepped u (List.mem_cons_of_mem t member)) rule'

end ParseState

/-! ### No rule has a label -/

theorem OperandTree.Grammatical.kind_not_label {x : OperandTree} (wellFormed : x.Grammatical) :
    ∀ t ∈ x.tokens, t.kind ≠ .entryLabel ∧ t.kind ≠ .exitLabel := by
  cases x with
  | field t f =>
    rw [OperandTree.Grammatical] at wellFormed
    simp [OperandTree.tokens, wellFormed]
  | number t =>
    rw [OperandTree.Grammatical] at wellFormed
    simp [OperandTree.tokens, wellFormed]
  | call name lp ft f comma period rp =>
    obtain ⟨atName, atLp, atField, atComma, atPeriod, atRp⟩ := wellFormed
    simp [OperandTree.tokens, atName, atLp, atField, atComma, atPeriod, atRp]

mutual

/-- A rule of the grammar has no label among its tokens. -/
theorem RuleTree.Grammatical.kind_not_label : {r : RuleTree} → r.Grammatical →
    ∀ t ∈ r.tokens, t.kind ≠ .entryLabel ∧ t.kind ≠ .exitLabel
  | .one c, wellFormed, t, member =>
    ConditionTree.Grammatical.kind_not_label wellFormed t member
  | .chain before t op last, wellFormed, u, member => by
    rw [RuleTree.Grammatical] at wellFormed
    obtain ⟨beforeWellFormed, connective, lastWellFormed⟩ := wellFormed
    simp only [RuleTree.tokens, List.mem_append, List.mem_cons] at member
    rcases member with member | rfl | member
    · exact RuleTree.Grammatical.kind_not_label beforeWellFormed u member
    · simp [connective]
    · exact ConditionTree.Grammatical.kind_not_label lastWellFormed u member

theorem ConditionTree.Grammatical.kind_not_label : {c : ConditionTree} → c.Grammatical →
    ∀ t ∈ c.tokens, t.kind ≠ .entryLabel ∧ t.kind ≠ .exitLabel
  | .comparison c, wellFormed, t, member => by
    rw [ConditionTree.Grammatical] at wellFormed
    obtain ⟨left, operator, right⟩ := wellFormed
    simp only [ConditionTree.tokens, ComparisonTree.tokens, List.mem_append, List.mem_cons]
      at member
    rcases member with member | rfl | member
    · exact left.kind_not_label t member
    · simp [operator]
    · exact right.kind_not_label t member
  | .group lp rule rp, wellFormed, t, member => by
    rw [ConditionTree.Grammatical] at wellFormed
    obtain ⟨opened, inside, closed⟩ := wellFormed
    simp only [ConditionTree.tokens, List.mem_append, List.mem_cons, List.not_mem_nil, or_false]
      at member
    rcases member with (rfl | member) | rfl
    · simp [opened]
    · exact RuleTree.Grammatical.kind_not_label inside t member
    · simp [closed]

end

/-! ## The language -/

/-- The state behind the last token of a rule. -/
def RuleTree.endState (r : RuleTree) : RuleState :=
  ⟨0 + r.comparisonCount, [], r.before?, .done r.last⟩

theorem RuleTree.finished?_endState (r : RuleTree) : r.endState.finished? = some r :=
  congrArg some r.extend?_before?_last

/-- The tokens in front of the label of the exit rule are read to the end of the entry
rule, or to its first breach. -/
theorem StrategyTree.Grammatical.foldlM_entry {tree : StrategyTree}
    (wellFormed : tree.Grammatical) :
    (tree.entryLabel :: tree.entry.tokens).foldlM ParseState.step .start =
      verdict (tree.entry.breaches 0 0) (.entry tree.entryLabel tree.entry.endState) := by
  obtain ⟨entryLabel, entryWellFormed, -, -⟩ := wellFormed
  have started : ParseState.start.step tree.entryLabel =
      .ok (.entry tree.entryLabel .initial) := by
    rw [ParseState.step, ParseState.next?, if_pos entryLabel]
  rw [ParseState.foldlM_step_of_ok started,
    ParseState.foldlM_step_of_rule _ fun t member rule =>
      ParseState.step_entry (entryWellFormed.kind_not_label t member).2]
  exact (congrArg _ (entryWellFormed.read _ 0 [])).trans (verdict_map _ _ _)

/-- From there the tokens are read to the end of the exit rule, or to its first
breach. -/
theorem StrategyTree.Grammatical.foldlM_exit {tree : StrategyTree}
    (wellFormed : tree.Grammatical) :
    (tree.exitLabel :: tree.exit.tokens).foldlM ParseState.step
        (.entry tree.entryLabel tree.entry.endState) =
      verdict (tree.exit.breaches 0 0)
        (.exit tree.entryLabel tree.entry tree.exitLabel tree.exit.endState) := by
  obtain ⟨-, -, exitLabel, exitWellFormed⟩ := wellFormed
  have turned : (ParseState.entry tree.entryLabel tree.entry.endState).step tree.exitLabel =
      .ok (.exit tree.entryLabel tree.entry tree.exitLabel .initial) := by
    rw [ParseState.step, ParseState.next?, tree.entry.finished?_endState, exitLabel]
  rw [ParseState.foldlM_step_of_ok turned,
    ParseState.foldlM_step_of_rule _ fun t _ rule => ParseState.step_exit]
  exact (congrArg _ (exitWellFormed.read _ 0 [])).trans (verdict_map _ _ _)

/-- All tokens are read to the end of the exit rule, or to the first breach. -/
theorem StrategyTree.Grammatical.foldlM_tokens {tree : StrategyTree}
    (wellFormed : tree.Grammatical) :
    tree.tokens.foldlM ParseState.step .start =
      verdict tree.breaches
        (.exit tree.entryLabel tree.entry tree.exitLabel tree.exit.endState) := by
  rw [tokens, List.foldlM_append, wellFormed.foldlM_entry, breaches]
  exact verdict_bind wellFormed.foldlM_exit

/-- The tokens of a tree give the tree, or the first error of the tree. -/
theorem StrategyTree.Grammatical.ofTokens {tree : StrategyTree} (wellFormed : tree.Grammatical)
    {s : TokenStream} (tokens : tree.tokens = s.tokens) :
    StrategyTree.ofTokens s = verdict tree.breaches tree := by
  rw [StrategyTree.ofTokens, ← tokens, wellFormed.foldlM_tokens]
  apply verdict_bind_ok
  rw [ParseState.finish, ParseState.finished?, tree.exit.finished?_endState]
  rfl

/-- A tree that is returned is a tree of the grammar with the tokens of the text. -/
theorem StrategyTree.grammatical_of_ofTokens {s : TokenStream} {tree : StrategyTree}
    (parsed : StrategyTree.ofTokens s = .ok tree) :
    tree.Grammatical ∧ tree.tokens = s.tokens := by
  rw [StrategyTree.ofTokens] at parsed
  cases run : s.tokens.foldlM ParseState.step .start with
  | error e =>
    rw [run] at parsed
    cases parsed
  | ok state =>
    rw [run] at parsed
    obtain ⟨read, wellFormed⟩ := ParseState.foldlM_step s.tokens run trivial
    replace parsed : state.finish (.endAt s.length) = .ok tree := parsed
    rw [ParseState.finish] at parsed
    split at parsed <;> cases parsed
    next finished =>
      cases state with
      | start => cases finished
      | entry label rule => cases finished
      | exit entryLabel entryTree exitLabel rule =>
        obtain ⟨exitTree, ended, rfl⟩ := Option.map_eq_some_iff.mp finished
        obtain ⟨atEntry, entryWellFormed, atExit, exitWellFormed⟩ := wellFormed
        refine ⟨⟨atEntry, entryWellFormed, atExit,
          RuleState.finished?_grammatical ended exitWellFormed⟩, ?_⟩
        rw [StrategyTree.tokens, RuleState.finished?_tokens ended]
        exact read

/-- The sentences are the kinds of the trees. -/
theorem Grammar.sentence_iff_exists_tree {ts : List Token} :
    Sentence (ts.map Token.kind) ↔ ∃ tree : StrategyTree, tree.Grammatical ∧ tree.tokens = ts := by
  constructor
  · rintro ⟨entry, exit, derived⟩
    obtain ⟨tree, wellFormed, tokens, -, -⟩ := strategy_iff_exists_tree.mp derived
    exact ⟨tree, wellFormed, tokens⟩
  · rintro ⟨tree, wellFormed, tokens⟩
    exact ⟨_, _, strategy_iff_exists_tree.mpr ⟨tree, wellFormed, tokens, rfl, rfl⟩⟩

/-- The sentences within the bounds are the kinds of the trees without breaches. -/
theorem Grammar.boundedSentence_iff_exists_tree {ts : List Token} :
    BoundedSentence (ts.map Token.kind) ↔
      ∃ tree : StrategyTree, tree.Grammatical ∧ tree.tokens = ts ∧ tree.breaches = [] := by
  constructor
  · rintro ⟨entry, exit, derived, entryAllowed, exitAllowed⟩
    obtain ⟨tree, wellFormed, tokens, rfl, rfl⟩ := strategy_iff_exists_tree.mp derived
    exact ⟨tree, wellFormed, tokens, tree.breaches_eq_nil_iff.mpr ⟨entryAllowed, exitAllowed⟩⟩
  · rintro ⟨tree, wellFormed, tokens, noBreach⟩
    obtain ⟨entryAllowed, exitAllowed⟩ := tree.breaches_eq_nil_iff.mp noBreach
    exact ⟨_, _, strategy_iff_exists_tree.mpr ⟨tree, wellFormed, tokens, rfl, rfl⟩,
      entryAllowed, exitAllowed⟩

namespace StrategyTree

theorem ofText_eq_ofTokens {text : String} {s : TokenStream}
    (tokenized : TokenStream.ofText text = .ok s) : ofText text = ofTokens s := by
  rw [ofText, tokenized]
  rfl

theorem exists_stream_of_ofText {text : String} {tree : StrategyTree}
    (parsed : ofText text = .ok tree) :
    ∃ s, TokenStream.ofText text = .ok s ∧ ofTokens s = .ok tree := by
  cases tokenized : TokenStream.ofText text with
  | error e =>
    rw [ofText, tokenized] at parsed
    cases parsed
  | ok s => exact ⟨s, rfl, (ofText_eq_ofTokens tokenized).symm.trans parsed⟩

/-- A stream is accepted exactly when it has a tree without breaches. -/
theorem ofTokens_eq_ok_iff {s : TokenStream} {tree : StrategyTree} :
    ofTokens s = .ok tree ↔ tree.Grammatical ∧ tree.tokens = s.tokens ∧ tree.breaches = [] := by
  constructor
  · intro parsed
    obtain ⟨wellFormed, tokens⟩ := grammatical_of_ofTokens parsed
    rw [wellFormed.ofTokens tokens, verdict_eq_ok_iff] at parsed
    exact ⟨wellFormed, tokens, parsed.1⟩
  · rintro ⟨wellFormed, tokens, noBreach⟩
    rw [wellFormed.ofTokens tokens, verdict_eq_ok_iff]
    exact ⟨noBreach, rfl⟩

/-- A text has a tree exactly when it is a sentence within the bounds, the tree is the only
one with the tokens of the text, and a sentence beyond the bounds is refused at its first
breach.  The breaches are listed in the order of the tokens at which they stand, so no other
one comes before it.  Two trees with the same tokens are one tree, as both are what the one
run over the tokens returns. -/
theorem ofText_recognizes_grammar (text : String) :
    ((∃ tree, ofText text = .ok tree) ↔
      ∃ s, TokenStream.ofText text = .ok s ∧
        Grammar.BoundedSentence (s.tokens.map Token.kind)) ∧
    (∀ tree, ofText text = .ok tree →
      ∃ s, TokenStream.ofText text = .ok s ∧ tree.Grammatical ∧ tree.tokens = s.tokens ∧
        ∀ other : StrategyTree, other.Grammatical → other.tokens = s.tokens → other = tree) ∧
    (∀ s, TokenStream.ofText text = .ok s → Grammar.Sentence (s.tokens.map Token.kind) →
      ¬ Grammar.BoundedSentence (s.tokens.map Token.kind) →
      ∃ e, ofText text = .error e ∧
        (∃ tree : StrategyTree, tree.Grammatical ∧ tree.tokens = s.tokens) ∧
        ∀ tree : StrategyTree, tree.Grammatical → tree.tokens = s.tokens →
          tree.breaches.head? = some e ∧
            (tree.breaches.map SyntaxError.position).Sublist
              (s.tokens.map Token.position)) := by
  refine ⟨⟨?_, ?_⟩, ?_, ?_⟩
  · rintro ⟨tree, parsed⟩
    obtain ⟨s, tokenized, accepted⟩ := exists_stream_of_ofText parsed
    exact ⟨s, tokenized,
      Grammar.boundedSentence_iff_exists_tree.mpr ⟨tree, ofTokens_eq_ok_iff.mp accepted⟩⟩
  · rintro ⟨s, tokenized, bounded⟩
    obtain ⟨tree, accepted⟩ := Grammar.boundedSentence_iff_exists_tree.mp bounded
    exact ⟨tree, (ofText_eq_ofTokens tokenized).trans (ofTokens_eq_ok_iff.mpr accepted)⟩
  · intro tree parsed
    obtain ⟨s, tokenized, accepted⟩ := exists_stream_of_ofText parsed
    obtain ⟨wellFormed, tokens⟩ := grammatical_of_ofTokens accepted
    refine ⟨s, tokenized, wellFormed, tokens, ?_⟩
    intro other otherWellFormed otherTokens
    rw [otherWellFormed.ofTokens otherTokens, verdict_eq_ok_iff] at accepted
    exact accepted.2
  · intro s tokenized sentence unbounded
    obtain ⟨tree, wellFormed, tokens⟩ := Grammar.sentence_iff_exists_tree.mp sentence
    have refusedBy (tree : StrategyTree) (wellFormed : tree.Grammatical)
        (tokens : tree.tokens = s.tokens) :
        ∃ e, tree.breaches.head? = some e ∧ ofText text = .error e := by
      rw [ofText_eq_ofTokens tokenized, wellFormed.ofTokens tokens]
      cases errors : tree.breaches with
      | nil =>
        exact absurd (Grammar.boundedSentence_iff_exists_tree.mpr
          ⟨tree, wellFormed, tokens, errors⟩) unbounded
      | cons e es => exact ⟨e, rfl, rfl⟩
    obtain ⟨e, -, refused⟩ := refusedBy tree wellFormed tokens
    refine ⟨e, refused, ⟨tree, wellFormed, tokens⟩, ?_⟩
    intro other otherWellFormed otherTokens
    obtain ⟨e', first, refused'⟩ := refusedBy other otherWellFormed otherTokens
    obtain rfl : e = e' := Except.error.inj (refused.symm.trans refused')
    exact ⟨first, otherTokens ▸ other.breaches_sublist⟩

/-- An entry rule with one parenthesis more than can be open at once. -/
def deepText : String :=
  "ENTRY: " ++ String.ofList (List.replicate 33 '(') ++ "CLOSE > 1" ++
    String.ofList (List.replicate 33 ')') ++ " EXIT: CLOSE < 1"

/-- A text with a tree, and one that is refused at its last opening parenthesis. -/
theorem plain_text_has_tree_deep_text_refused :
    (∃ tree, ofText "ENTRY: CLOSE > 1 EXIT: CLOSE < 1" = .ok tree) ∧
      ∃ e, ofText deepText = .error e ∧ e.position = 39 ∧
        ∃ tree : StrategyTree, tree.Grammatical ∧ tree.breaches.head? = some e := by
  have compared (op : CompareOp) : Grammar.RuleSet 0 1 _ :=
    .one (.comparison (.compare op (.field .closing) Grammar.Expression.number))
  have shallow := @Grammar.Strategy.rules ⟨0, 1⟩ ⟨0, 1⟩ _ _ (compared .greater) (compared .less)
  have deep := @Grammar.Strategy.rules ⟨0 + 33, 1⟩ ⟨0, 1⟩ _ _
    ((compared .greater).wrap 33) (compared .less)
  constructor
  · refine (ofText_recognizes_grammar _).1.mpr
      ⟨⟨[⟨.entryLabel, "ENTRY:", 0⟩, ⟨.field .closing, "CLOSE", 7⟩, ⟨.operator .greater, ">", 13⟩,
        ⟨.number, "1", 15⟩, ⟨.exitLabel, "EXIT:", 17⟩, ⟨.field .closing, "CLOSE", 23⟩,
        ⟨.operator .less, "<", 29⟩, ⟨.number, "1", 31⟩], 32⟩,
        by rfl, ⟨0, 1⟩, ⟨0, 1⟩, shallow, ?_, ?_⟩
    · exact ⟨by decide, by decide⟩
    · exact ⟨by decide, by decide⟩
  · have kinds : (TokenStream.ofText deepText).toOption.map (·.tokens.map Token.kind) =
        some (.entryLabel :: (List.replicate 33 .leftParen ++ [.field .closing, .operator .greater,
          .number] ++ List.replicate 33 .rightParen) ++
          .exitLabel :: [.field .closing, .operator .less, .number]) := by
      decide +kernel
    have position : (match ofText deepText with
        | .error e => some e.position
        | .ok _ => none) = some 39 := by
      decide +kernel
    cases tokenized : TokenStream.ofText deepText with
    | error e =>
      rw [tokenized] at kinds
      cases kinds
    | ok s =>
      rw [tokenized] at kinds
      have sentence : Grammar.Sentence (s.tokens.map Token.kind) := by
        have derived : s.tokens.map Token.kind = _ := Option.some.inj kinds
        rw [derived]
        exact ⟨_, _, deep⟩
      have unbounded : ¬ Grammar.BoundedSentence (s.tokens.map Token.kind) := by
        intro bounded
        obtain ⟨tree, parsed⟩ := (ofText_recognizes_grammar deepText).1.mpr ⟨s, tokenized, bounded⟩
        rw [parsed] at position
        cases position
      obtain ⟨e, refused, ⟨tree, wellFormed, tokens⟩, first⟩ :=
        (ofText_recognizes_grammar deepText).2.2 s tokenized sentence unbounded
      rw [refused] at position
      exact ⟨e, refused, Option.some.inj position, tree, wellFormed,
        (first tree wellFormed tokens).1⟩

end StrategyTree

end MarketRules
