import Mathlib.Data.List.Basic
import MarketRules.Proofs.Language.Locality
import MarketRules.Proofs.Language.RoundTrip

/-!
# Texts that are spelled in another way

A strategy depends on its text only by what the tokens mean.  Their places do not matter,
and of a comparison only the operator does, whether it is written as a symbol or as a word.
So blanks, letter case and the two spellings of an operator can be changed in any text, and
either both texts compile to the same strategy or neither compiles.
-/

namespace MarketRules

/-! ## What a token means -/

/-- What a word means: an operator is the comparison that it stands for, however it is
written. -/
def meaning : TokenKind × String → TokenKind × String
  | (.operator op, _) => (.operator op, "")
  | w => w

namespace Token

/-- What a token says besides its place and the spelling of an operator. -/
def sense (t : Token) : TokenKind × String := meaning t.word

theorem map_sense (ts : List Token) : ts.map sense = (ts.map word).map meaning :=
  List.map_map.symm

variable {t t' : Token}

/-- The sense of a token forgets how an operator is written, and nothing else. -/
theorem sense_cases (t : Token) :
    (∃ op, t.kind = .operator op ∧ t.sense = (.operator op, "")) ∨ t.sense = (t.kind, t.text) := by
  obtain ⟨kind, text, position⟩ := t
  cases kind with
  | operator op => exact .inl ⟨op, rfl, rfl⟩
  | _ => exact .inr rfl

theorem fst_sense (t : Token) : t.sense.1 = t.kind := by
  rcases t.sense_cases with ⟨op, operator, sense⟩ | sense
  · rw [sense, operator]
  · rw [sense]

/-- Tokens of one sense have one kind. -/
theorem kind_eq_of_sense (same : t'.sense = t.sense) : t'.kind = t.kind := by
  rw [← fst_sense, ← fst_sense, same]

/-- Tokens of one sense are written in one way, unless they are operators. -/
theorem text_eq_of_sense (same : t'.sense = t.sense) {kind : TokenKind} (known : t.kind = kind)
    (other : ∀ op, kind ≠ .operator op) : t'.text = t.text := by
  have snd_sense {u : Token} (known : u.kind = kind) : u.sense.2 = u.text := by
    rcases u.sense_cases with ⟨op, operator, -⟩ | sense
    · exact absurd (known.symm.trans operator) (other op)
    · rw [sense]
  rw [← snd_sense known, ← snd_sense ((kind_eq_of_sense same).trans known), same]

end Token

open Token (kind_eq_of_sense text_eq_of_sense)

/-! ## Trees of the same meaning

What a tree builds and how far it extends depends only on what its tokens mean. -/

/-- Tokens with the senses of an operand make an operand that is built to the same. -/
theorem OperandTree.Grammatical.exists_of_senses {x : OperandTree} (wellFormed : x.Grammatical)
    {ts : List Token} (same : ts.map Token.sense = x.tokens.map Token.sense) :
    ∃ y : OperandTree, y.Grammatical ∧ y.tokens = ts ∧ y.build = x.build := by
  cases x with
  | field t f =>
    obtain ⟨t', rfl, sense⟩ := List.map_eq_singleton_iff.mp same
    exact ⟨.field t' f, (kind_eq_of_sense sense).trans wellFormed, rfl, rfl⟩
  | number t =>
    obtain ⟨t', rfl, sense⟩ := List.map_eq_singleton_iff.mp same
    exact ⟨.number t', (kind_eq_of_sense sense).trans wellFormed, rfl,
      congrArg Operand.ofText (text_eq_of_sense sense wellFormed (by simp))⟩
  | call name lp ft f comma period rp =>
    obtain ⟨atName, atLp, atField, atComma, atPeriod, atRp⟩ := wellFormed
    obtain ⟨name', rest, rfl, nameSense, same⟩ := List.map_eq_cons_iff.mp same
    obtain ⟨lp', rest, rfl, lpSense, same⟩ := List.map_eq_cons_iff.mp same
    obtain ⟨ft', rest, rfl, fieldSense, same⟩ := List.map_eq_cons_iff.mp same
    obtain ⟨comma', rest, rfl, commaSense, same⟩ := List.map_eq_cons_iff.mp same
    obtain ⟨period', rest, rfl, periodSense, same⟩ := List.map_eq_cons_iff.mp same
    obtain ⟨rp', rfl, rpSense⟩ := List.map_eq_singleton_iff.mp same
    refine ⟨.call name' lp' ft' f comma' period' rp',
      ⟨(kind_eq_of_sense nameSense).trans atName, (kind_eq_of_sense lpSense).trans atLp,
        (kind_eq_of_sense fieldSense).trans atField, (kind_eq_of_sense commaSense).trans atComma,
        (kind_eq_of_sense periodSense).trans atPeriod, (kind_eq_of_sense rpSense).trans atRp⟩,
      rfl, ?_⟩
    rw [OperandTree.build, text_eq_of_sense nameSense atName (by simp),
      text_eq_of_sense periodSense atPeriod (by simp)]
    rfl

theorem ComparisonTree.Grammatical.exists_of_senses {c : ComparisonTree}
    (wellFormed : c.Grammatical) {ts : List Token}
    (same : ts.map Token.sense = c.tokens.map Token.sense) :
    ∃ d : ComparisonTree, d.Grammatical ∧ d.tokens = ts ∧ d.build = c.build := by
  obtain ⟨atLeft, operator, atRight⟩ := wellFormed
  rw [ComparisonTree.tokens, List.map_append, List.map_cons] at same
  obtain ⟨front, back, rfl, leftSenses, same⟩ := List.map_eq_append_iff.mp same
  obtain ⟨t, back, rfl, sense, rightSenses⟩ := List.map_eq_cons_iff.mp same
  obtain ⟨left, leftWellFormed, rfl, builtLeft⟩ := atLeft.exists_of_senses leftSenses
  obtain ⟨right, rightWellFormed, rfl, builtRight⟩ := atRight.exists_of_senses rightSenses
  refine ⟨⟨left, t, c.op, right⟩,
    ⟨leftWellFormed, (kind_eq_of_sense sense).trans operator, rightWellFormed⟩, rfl, ?_⟩
  rw [ComparisonTree.build, builtLeft, builtRight]
  rfl

mutual

/-- Tokens with the senses of a rule make a rule of the same shape that is built to the same.
-/
theorem RuleTree.Grammatical.exists_of_senses : {r : RuleTree} → r.Grammatical →
    ∀ {ts : List Token}, ts.map Token.sense = r.tokens.map Token.sense →
    ∃ r' : RuleTree, r'.Grammatical ∧ r'.tokens = ts ∧ r'.build = r.build ∧ r'.extent = r.extent
  | .one c, wellFormed, ts, same => by
    rw [RuleTree.Grammatical] at wellFormed
    obtain ⟨d, atCondition, tokens, built, nesting, count⟩ :=
      ConditionTree.Grammatical.exists_of_senses wellFormed same
    exact ⟨.one d, atCondition, tokens, built, congrArg₂ Grammar.Extent.mk nesting count⟩
  | .chain before t op last, wellFormed, ts, same => by
    rw [RuleTree.Grammatical] at wellFormed
    obtain ⟨atBefore, connective, atLast⟩ := wellFormed
    rw [RuleTree.tokens, List.map_append, List.map_cons] at same
    obtain ⟨front, back, rfl, beforeSenses, same⟩ := List.map_eq_append_iff.mp same
    obtain ⟨t', back, rfl, sense, lastSenses⟩ := List.map_eq_cons_iff.mp same
    obtain ⟨before', beforeWellFormed, rfl, builtBefore, extent⟩ :=
      RuleTree.Grammatical.exists_of_senses atBefore beforeSenses
    obtain ⟨last', lastWellFormed, rfl, builtLast, lastNesting, lastCount⟩ :=
      ConditionTree.Grammatical.exists_of_senses atLast lastSenses
    obtain ⟨nesting, count⟩ := Grammar.Extent.mk.inj extent
    refine ⟨.chain before' t' op last',
      ⟨beforeWellFormed, (kind_eq_of_sense sense).trans connective, lastWellFormed⟩, rfl, ?_, ?_⟩
    · rw [RuleTree.build, RuleTree.build, builtBefore, builtLast]
    · rw [RuleTree.extent, RuleTree.extent, RuleTree.nesting, RuleTree.comparisonCount, nesting,
        count, lastNesting, lastCount, RuleTree.nesting, RuleTree.comparisonCount]

theorem ConditionTree.Grammatical.exists_of_senses : {c : ConditionTree} → c.Grammatical →
    ∀ {ts : List Token}, ts.map Token.sense = c.tokens.map Token.sense →
    ∃ c' : ConditionTree, c'.Grammatical ∧ c'.tokens = ts ∧ c'.build = c.build ∧
      c'.nesting = c.nesting ∧ c'.comparisonCount = c.comparisonCount
  | .comparison c, wellFormed, ts, same => by
    rw [ConditionTree.Grammatical] at wellFormed
    obtain ⟨d, atComparison, tokens, built⟩ := wellFormed.exists_of_senses same
    exact ⟨.comparison d, atComparison, tokens, built, rfl, rfl⟩
  | .group lp rule rp, wellFormed, ts, same => by
    rw [ConditionTree.Grammatical] at wellFormed
    obtain ⟨opened, inside, closed⟩ := wellFormed
    rw [ConditionTree.tokens, List.map_append, List.map_cons] at same
    obtain ⟨front, back, rfl, frontSenses, backSenses⟩ := List.map_eq_append_iff.mp same
    obtain ⟨lp', front, rfl, lpSense, insideSenses⟩ := List.map_eq_cons_iff.mp frontSenses
    obtain ⟨rp', rfl, rpSense⟩ := List.map_eq_singleton_iff.mp backSenses
    obtain ⟨rule', wellFormed, rfl, built, extent⟩ :=
      RuleTree.Grammatical.exists_of_senses inside insideSenses
    obtain ⟨nesting, count⟩ := Grammar.Extent.mk.inj extent
    exact ⟨.group lp' rule' rp',
      ⟨(kind_eq_of_sense lpSense).trans opened, wellFormed,
        (kind_eq_of_sense rpSense).trans closed⟩,
      rfl, built, congrArg (· + 1) nesting, count⟩

end

/-- Tokens with the senses of a strategy make a strategy of the same shape that is built to
the same. -/
theorem StrategyTree.Grammatical.exists_of_senses {tree : StrategyTree}
    (wellFormed : tree.Grammatical) {ts : List Token}
    (same : ts.map Token.sense = tree.tokens.map Token.sense) :
    ∃ tree' : StrategyTree, tree'.Grammatical ∧ tree'.tokens = ts ∧ tree'.build = tree.build ∧
      tree'.entry.extent = tree.entry.extent ∧ tree'.exit.extent = tree.exit.extent := by
  obtain ⟨atEntry, entryWellFormed, atExit, exitWellFormed⟩ := wellFormed
  rw [StrategyTree.tokens, List.map_append, List.map_cons, List.map_cons] at same
  obtain ⟨front, back, rfl, frontSenses, backSenses⟩ := List.map_eq_append_iff.mp same
  obtain ⟨entryLabel, front, rfl, entrySense, frontSenses⟩ := List.map_eq_cons_iff.mp frontSenses
  obtain ⟨exitLabel, back, rfl, exitSense, backSenses⟩ := List.map_eq_cons_iff.mp backSenses
  obtain ⟨entry, entryWellFormed', rfl, sameEntry, entryExtent⟩ :=
    entryWellFormed.exists_of_senses frontSenses
  obtain ⟨exit, exitWellFormed', rfl, sameExit, exitExtent⟩ :=
    exitWellFormed.exists_of_senses backSenses
  refine ⟨⟨entryLabel, entry, exitLabel, exit⟩, ⟨(kind_eq_of_sense entrySense).trans atEntry,
    entryWellFormed', (kind_eq_of_sense exitSense).trans atExit, exitWellFormed'⟩, rfl, ?_,
    entryExtent, exitExtent⟩
  rw [StrategyTree.build, StrategyTree.build, sameEntry, sameExit]

/-! ## Texts of the same meaning -/

namespace Strategy

variable {text : String} {s : TokenStream} {tree : StrategyTree}

theorem ofText_of_tree (parsed : StrategyTree.ofText text = .ok tree) :
    ofText text = tree.build.mapError .building := by
  rw [ofText, parsed]
  rfl

/-- A text compiles like any tree within the bounds that means the same. -/
theorem ofText_of_senses (tokenized : TokenStream.ofText text = .ok s)
    (wellFormed : tree.Grammatical) (noBreach : tree.breaches = [])
    (same : s.tokens.map Token.sense = tree.tokens.map Token.sense) :
    ofText text = tree.build.mapError .building := by
  obtain ⟨tree', wellFormed', tokens, built, entryExtent, exitExtent⟩ :=
    wellFormed.exists_of_senses same
  have noBreach' : tree'.breaches = [] := by
    rw [StrategyTree.breaches_eq_nil_iff] at noBreach ⊢
    rwa [entryExtent, exitExtent]
  have parsed : StrategyTree.ofText text = .ok tree' :=
    (StrategyTree.ofText_eq_ofTokens tokenized).trans
      (StrategyTree.ofTokens_eq_ok_iff.mpr ⟨wellFormed', tokens, noBreach'⟩)
  rw [ofText_of_tree parsed, built]

/-- Texts of the same meaning compile to the same strategy, or neither of them compiles. -/
theorem toOption_ofText_of_senses {text' : String} {s' : TokenStream}
    (tokenized : TokenStream.ofText text = .ok s) (tokenized' : TokenStream.ofText text' = .ok s')
    (same : s'.tokens.map Token.sense = s.tokens.map Token.sense) :
    (ofText text').toOption = (ofText text).toOption := by
  have transfer {text text' : String} {s s' : TokenStream} {tree : StrategyTree}
      (tokenized : TokenStream.ofText text = .ok s)
      (tokenized' : TokenStream.ofText text' = .ok s')
      (same : s'.tokens.map Token.sense = s.tokens.map Token.sense)
      (parsed : StrategyTree.ofText text = .ok tree) : ofText text' = ofText text := by
    rw [StrategyTree.ofText_eq_ofTokens tokenized] at parsed
    obtain ⟨wellFormed, tokens, noBreach⟩ := StrategyTree.ofTokens_eq_ok_iff.mp parsed
    rw [← tokens] at same
    rw [ofText_of_senses tokenized' wellFormed noBreach same,
      ofText_of_senses tokenized wellFormed noBreach (by rw [tokens])]
  cases parsed : StrategyTree.ofText text with
  | ok tree => rw [transfer tokenized tokenized' same parsed]
  | error e =>
    cases parsed' : StrategyTree.ofText text' with
    | ok tree => rw [transfer tokenized' tokenized same.symm parsed']
    | error e' =>
      rw [ofText, ofText, parsed, parsed']
      rfl

end Strategy

end MarketRules
