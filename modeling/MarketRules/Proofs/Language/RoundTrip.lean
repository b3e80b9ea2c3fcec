import MarketRules.Proofs.Language.Parsing
import MarketRules.Proofs.Language.Spelling
import MarketRules.Proofs.Number.ReadBack
import MarketRules.Proofs.Success
import MarketRules.Strategy.Compile

/-!
# Canonical texts compile back

Every strategy that compiles is written so that it compiles to itself again.  An
operand of such a strategy is a finite number, a field, or an indicator with a
period that some number stands for, and each of these is read as it was written.
The parentheses of the canonical text are those that the shape of the rule needs,
which the text it was compiled from had as well, so no bound is in the way.
-/

namespace MarketRules

/-! ## Operands that read back -/

/-- The operand can be written and read back. -/
def Operand.Readable : Operand → Prop
  | .value x => x.isFinite = true
  | .field _ => True
  | .indicator call => ∃ x, periodOf? x = some call.period

/-- Every operand of the rule can be written and read back. -/
def Rule.Readable : Rule → Prop
  | .compare _ l r => l.Readable ∧ r.Readable
  | .combine _ l r => l.Readable ∧ r.Readable

/-- The digits of a period stand for the period again, although they may be read as another
number: the largest period is no number of the format and is read as the next one. -/
theorem periodOf?_readNumeral?_digits {x : Binary64} {n : Nat} (period : periodOf? x = some n) :
    (readNumeral? (digits n)).bind periodOf? = some n := by
  obtain ⟨whole, isWhole, rounded⟩ := Option.bind_eq_some_iff.mp period
  split at rounded
  · next bounds =>
    obtain rfl := Option.some.inj rounded
    by_cases past : whole = maxPeriod + 1
    · subst past
      decide +kernel
    · have exact : (min whole.toNat maxPeriod : Nat) = whole := by omega
      have positive : 0 < min whole.toNat maxPeriod := by omega
      rw [← exact] at isWhole
      rw [Binary64.readNumeral?_digits_of_whole? positive isWhole]
      exact period
  · cases rounded

/-! ### What is compiled reads back -/

/-- An operand that was read from a text can be read back. -/
theorem Operand.readable_of_ofText {text : String} {x : Operand}
    (built : Operand.ofText text = .ok x) : x.Readable := by
  rw [Operand.ofText] at built
  split at built
  · next number =>
    cases built
    exact (Option.filter_eq_some_iff.mp number).2
  · cases built
    trivial
  · cases built

/-- A call that was read from its parts can be read back, since its period was one. -/
theorem IndicatorCall.readable_of_ofTexts {name period : String} {f : PriceField}
    {call : IndicatorCall} (built : IndicatorCall.ofTexts name f period = .ok call) :
    (Operand.indicator call).Readable := by
  rw [IndicatorCall.ofTexts] at built
  split at built
  · cases built
  · cases built
  · next found =>
    cases built
    obtain ⟨x, -, period⟩ := Option.bind_eq_some_iff.mp found
    exact ⟨x, period⟩

theorem OperandTree.readable_of_build {tree : OperandTree} {x : Operand}
    (built : tree.build = .ok x) : x.Readable := by
  cases tree with
  | field t f =>
    cases built
    trivial
  | number t => exact Operand.readable_of_ofText built
  | call name lp ft f comma period rp =>
    rw [OperandTree.build] at built
    cases call : IndicatorCall.ofTexts name.text f period.text with
    | error e =>
      rw [call] at built
      cases built
    | ok c =>
      rw [call] at built
      cases built
      exact IndicatorCall.readable_of_ofTexts call

/-- A comparison is built from its two operands. -/
theorem ComparisonTree.exists_of_build {c : ComparisonTree} {r : Rule} (built : c.build = .ok r) :
    ∃ left right, c.left.build = .ok left ∧ c.right.build = .ok right ∧
      r = .compare c.op left right := by
  obtain ⟨left, builtLeft, built⟩ := exists_of_bind_eq_ok built
  obtain ⟨right, builtRight, built⟩ := exists_of_bind_eq_ok built
  cases built
  exact ⟨left, right, builtLeft, builtRight, rfl⟩

/-- A chain is built from what stands before its last connective and what stands behind it. -/
theorem RuleTree.exists_of_build_chain {before : RuleTree} {t : Token} {op : LogicOp}
    {last : ConditionTree} {r : Rule} (built : (RuleTree.chain before t op last).build = .ok r) :
    ∃ left right, before.build = .ok left ∧ last.build = .ok right ∧
      r = .combine op left right := by
  rw [RuleTree.build] at built
  obtain ⟨left, builtLeft, built⟩ := exists_of_bind_eq_ok built
  obtain ⟨right, builtRight, built⟩ := exists_of_bind_eq_ok built
  cases built
  exact ⟨left, right, builtLeft, builtRight, rfl⟩

theorem StrategyTree.build_rules {tree : StrategyTree} {s : Strategy} (built : tree.build = .ok s) :
    tree.entry.build = .ok s.entry ∧ tree.exit.build = .ok s.exit := by
  obtain ⟨entry, builtEntry, built⟩ := exists_of_bind_eq_ok built
  obtain ⟨exit, builtExit, built⟩ := exists_of_bind_eq_ok built
  cases built
  exact ⟨builtEntry, builtExit⟩

/-! ## The parentheses of the canonical text -/

namespace Rule

/-- How deep the parentheses of the canonical text nest. -/
def nesting : Rule → Nat
  | .compare .. => 0
  | .combine _ l (.compare ..) => l.nesting
  | .combine _ l (.combine op' l' r') => max l.nesting ((Rule.combine op' l' r').nesting + 1)

/-- How deep they nest where the rule stands behind a connective. -/
def nestingBehind : Rule → Nat
  | .compare .. => 0
  | .combine op l r => (Rule.combine op l r).nesting + 1

/-- The characters of the rule behind a connective. -/
def charsBehind : Rule → List Char
  | .compare op l r => (Rule.compare op l r).chars
  | .combine op l r => parenthesized (Rule.combine op l r).chars

theorem chars_combine (op : LogicOp) (l r : Rule) : (combine op l r).chars =
    l.chars ++ ' ' :: op.word.toList ++ ' ' :: r.charsBehind := by
  cases r with
  | compare => rw [chars, charsBehind]
  | combine => rw [chars, charsBehind]

theorem nesting_combine (op : LogicOp) (l r : Rule) :
    (combine op l r).nesting = max l.nesting r.nestingBehind := by
  cases r with
  | compare => rw [nesting, nestingBehind, Nat.max_zero]
  | combine => rw [nesting, nestingBehind]

/-- A rule behind a connective has at most one pair of parentheses more. -/
theorem nestingBehind_le (r : Rule) : r.nestingBehind ≤ r.nesting + 1 := by
  cases r with
  | compare => exact Nat.zero_le _
  | combine => exact Nat.le_refl _

end Rule

/-- A rule that was built from a text with these parentheses and comparisons. -/
structure Rule.BuiltWithin (r : Rule) (nesting count : Nat) : Prop where
  readable : r.Readable
  nesting_le : r.nesting ≤ nesting
  count_eq : r.comparisonCount = count

mutual

/-- What is built from a tree nests no deeper than the tree and has as many comparisons. -/
theorem RuleTree.builtWithin : ∀ {tree : RuleTree} {r : Rule}, tree.build = .ok r →
    r.BuiltWithin tree.nesting tree.comparisonCount
  | .one c, r, built => by
    rw [RuleTree.build] at built
    obtain ⟨within, -⟩ := ConditionTree.builtWithin built
    exact within
  | .chain before t op last, r, built => by
    obtain ⟨left, right, builtLeft, builtRight, rfl⟩ := RuleTree.exists_of_build_chain built
    have front := RuleTree.builtWithin builtLeft
    obtain ⟨back, behind⟩ := ConditionTree.builtWithin builtRight
    refine ⟨⟨front.readable, back.readable⟩, ?_, ?_⟩
    · rw [Rule.nesting_combine, RuleTree.nesting]
      exact Nat.max_le.mpr ⟨Nat.le_trans front.nesting_le (Nat.le_max_left _ _),
        Nat.le_trans behind (Nat.le_max_right _ _)⟩
    · rw [Rule.comparisonCount_combine, front.count_eq, back.count_eq, RuleTree.comparisonCount]

/-- Behind a connective the text had parentheses around a combined rule. -/
theorem ConditionTree.builtWithin : ∀ {tree : ConditionTree} {r : Rule}, tree.build = .ok r →
    r.BuiltWithin tree.nesting tree.comparisonCount ∧ r.nestingBehind ≤ tree.nesting
  | .comparison c, r, built => by
    rw [ConditionTree.build] at built
    obtain ⟨left, right, builtLeft, builtRight, rfl⟩ := ComparisonTree.exists_of_build built
    exact ⟨⟨⟨OperandTree.readable_of_build builtLeft, OperandTree.readable_of_build builtRight⟩,
      Nat.le_refl 0, rfl⟩, Nat.le_refl 0⟩
  | .group lp rule rp, r, built => by
    rw [ConditionTree.build] at built
    have inside := RuleTree.builtWithin built
    have deeper := Nat.succ_le_succ inside.nesting_le
    exact ⟨⟨inside.readable, Nat.le_trans inside.nesting_le (Nat.le_succ _), inside.count_eq⟩,
      Nat.le_trans (Rule.nestingBehind_le r) deeper⟩

end

/-! ## The tokens of the canonical text -/

section

open TokenStream Lexeme

variable {rest : List Char}

theorem scans_fieldName (f : PriceField) (delimited : Delimited rest) :
    Scans f.name.toList (.field f) rest := by
  have kind : wordKind f.name = .field f := by rw [wordKind, PriceField.ofName?_name]
  rw [← kind]
  exact scans_name f.name (by cases f <;> decide) (by cases f <;> decide) delimited

theorem scans_indicatorName (k : IndicatorKind) (delimited : Delimited rest) :
    Scans k.name.toList .indicatorName rest := by
  have kind : wordKind k.name = .indicatorName := by cases k; decide +kernel
  rw [← kind]
  exact scans_name k.name (by cases k; decide) (by cases k; decide) delimited

theorem scans_connective (op : LogicOp) (delimited : Delimited rest) :
    Scans op.word.toList (.logic op) rest := by
  have kind : wordKind op.word = .logic op := by cases op <;> decide +kernel
  rw [← kind]
  exact scans_name op.word (by cases op <;> decide) (by cases op <;> decide) delimited

/-- The digits of a number are read as one token. -/
theorem scans_digits (n : Nat) (delimited : Delimited rest) :
    Scans (digits n) .number rest := by
  have scans := scans_number false (.ofNat n) delimited
  rwa [PlainNumeral.ofNat_chars] at scans

/-- The text of a call is read as a tree that is built to the call. -/
theorem IndicatorCall.exists_tree {call : IndicatorCall}
    (readable : (Operand.indicator call).Readable)
    (position : Nat) (rest : List Char) :
    ∃ (tree : OperandTree) (stop : Nat), tree.Grammatical ∧ tree.build = .ok (.indicator call) ∧
      Reads position (call.chars ++ rest) tree.tokens stop rest := by
  obtain ⟨x, period⟩ := readable
  let number := digits call.period ++ ')' :: rest
  let field := call.field.name.toList ++ ',' :: ' ' :: number
  have shape : call.chars ++ rest = call.kind.name.toList ++ '(' :: field := by
    simp [IndicatorCall.chars, field, number]
  obtain ⟨name, p₁, isName, nameText, nameRead⟩ :=
    (scans_indicatorName call.kind (delimited_leftParen field)).reads position
  obtain ⟨lp, p₂, isOpen, -, opened⟩ := (scans_leftParen field).reads p₁
  obtain ⟨ft, p₃, isField, -, fieldRead⟩ :=
    (scans_fieldName call.field (delimited_comma (' ' :: number))).reads p₂
  obtain ⟨comma, p₄, isComma, -, separated⟩ := (scans_comma (' ' :: number)).reads p₃
  obtain ⟨pt, p₅, isNumber, periodText, periodRead⟩ :=
    (scans_digits call.period (delimited_rightParen rest)).reads (p₄ + 1)
  obtain ⟨rp, p₆, isClosed, -, closed⟩ := (scans_rightParen rest).reads p₅
  refine ⟨.call name lp ft call.field comma pt rp, p₆,
    ⟨isName, isOpen, isField, isComma, isNumber, isClosed⟩, ?_, ?_⟩
  · rw [OperandTree.build, nameText, periodText, IndicatorCall.ofTexts, String.ofList_toList,
      String.toList_ofList, IndicatorKind.ofName?_name, periodOf?_readNumeral?_digits period]
    rfl
  · rw [shape]
    exact nameRead.trans (opened.trans (fieldRead.trans (separated.trans
      ((Reads.blank p₄ number).trans (periodRead.trans closed)))))

/-- The text of an operand is read as a tree that is built to the operand. -/
theorem Operand.exists_tree {x : Operand} (readable : x.Readable) (position : Nat)
    (delimited : Delimited rest) :
    ∃ (tree : OperandTree) (stop : Nat), tree.Grammatical ∧ tree.build = .ok x ∧
      Reads position (x.chars ++ rest) tree.tokens stop rest := by
  cases x with
  | value x =>
    obtain ⟨negative, p, written, read⟩ := Binary64.exists_plainChars_eq readable
    obtain ⟨t, stop, isNumber, text, reads⟩ := (scans_number negative p delimited).reads position
    refine ⟨.number t, stop, isNumber, ?_, ?_⟩
    · rw [OperandTree.build, Operand.ofText, text, String.toList_ofList, read,
        Option.filter_some_pos readable]
    · rw [Operand.chars, written]
      exact reads
  | field f =>
    obtain ⟨t, stop, isField, -, reads⟩ := (scans_fieldName f delimited).reads position
    exact ⟨.field t f, stop, isField, rfl, reads⟩
  | indicator call => exact IndicatorCall.exists_tree readable position rest

/-- A comparison is read as the comparison that was written. -/
theorem exists_comparisonTree (op : CompareOp) {l r : Operand} (left : l.Readable)
    (right : r.Readable) (position : Nat) (delimited : Delimited rest) :
    ∃ (tree : ComparisonTree) (stop : Nat), tree.Grammatical ∧
      tree.build = .ok (.compare op l r) ∧
      Reads position ((Rule.compare op l r).chars ++ rest) tree.tokens stop rest := by
  let back := r.chars ++ rest
  let middle := op.symbol.toList ++ ' ' :: back
  have shape : (Rule.compare op l r).chars ++ rest = l.chars ++ ' ' :: middle := by
    simp [Rule.chars, middle, back]
  obtain ⟨lt, p₁, leftWellFormed, leftBuilt, leftRead⟩ :=
    Operand.exists_tree left position (delimited_blank middle)
  obtain ⟨t, p₂, isOperator, -, operatorRead⟩ := (scans_operator op back).reads (p₁ + 1)
  obtain ⟨rt, p₃, rightWellFormed, rightBuilt, rightRead⟩ :=
    Operand.exists_tree right (p₂ + 1) delimited
  refine ⟨⟨lt, t, op, rt⟩, p₃, ⟨leftWellFormed, isOperator, rightWellFormed⟩, ?_, ?_⟩
  · rw [ComparisonTree.build, leftBuilt, rightBuilt]
    rfl
  · rw [shape]
    exact leftRead.trans ((Reads.blank p₁ middle).trans (operatorRead.trans
      ((Reads.blank p₂ back).trans rightRead)))

/-- A rule is read as the rule that was written, wherever it stands. -/
def Rule.IsRead (r : Rule) : Prop :=
  ∀ (position : Nat) (rest : List Char), Delimited rest →
    ∃ (tree : RuleTree) (stop : Nat), tree.Grammatical ∧ tree.build = .ok r ∧
      tree.extent = ⟨r.nesting, r.comparisonCount⟩ ∧
      Reads position (r.chars ++ rest) tree.tokens stop rest

/-- Behind a connective a rule is read as one condition. -/
theorem Rule.IsRead.exists_conditionTree {r : Rule} (isRead : r.IsRead) (readable : r.Readable)
    (position : Nat) (delimited : Delimited rest) :
    ∃ (tree : ConditionTree) (stop : Nat), tree.Grammatical ∧ tree.build = .ok r ∧
      tree.nesting = r.nestingBehind ∧ tree.comparisonCount = r.comparisonCount ∧
      Reads position (r.charsBehind ++ rest) tree.tokens stop rest := by
  cases r with
  | compare op left right =>
    obtain ⟨c, stop, wellFormed, built, reads⟩ :=
      exists_comparisonTree op readable.1 readable.2 position delimited
    exact ⟨.comparison c, stop, wellFormed, built, rfl, rfl, reads⟩
  | combine op left right =>
    let closing := (Rule.combine op left right).chars ++ ')' :: rest
    have shape : (Rule.combine op left right).charsBehind ++ rest = '(' :: closing := by
      simp [Rule.charsBehind, parenthesized, closing]
    obtain ⟨lp, p₁, isOpen, -, opened⟩ := (scans_leftParen closing).reads position
    obtain ⟨tree, p₂, wellFormed, built, extent, inside⟩ :=
      isRead p₁ (')' :: rest) (delimited_rightParen rest)
    obtain ⟨rp, p₃, isClosed, -, closed⟩ := (scans_rightParen rest).reads p₂
    obtain ⟨nesting, count⟩ := Grammar.Extent.mk.inj extent
    refine ⟨.group lp tree rp, p₃, ⟨isOpen, wellFormed, isClosed⟩, built,
      congrArg (· + 1) nesting, count, ?_⟩
    rw [shape, ConditionTree.tokens]
    exact opened.trans (inside.trans closed)

/-- The text of a rule is read as a tree that is built to the rule.  The induction follows the
rule, and a rule behind a connective is read within its parentheses. -/
theorem Rule.isRead (r : Rule) (readable : r.Readable) : r.IsRead := by
  induction r with
  | compare op left right =>
    intro position rest delimited
    obtain ⟨c, stop, wellFormed, built, reads⟩ :=
      exists_comparisonTree op readable.1 readable.2 position delimited
    exact ⟨.one (.comparison c), stop, wellFormed, built, rfl, reads⟩
  | combine op left right ihLeft ihRight =>
    intro position rest delimited
    let back := right.charsBehind ++ rest
    let middle := op.word.toList ++ ' ' :: back
    have shape : (Rule.combine op left right).chars ++ rest = left.chars ++ ' ' :: middle := by
      simp [Rule.chars_combine, middle, back]
    obtain ⟨before, p₁, beforeWellFormed, beforeBuilt, extent, beforeRead⟩ :=
      ihLeft readable.1 position (' ' :: middle) (delimited_blank middle)
    obtain ⟨t, p₂, isConnective, -, connectiveRead⟩ :=
      (scans_connective op (delimited_blank back)).reads (p₁ + 1)
    obtain ⟨last, p₃, lastWellFormed, lastBuilt, lastNesting, lastCount, lastRead⟩ :=
      (ihRight readable.2).exists_conditionTree readable.2 (p₂ + 1) delimited
    obtain ⟨nesting, count⟩ := Grammar.Extent.mk.inj extent
    refine ⟨.chain before t op last, p₃, ⟨beforeWellFormed, isConnective, lastWellFormed⟩,
      ?_, ?_, ?_⟩
    · rw [RuleTree.build, beforeBuilt, lastBuilt]
      rfl
    · rw [RuleTree.extent, RuleTree.nesting, RuleTree.comparisonCount, nesting, count, lastNesting,
        lastCount, Rule.nesting_combine, Rule.comparisonCount_combine]
    · rw [shape]
      exact beforeRead.trans ((Reads.blank p₁ middle).trans (connectiveRead.trans
        ((Reads.blank p₂ back).trans lastRead)))

/-- The canonical text of a strategy is read as the strategy that was written. -/
theorem Strategy.exists_tree {s : Strategy} (entryReadable : s.entry.Readable)
    (exitReadable : s.exit.Readable) :
    ∃ (tree : StrategyTree) (length : Nat), tree.Grammatical ∧ tree.build = .ok s ∧
      tree.entry.extent = ⟨s.entry.nesting, s.entry.comparisonCount⟩ ∧
      tree.exit.extent = ⟨s.exit.nesting, s.exit.comparisonCount⟩ ∧
      TokenStream.ofText s.text = .ok ⟨tree.tokens, length⟩ := by
  let exitRule := s.exit.chars ++ []
  let exitClause := ['E', 'X', 'I', 'T', ':'] ++ ' ' :: exitRule
  let entryRule := s.entry.chars ++ ' ' :: exitClause
  have shape : s.chars = ['E', 'N', 'T', 'R', 'Y', ':'] ++ ' ' :: entryRule := by
    show ['E', 'N', 'T', 'R', 'Y', ':', ' '] ++ s.entry.chars ++
      [' ', 'E', 'X', 'I', 'T', ':', ' '] ++ s.exit.chars = _
    simp [entryRule, exitClause, exitRule]
  obtain ⟨entryLabel, p₁, isEntry, -, entryLabelRead⟩ :=
    (scans_entryLabel (' ' :: entryRule)).reads 0
  obtain ⟨entry, p₂, entryWellFormed, entryBuilt, entryExtent, entryRead⟩ :=
    s.entry.isRead entryReadable (p₁ + 1) (' ' :: exitClause) (delimited_blank exitClause)
  obtain ⟨exitLabel, p₃, isExit, -, exitLabelRead⟩ :=
    (scans_exitLabel (' ' :: exitRule)).reads (p₂ + 1)
  obtain ⟨exit, p₄, exitWellFormed, exitBuilt, exitExtent, exitRead⟩ :=
    s.exit.isRead exitReadable (p₃ + 1) [] (by rintro c ⟨⟩)
  refine ⟨⟨entryLabel, entry, exitLabel, exit⟩, p₄, ⟨isEntry, entryWellFormed, isExit,
    exitWellFormed⟩, ?_, entryExtent, exitExtent, ?_⟩
  · rw [StrategyTree.build, entryBuilt, exitBuilt]
    rfl
  · have reads := entryLabelRead.trans ((Reads.blank p₁ entryRule).trans (entryRead.trans
      ((Reads.blank p₂ exitClause).trans (exitLabelRead.trans
        ((Reads.blank p₃ exitRule).trans exitRead)))))
    rw [Reads, ← shape] at reads
    rw [TokenStream.ofText, Strategy.text, String.toList_ofList, reads]
    simp [lexFrom, Except.map, StrategyTree.tokens]

end

/-! ## The round trip -/

theorem StrategyTree.allowed_of_ofText {text : String} {tree : StrategyTree}
    (parsed : ofText text = .ok tree) : tree.entry.extent.Allowed ∧ tree.exit.extent.Allowed := by
  obtain ⟨s, -, accepted⟩ := exists_stream_of_ofText parsed
  obtain ⟨-, -, noBreach⟩ := ofTokens_eq_ok_iff.mp accepted
  exact tree.breaches_eq_nil_iff.mp noBreach

namespace Strategy

/-- A text gives the strategy that is built from its tree. -/
theorem ofText_eq_ok_iff {text : String} {s : Strategy} : ofText text = .ok s ↔
    ∃ tree, StrategyTree.ofText text = .ok tree ∧ tree.build = .ok s := by
  constructor
  · intro compiled
    obtain ⟨tree, parsed, built⟩ := exists_of_bind_eq_ok compiled
    exact ⟨tree, of_mapError_eq_ok parsed, of_mapError_eq_ok built⟩
  · rintro ⟨tree, parsed, built⟩
    rw [ofText, parsed]
    show tree.build.mapError CompileError.building = _
    rw [built]
    rfl

/-- What compiles is written as a text that compiles to the same strategy.  The text nests no
deeper than the one that was compiled and has as many comparisons.  As that one was accepted,
this one is within the bounds. -/
theorem ofText_text {t : String} {s : Strategy} (compiled : ofText t = .ok s) :
    ofText s.text = .ok s ∧ (ofText s.text).map Strategy.text = .ok s.text ∧
      ∃ source canonical : StrategyTree,
        StrategyTree.ofText t = .ok source ∧ StrategyTree.ofText s.text = .ok canonical ∧
        canonical.entry.nesting ≤ source.entry.nesting ∧
        canonical.exit.nesting ≤ source.exit.nesting ∧
        canonical.entry.comparisonCount = source.entry.comparisonCount ∧
        canonical.exit.comparisonCount = source.exit.comparisonCount ∧
        canonical.entry.extent.Allowed ∧ canonical.exit.extent.Allowed := by
  obtain ⟨source, parsed, built⟩ := ofText_eq_ok_iff.mp compiled
  obtain ⟨builtEntry, builtExit⟩ := StrategyTree.build_rules built
  have entry := RuleTree.builtWithin builtEntry
  have exit := RuleTree.builtWithin builtExit
  obtain ⟨canonical, length, wellFormed, rebuilt, entryExtent, exitExtent, tokenized⟩ :=
    exists_tree entry.readable exit.readable
  obtain ⟨entryNesting, entryCount⟩ := Grammar.Extent.mk.inj entryExtent
  obtain ⟨exitNesting, exitCount⟩ := Grammar.Extent.mk.inj exitExtent
  have entryDeep : canonical.entry.nesting ≤ source.entry.nesting :=
    Nat.le_trans (Nat.le_of_eq entryNesting) entry.nesting_le
  have exitDeep : canonical.exit.nesting ≤ source.exit.nesting :=
    Nat.le_trans (Nat.le_of_eq exitNesting) exit.nesting_le
  have entryLong := entryCount.trans entry.count_eq
  have exitLong := exitCount.trans exit.count_eq
  obtain ⟨sourceEntry, sourceExit⟩ := StrategyTree.allowed_of_ofText parsed
  have entryAllowed : canonical.entry.extent.Allowed :=
    ⟨Nat.le_trans entryDeep sourceEntry.1, Nat.le_trans (Nat.le_of_eq entryLong) sourceEntry.2⟩
  have exitAllowed : canonical.exit.extent.Allowed :=
    ⟨Nat.le_trans exitDeep sourceExit.1, Nat.le_trans (Nat.le_of_eq exitLong) sourceExit.2⟩
  have reparsed : StrategyTree.ofText s.text = .ok canonical :=
    (StrategyTree.ofText_eq_ofTokens tokenized).trans (StrategyTree.ofTokens_eq_ok_iff.mpr
      ⟨wellFormed, rfl, canonical.breaches_eq_nil_iff.mpr ⟨entryAllowed, exitAllowed⟩⟩)
  have recompiled : ofText s.text = .ok s := ofText_eq_ok_iff.mpr ⟨canonical, reparsed, rebuilt⟩
  refine ⟨recompiled, ?_, source, canonical, parsed, reparsed, entryDeep, exitDeep, entryLong,
    exitLong, entryAllowed, exitAllowed⟩
  rw [recompiled]
  rfl

/-- A strategy with parentheses that its canonical text does not need, and numbers that are
not written as they are printed. -/
def respelledText : String :=
  "ENTRY: close > -0 and (open < SMA(close, 3) or 1e-3 EQ 2.50) EXIT: ((LOW <= 1))"

/-- The respelled text compiles, and the canonical text of its strategy compiles back. -/
theorem grouped_text_compiles_back : ∃ s,
    ofText respelledText = .ok s ∧ ofText s.text = .ok s := by
  have compiles : (ofText respelledText).toOption.isSome = true := by
    decide +kernel
  cases compiled : ofText respelledText with
  | error e =>
    rw [compiled] at compiles
    cases compiles
  | ok s => exact ⟨s, rfl, (ofText_text compiled).1⟩

end Strategy

end MarketRules
