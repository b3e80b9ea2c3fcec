import Mathlib.Algebra.Group.Int.Defs
import MarketRules.Language.Build
import MarketRules.Proofs.Language.FirstRefused
import MarketRules.Proofs.Language.NumberText
import MarketRules.Proofs.Number.Order
import MarketRules.Proofs.Text.CharClass

/-!
# The first fault of a tree

A tree of an accepted text fails to be a strategy for three reasons only: a constant
that is out of range, an indicator that does not exist, or a period that is no number
of bars.  All three are faults of single tokens, and the first one in the text is the
one that is reported.

No other lookup can fail (`Lexeme.legible_of_scan`): a word is a field, an operator or
a connective exactly because its text names one, and every text that is scanned as a
number is a numeral.
-/

namespace MarketRules

/-! ## Legible tokens -/

/-- The text of a token says again what its kind says. -/
def Token.Legible (t : Token) : Prop :=
  match t.kind with
  | .field f => PriceField.ofName? t.text = some f ∧ Operand.ofText t.text = .ok (.field f)
  | .number => ∃ n : NumberText, t.text.toList = n.chars ∧
      readNumeral? t.text.toList = some n.value ∧ n.value.isNaN = false
  | .operator op => CompareOp.ofName? t.text = some op
  | .logic op => LogicOp.ofName? t.text = some op
  | _ => True

/-- A decimal is rounded to a number or to an infinity. -/
theorem Binary64.isNaN_ofDecimal (negative : Bool) (n : Nat) (exponent : Int) :
    (ofDecimal negative n exponent).isNaN = false := by
  rw [ofDecimal]
  split
  · rfl
  split
  · rfl
  split
  · exact isNaN_ofSteps ..
  · exact isNaN_ofSteps ..

/-- A text that begins with a letter is no numeral, unless it names an infinity or the
NaN. -/
theorem readNumeral?_of_letter {text : List Char} {d : Char} {ds : List Char}
    (small : text.map Char.toLower = d :: ds) (letter : d.isLower = true)
    (noName : d :: ds ∉ ["inf".toList, "infinity".toList, "nan".toList]) :
    readNumeral? text = none := by
  cases text with
  | nil => cases small
  | cons c cs =>
    have first : c.toLower = d := (List.cons.inj small).1
    have noSign : c ≠ '-' ∧ c ≠ '+' ∧ c ≠ '.' := by
      refine ⟨?_, ?_, ?_⟩ <;> rintro rfl <;> rw [← first] at letter <;> cases letter
    have noDigit : c.isDigit = false := by
      rw [← Bool.not_eq_true]
      intro digit
      rw [← first, toLower_of_isDigit digit] at letter
      have := toNat_of_isLower letter
      have := toNat_of_isDigit digit
      omega
    have unsigned : splitSign (c :: cs) = (false, c :: cs) := by
      unfold splitSign
      split <;> simp_all
    have digitless : splitMantissa (c :: cs) = ([], [], c :: cs) := by
      unfold splitMantissa
      simp only [List.dropWhile_cons, List.takeWhile_cons, noDigit]
      split <;> simp_all
    simp only [List.mem_cons, List.not_mem_nil, or_false, not_or] at noName
    have refused : readMagnitude? false (c :: cs) = none := by
      rw [readMagnitude?, small, digitless]
      simp only [noName, or_self, if_false, and_self, if_true]
    simp [readNumeral?, readNumeral, unsigned, refused, Except.toOption]

/-- The name of a field is no number. -/
theorem readNumeral?_of_field {text : String} {f : PriceField}
    (named : PriceField.ofName? text = some f) : readNumeral? text.toList = none := by
  have same : text.toList.map Char.toLower = f.name.toList.map Char.toLower := by
    have found := List.find?_some named
    simpa [sameIgnoringAsciiCase] using found
  cases f <;> exact readNumeral?_of_letter same (by decide) (by decide)

theorem Operand.ofText_of_field {text : String} {f : PriceField}
    (named : PriceField.ofName? text = some f) : Operand.ofText text = .ok (.field f) := by
  simp [ofText, readNumeral?_of_field named, named]

namespace Lexeme

/-- A word says what its kind needs. -/
theorem legible_of_wordKind (word : String) (position : Nat) :
    (⟨wordKind word, word, position⟩ : Token).Legible := by
  unfold wordKind
  split
  · next field => exact ⟨field, Operand.ofText_of_field field⟩
  · next operator => exact operator
  · next connective => exact connective
  · trivial

/-- The text of a token that was scanned says again what its kind says. -/
theorem legible_of_scan {c : Char} {rest : List Char} {lexeme : Lexeme}
    (scanned : scan c rest = .ok lexeme) (position : Nat) :
    (⟨lexeme.kind, String.ofList lexeme.text, position⟩ : Token).Legible := by
  rw [scan] at scanned
  split at scanned
  · cases scanned
    trivial
  split at scanned
  · cases scanned
    trivial
  split at scanned
  · cases scanned
    trivial
  split at scanned
  · rw [scanOperator] at scanned
    split at scanned
    · next long =>
      cases scanned
      exact long
    · next short =>
      cases scanned
      exact short
    · cases scanned
  split at scanned
  · obtain ⟨n, rest, -, rfl⟩ := NumberText.exists_of_scanNumber scanned
    have read := n.readNumeral?_chars
    simp only [Token.Legible, String.toList_ofList]
    exact ⟨n, rfl, read, Binary64.isNaN_ofDecimal ..⟩
  split at scanned
  · cases scanned
    rw [scanWord]
    split
    · trivial
    split
    · trivial
    · exact legible_of_wordKind ..
  · cases scanned

end Lexeme

/-- Every token that was read can be turned into what its kind stands for. -/
theorem TokenStream.legible {text : String} {s : TokenStream} (tokenized : ofText text = .ok s) :
    ∀ t ∈ s.tokens, t.Legible := by
  intro t member
  obtain ⟨c, rest, lexeme, scanned, made⟩ := exists_scan_of_mem tokenized t member
  rw [made]
  exact Lexeme.legible_of_scan scanned _

/-! ## Faults of tokens -/

/-- Is the number a whole number between `1` and `2^64`? -/
def Binary64.countsBars (x : Binary64) : Bool := x.whole?.any fun n => 1 ≤ n ∧ n ≤ 2 ^ 64

/-- What is wrong with a token.  A number behind a comma is a period, and any other is
a constant. -/
def Token.buildFault? (behindComma : Bool) (t : Token) : Option BuildError :=
  match t.kind, behindComma, readNumeral? t.text.toList with
  | .indicatorName, _, _ =>
    if sameIgnoringAsciiCase t.text "SMA" then none else some (.unknownIndicator t.text)
  | .number, true, some period => if period.countsBars then none else some (.badPeriod t.text)
  | .number, false, some (.infinite _) => some (.notAnOperand t.text)
  | _, _, _ => none

/-- The first fault of a list of tokens, from left to right. -/
def firstBuildFault? (behindComma : Bool) : List Token → Option BuildError
  | [] => none
  | t :: ts => (t.buildFault? behindComma).or (firstBuildFault? (t.kind = .comma) ts)

/-- A number is a period exactly if it counts bars. -/
theorem isSome_periodOf? (x : Binary64) : (periodOf? x).isSome = x.countsBars := by
  rw [periodOf?, Binary64.countsBars]
  cases x.whole? with
  | none => rfl
  | some n =>
    rw [Option.bind_some, Option.any_some]
    by_cases bounds : 1 ≤ n ∧ n ≤ maxPeriod + 1
    · simp only [if_pos bounds, Option.isSome_some]
      simpa [maxPeriod] using bounds
    · simp only [if_neg bounds, Option.isSome_none]
      symm
      simpa [maxPeriod] using bounds

/-! ## Faults of trees -/

/-- The error of a computation, if it fails. -/
def errorOf? {α : Type} : Except BuildError α → Option BuildError
  | .error e => some e
  | .ok _ => none

theorem errorOf?_eq_some_iff {α : Type} {x : Except BuildError α} {e : BuildError} :
    errorOf? x = some e ↔ x = .error e := by
  cases x <;> simp [errorOf?]

/-- Of two things that are built one after the other, the first that fails counts. -/
theorem errorOf?_combine {α β γ : Type} (x : Except BuildError α) (y : Except BuildError β)
    (f : α → β → γ) :
    errorOf? (do let a ← x; let b ← y; return f a b) = (errorOf? x).or (errorOf? y) := by
  cases x with
  | error e => rfl
  | ok a =>
    cases y with
    | error e => rfl
    | ok b => rfl

/-- Tokens of most kinds are passed over. -/
theorem firstBuildFault?_cons_of_kind {t : Token} {k : TokenKind} (kind : t.kind = k)
    (harmless : k ∉ [.indicatorName, .number, .comma]) (behindComma : Bool) (ts : List Token) :
    firstBuildFault? behindComma (t :: ts) = firstBuildFault? false ts := by
  simp only [List.mem_cons, List.not_mem_nil, or_false, not_or] at harmless
  simp [firstBuildFault?, Token.buildFault?, kind, harmless]

/-- A constant is refused exactly if the number nearest to it is infinite. -/
theorem errorOf?_constant {t : Token} (number : t.kind = .number) (legible : t.Legible) :
    errorOf? (Operand.ofText t.text) = t.buildFault? false := by
  rw [Token.Legible, number] at legible
  obtain ⟨n, -, read, isNumber⟩ := legible
  have noField : PriceField.ofName? t.text = none := by
    cases named : PriceField.ofName? t.text with
    | none => rfl
    | some f =>
      rw [readNumeral?_of_field named] at read
      cases read
  cases value : n.value with
  | nan =>
    rw [value] at isNumber
    cases isNumber
  | infinite negative =>
    simp [Operand.ofText, Token.buildFault?, number, read, value, noField, Option.filter,
      Binary64.isFinite, errorOf?]
  | finite negative m e canonical =>
    simp [Operand.ofText, Token.buildFault?, number, read, value, noField, Option.filter,
      Binary64.isFinite, errorOf?]

/-- A call is refused for its name, or else for its period. -/
theorem errorOf?_call {name period : Token} (f : PriceField)
    (isName : name.kind = .indicatorName) (number : period.kind = .number)
    (legible : period.Legible) :
    errorOf? (IndicatorCall.ofTexts name.text f period.text) =
      (name.buildFault? false).or (period.buildFault? true) := by
  rw [Token.Legible, number] at legible
  obtain ⟨n, -, read, -⟩ := legible
  have known : IndicatorKind.ofName? name.text =
      if sameIgnoringAsciiCase name.text "SMA" then some .movingAverage else none := by
    simp only [IndicatorKind.ofName?, List.find?_cons, List.find?_nil, IndicatorKind.name]
    cases sameIgnoringAsciiCase name.text "SMA" <;> rfl
  have counted := isSome_periodOf? n.value
  simp only [IndicatorCall.ofTexts, Token.buildFault?, isName, number, read, known, ← counted,
    Option.bind_some]
  cases sameIgnoringAsciiCase name.text "SMA" <;> cases periodOf? n.value <;> rfl

/-- The first fault in the tokens of an operand is the one at which building it fails. -/
theorem OperandTree.Grammatical.firstBuildFault? {x : OperandTree} (wellFormed : x.Grammatical)
    (legible : ∀ t ∈ x.tokens, t.Legible) (ts : List Token) :
    firstBuildFault? false (x.tokens ++ ts) =
      (errorOf? x.build).or (firstBuildFault? false ts) := by
  cases x with
  | field t f =>
    exact firstBuildFault?_cons_of_kind wellFormed (by simp) false ts
  | number t =>
    have number : t.kind = .number := wellFormed
    rw [OperandTree.build, errorOf?_constant number (legible t (by simp [tokens]))]
    simp [tokens, MarketRules.firstBuildFault?, number]
  | call name lp ft f comma period rp =>
    obtain ⟨atName, atLp, atField, atComma, atPeriod, atRp⟩ := wellFormed
    have refused : errorOf? (build (.call name lp ft f comma period rp)) =
        (name.buildFault? false).or (period.buildFault? true) := by
      rw [← errorOf?_call f atName atPeriod (legible period (by simp [tokens])), build]
      cases IndicatorCall.ofTexts name.text f period.text <;> rfl
    rw [refused, Option.or_assoc]
    show MarketRules.firstBuildFault? false (name :: lp :: ft :: comma :: period :: rp :: ts) = _
    rw [MarketRules.firstBuildFault?, decide_eq_false (by simp [atName]),
      firstBuildFault?_cons_of_kind atLp (by simp), firstBuildFault?_cons_of_kind atField (by simp)]
    simp [MarketRules.firstBuildFault?, Token.buildFault?, atComma, atPeriod, atRp]

theorem ComparisonTree.Grammatical.firstBuildFault? {c : ComparisonTree}
    (wellFormed : c.Grammatical) (legible : ∀ t ∈ c.tokens, t.Legible) (ts : List Token) :
    firstBuildFault? false (c.tokens ++ ts) =
      (errorOf? c.build).or (firstBuildFault? false ts) := by
  obtain ⟨left, operator, right⟩ := wellFormed
  simp only [tokens, List.forall_mem_append, List.forall_mem_cons] at legible
  rw [tokens, List.append_assoc, left.firstBuildFault? legible.1, List.cons_append,
    firstBuildFault?_cons_of_kind operator (by simp), right.firstBuildFault? legible.2.2,
    ComparisonTree.build, errorOf?_combine, Option.or_assoc]

mutual

/-- The first fault in the tokens of a rule is the one at which building it fails, since both
go from left to right. -/
theorem RuleTree.Grammatical.firstBuildFault? : {r : RuleTree} → r.Grammatical →
    (∀ t ∈ r.tokens, t.Legible) → (ts : List Token) →
    firstBuildFault? false (r.tokens ++ ts) =
      (errorOf? r.build).or (firstBuildFault? false ts)
  | .one c, wellFormed, legible, ts => by
    rw [RuleTree.Grammatical] at wellFormed
    rw [RuleTree.tokens] at legible ⊢
    rw [RuleTree.build]
    exact ConditionTree.Grammatical.firstBuildFault? wellFormed legible ts
  | .chain before t op last, wellFormed, legible, ts => by
    rw [RuleTree.Grammatical] at wellFormed
    obtain ⟨atBefore, connective, atLast⟩ := wellFormed
    simp only [RuleTree.tokens, List.forall_mem_append, List.forall_mem_cons] at legible
    rw [RuleTree.tokens, List.append_assoc,
      RuleTree.Grammatical.firstBuildFault? atBefore legible.1, List.cons_append,
      firstBuildFault?_cons_of_kind connective (by simp),
      ConditionTree.Grammatical.firstBuildFault? atLast legible.2.2,
      RuleTree.build, errorOf?_combine, Option.or_assoc]

theorem ConditionTree.Grammatical.firstBuildFault? : {c : ConditionTree} → c.Grammatical →
    (∀ t ∈ c.tokens, t.Legible) → (ts : List Token) →
    firstBuildFault? false (c.tokens ++ ts) =
      (errorOf? c.build).or (firstBuildFault? false ts)
  | .comparison c, wellFormed, legible, ts => by
    rw [ConditionTree.Grammatical] at wellFormed
    rw [ConditionTree.tokens] at legible ⊢
    rw [ConditionTree.build]
    exact wellFormed.firstBuildFault? legible ts
  | .group lp rule rp, wellFormed, legible, ts => by
    rw [ConditionTree.Grammatical] at wellFormed
    obtain ⟨opened, inside, closed⟩ := wellFormed
    simp only [ConditionTree.tokens, List.forall_mem_append, List.forall_mem_cons] at legible
    rw [ConditionTree.tokens, List.cons_append, List.cons_append,
      firstBuildFault?_cons_of_kind opened (by simp), List.append_assoc,
      RuleTree.Grammatical.firstBuildFault? inside legible.1.2, List.singleton_append,
      firstBuildFault?_cons_of_kind closed (by simp), ConditionTree.build]

end

/-- The first fault in the tokens of a strategy is the one at which building it fails. -/
theorem StrategyTree.Grammatical.firstBuildFault? {s : StrategyTree} (wellFormed : s.Grammatical)
    (legible : ∀ t ∈ s.tokens, t.Legible) : firstBuildFault? false s.tokens = errorOf? s.build := by
  obtain ⟨atEntry, entry, atExit, exit⟩ := wellFormed
  simp only [tokens, List.forall_mem_append, List.forall_mem_cons] at legible
  have exitFault := exit.firstBuildFault? legible.2.2 []
  rw [List.append_nil] at exitFault
  rw [tokens, List.cons_append, firstBuildFault?_cons_of_kind atEntry (by simp),
    entry.firstBuildFault? legible.1.2, firstBuildFault?_cons_of_kind atExit (by simp), exitFault,
    StrategyTree.build, errorOf?_combine]
  simp [MarketRules.firstBuildFault?]

/-- A tree of an accepted text fails to be a strategy exactly if a token of the text
has a fault, and the first fault from left to right is the one that is reported.  No
other lookup can fail, since every token says in its text what it was taken for. -/
theorem StrategyTree.build_reports_first_fault {text : String} {tree : StrategyTree}
    (parsed : ofText text = .ok tree) :
    ∃ s, TokenStream.ofText text = .ok s ∧ (∀ t ∈ s.tokens, t.Legible) ∧
      ∀ e, tree.build = .error e ↔ firstBuildFault? false s.tokens = some e := by
  obtain ⟨s, tokenized, accepted⟩ := exists_stream_of_ofText parsed
  obtain ⟨wellFormed, tokens, -⟩ := ofTokens_eq_ok_iff.mp accepted
  have legible := TokenStream.legible tokenized
  refine ⟨s, tokenized, legible, fun e => ?_⟩
  rw [← tokens] at legible ⊢
  rw [wellFormed.firstBuildFault? legible, errorOf?_eq_some_iff]

/-- The unknown indicator is reported, and not its period, the infinite constant or the
later period, which are faults as well. -/
theorem unknown_indicator_reported_first : ∃ tree,
    StrategyTree.ofText "ENTRY: ema(CLOSE, 0) < -1e400 EXIT: 0 > SMA(LOW, 2.5)" = .ok tree ∧
      tree.build = .error (.unknownIndicator "EMA") := by
  have accepted : (StrategyTree.ofText
      "ENTRY: ema(CLOSE, 0) < -1e400 EXIT: 0 > SMA(LOW, 2.5)").toOption.isSome = true := by
    decide +kernel
  have first : (TokenStream.ofText
      "ENTRY: ema(CLOSE, 0) < -1e400 EXIT: 0 > SMA(LOW, 2.5)").toOption.bind
        (fun s => firstBuildFault? false s.tokens) = some (.unknownIndicator "EMA") := by
    decide +kernel
  cases parsed : StrategyTree.ofText "ENTRY: ema(CLOSE, 0) < -1e400 EXIT: 0 > SMA(LOW, 2.5)" with
  | error e =>
    rw [parsed] at accepted
    cases accepted
  | ok tree =>
    obtain ⟨s, tokenized, -, reported⟩ := StrategyTree.build_reports_first_fault parsed
    rw [tokenized] at first
    exact ⟨tree, rfl, (reported _).mpr first⟩

end MarketRules
