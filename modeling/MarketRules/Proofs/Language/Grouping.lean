import MarketRules.Proofs.Language.Cuts
import MarketRules.Proofs.Language.Respelling

/-!
# Parentheses that change nothing

Connectives associate to the left, so a chain means the same if the conditions with which it
begins are put in parentheses, and so does a condition on its own.  `RuleTree.Holds` lists
these parts of a rule with the tokens around them.  Where a part stands in a text, a
parenthesis can be put directly in front of its first token and one directly behind its
last, and the text compiles as before unless too many parentheses are open then.
-/

namespace MarketRules

/-! ## Parts of a tree -/

/-- The part is a condition of the rule, or a chain with which a chain of the rule begins.
It stands within `depth` parentheses, behind the tokens `front` and in front of the tokens
`back`. -/
inductive RuleTree.Holds : RuleTree → (depth : Nat) → (front : List Token) → (part : RuleTree) →
    (back : List Token) → Prop
  | whole (r : RuleTree) : Holds r 0 [] r []
  | leading {before part : RuleTree} {depth : Nat} {front back : List Token} (t : Token)
    (op : LogicOp) (last : ConditionTree) : Holds before depth front part back →
    Holds (.chain before t op last) depth front part (back ++ t :: last.tokens)
  | last {part : RuleTree} {c : ConditionTree} {depth : Nat} {front back : List Token}
    (before : RuleTree) (t : Token) (op : LogicOp) : Holds (.one c) depth front part back →
    Holds (.chain before t op c) depth (before.tokens ++ t :: front) part back
  | inside {rule part : RuleTree} {depth : Nat} {front back : List Token} (lp rp : Token) :
    Holds rule depth front part back →
    Holds (.one (.group lp rule rp)) (depth + 1) (lp :: front) part (back ++ [rp])

/-- The part belongs to one of the rules. -/
inductive StrategyTree.Holds (s : StrategyTree) : (depth : Nat) → (front : List Token) →
    (part : RuleTree) → (back : List Token) → Prop
  | entry {depth : Nat} {front back : List Token} {part : RuleTree} :
    s.entry.Holds depth front part back →
    Holds s depth (s.entryLabel :: front) part (back ++ s.exitLabel :: s.exit.tokens)
  | exit {depth : Nat} {front back : List Token} {part : RuleTree} :
    s.exit.Holds depth front part back →
    Holds s depth (s.entryLabel :: s.entry.tokens ++ s.exitLabel :: front) part back

section

variable {depth : Nat} {front back : List Token} {part : RuleTree} {lp rp : Token}

/-- The part that a rule holds has its tokens in the middle of those of the rule. -/
theorem RuleTree.Holds.tokens_eq {r : RuleTree} (holds : r.Holds depth front part back) :
    r.tokens = front ++ (part.tokens ++ back) := by
  induction holds with
  | whole r => simp
  | leading t op last _ ih => simp [RuleTree.tokens, ih]
  | last before t op _ ih =>
    rw [RuleTree.tokens] at ih
    simp [RuleTree.tokens, ih]
  | inside lp rp _ ih => simp [RuleTree.tokens, ConditionTree.tokens, ih]

theorem StrategyTree.Holds.tokens_eq {s : StrategyTree} (holds : s.Holds depth front part back) :
    s.tokens = front ++ (part.tokens ++ back) := by
  cases holds with
  | entry holds => simp [StrategyTree.tokens, holds.tokens_eq]
  | exit holds => simp [StrategyTree.tokens, holds.tokens_eq]

/-- Every rule has a token. -/
theorem RuleTree.tokens_ne_nil : ∀ r : RuleTree, r.tokens ≠ []
  | .one (.comparison c) => by
    simp [RuleTree.tokens, ConditionTree.tokens, ComparisonTree.tokens]
  | .one (.group lp rule rp) => by simp [RuleTree.tokens, ConditionTree.tokens]
  | .chain before t op last => by simp [RuleTree.tokens]

/-! ## One more pair of parentheses -/

/-- With parentheses around one of its parts a rule is the same, and has as many comparisons.
A single condition stays one. -/
theorem RuleTree.Holds.exists_grouped {r : RuleTree} (holds : r.Holds depth front part back)
    (opens : lp.kind = .leftParen) (closes : rp.kind = .rightParen)
    (wellFormed : r.Grammatical) :
    ∃ r' : RuleTree, r'.Grammatical ∧
      r'.tokens = front ++ lp :: (part.tokens ++ rp :: back) ∧ r'.build = r.build ∧
      r'.nesting = max r.nesting (depth + (part.nesting + 1)) ∧
      r'.comparisonCount = r.comparisonCount ∧ ∀ c, r = .one c → ∃ c', r' = .one c' := by
  induction holds with
  | whole r =>
    refine ⟨.one (.group lp r rp), ⟨opens, wellFormed, closes⟩, ?_, rfl, ?_, rfl,
      fun _ _ => ⟨_, rfl⟩⟩
    · simp [RuleTree.tokens, ConditionTree.tokens]
    · rw [RuleTree.nesting, ConditionTree.nesting]
      omega
  | leading t op last _ ih =>
    obtain ⟨atBefore, connective, atLast⟩ := wellFormed
    obtain ⟨before', wellFormed', tokens, built, nesting, count, -⟩ := ih atBefore
    refine ⟨.chain before' t op last, ⟨wellFormed', connective, atLast⟩, ?_, ?_, ?_, ?_, nofun⟩
    · simp [RuleTree.tokens, tokens]
    · rw [RuleTree.build, RuleTree.build, built]
    · rw [RuleTree.nesting, RuleTree.nesting, nesting]
      omega
    · rw [RuleTree.comparisonCount, RuleTree.comparisonCount, count]
  | last before t op _ ih =>
    obtain ⟨atBefore, connective, atLast⟩ := wellFormed
    obtain ⟨r', wellFormed', tokens, built, nesting, count, single⟩ := ih atLast
    obtain ⟨last', rfl⟩ := single _ rfl
    rw [RuleTree.tokens] at tokens
    rw [RuleTree.build, RuleTree.build] at built
    rw [RuleTree.nesting, RuleTree.nesting] at nesting
    rw [RuleTree.comparisonCount, RuleTree.comparisonCount] at count
    refine ⟨.chain before t op last', ⟨atBefore, connective, wellFormed'⟩, ?_, ?_, ?_, ?_, nofun⟩
    · simp [RuleTree.tokens, tokens]
    · rw [RuleTree.build, RuleTree.build, built]
    · rw [RuleTree.nesting, RuleTree.nesting, nesting]
      omega
    · rw [RuleTree.comparisonCount, RuleTree.comparisonCount, count]
  | inside lp' rp' _ ih =>
    obtain ⟨opens', atRule, closes'⟩ := wellFormed
    obtain ⟨rule', wellFormed', tokens, built, nesting, count, -⟩ := ih atRule
    refine ⟨.one (.group lp' rule' rp'), ⟨opens', wellFormed', closes'⟩, ?_, built, ?_, count,
      fun _ _ => ⟨_, rfl⟩⟩
    · simp [RuleTree.tokens, ConditionTree.tokens, tokens]
    · rw [RuleTree.nesting, RuleTree.nesting, ConditionTree.nesting, ConditionTree.nesting, nesting]
      omega

/-- Parentheses around a part keep a rule within the bounds, if there is room for one more
level. -/
theorem RuleTree.Holds.exists_allowed {r : RuleTree} (holds : r.Holds depth front part back)
    (opens : lp.kind = .leftParen) (closes : rp.kind = .rightParen) (wellFormed : r.Grammatical)
    (allowed : r.extent.Allowed) (room : depth + part.nesting < maxNesting) :
    ∃ r' : RuleTree, r'.Grammatical ∧ r'.extent.Allowed ∧
      r'.tokens = front ++ lp :: (part.tokens ++ rp :: back) ∧ r'.build = r.build := by
  obtain ⟨r', wellFormed', tokens, built, nesting, count, -⟩ :=
    holds.exists_grouped opens closes wellFormed
  refine ⟨r', wellFormed', ⟨?_, ?_⟩, tokens, built⟩
  · rw [RuleTree.extent, nesting]
    exact Nat.max_le.mpr ⟨allowed.1, room⟩
  · rw [RuleTree.extent, count]
    exact allowed.2

/-- Parentheses around a part make a strategy of the grammar, with the same tokens otherwise.
-/
theorem StrategyTree.Holds.exists_grouped {s : StrategyTree}
    (holds : s.Holds depth front part back) (opens : lp.kind = .leftParen)
    (closes : rp.kind = .rightParen) (wellFormed : s.Grammatical) (noBreach : s.breaches = [])
    (room : depth + part.nesting < maxNesting) :
    ∃ s' : StrategyTree, s'.Grammatical ∧ s'.breaches = [] ∧
      s'.tokens = front ++ lp :: (part.tokens ++ rp :: back) ∧ s'.build = s.build := by
  obtain ⟨atEntry, entryWellFormed, atExit, exitWellFormed⟩ := wellFormed
  obtain ⟨entryAllowed, exitAllowed⟩ := s.breaches_eq_nil_iff.mp noBreach
  cases holds with
  | entry holds =>
    obtain ⟨entry, wellFormed, allowed, tokens, built⟩ :=
      holds.exists_allowed opens closes entryWellFormed entryAllowed room
    refine ⟨⟨s.entryLabel, entry, s.exitLabel, s.exit⟩,
      ⟨atEntry, wellFormed, atExit, exitWellFormed⟩,
      (StrategyTree.breaches_eq_nil_iff _).mpr ⟨allowed, exitAllowed⟩, ?_, ?_⟩
    · simp [StrategyTree.tokens, tokens]
    · rw [StrategyTree.build, StrategyTree.build, built]
  | exit holds =>
    obtain ⟨exit, wellFormed, allowed, tokens, built⟩ :=
      holds.exists_allowed opens closes exitWellFormed exitAllowed room
    refine ⟨⟨s.entryLabel, s.entry, s.exitLabel, exit⟩,
      ⟨atEntry, entryWellFormed, atExit, wellFormed⟩,
      (StrategyTree.breaches_eq_nil_iff _).mpr ⟨entryAllowed, allowed⟩, ?_, ?_⟩
    · simp [StrategyTree.tokens, tokens]
    · rw [StrategyTree.build, StrategyTree.build, built]

end

/-! ## Parentheses in a text -/

/-- The words of a text with parentheses in it. -/
theorem words?_parentheses {a m z : List Char} {front part back : List (TokenKind × String)}
    (before : wordsFrom? 0 a = some front) (between : wordsFrom? 0 m = some part)
    (behind : wordsFrom? 0 z = some back) :
    words? (String.ofList a ++ "(" ++ String.ofList m ++ ")" ++ String.ofList z) =
      some (front ++ (.leftParen, "(") :: (part ++ (.rightParen, ")") :: back)) := by
  have chars : (String.ofList a ++ "(" ++ String.ofList m ++ ")" ++ String.ofList z).toList =
      a ++ '(' :: (m ++ ')' :: z) := by
    simp
  have opened (rest : List Char) : wordsFrom? 0 ('(' :: rest) =
      (wordsFrom? 0 rest).map ((.leftParen, "(") :: ·) := rfl
  have closed : wordsFrom? 0 (')' :: z) = (wordsFrom? 0 z).map ((.rightParen, ")") :: ·) := rfl
  rw [words?, chars, wordsFrom?_append_delimited (delimited_leftParen _) (Nat.zero_le _), before,
    opened, wordsFrom?_append_delimited (delimited_rightParen _) (Nat.zero_le _), between, closed,
    behind]
  rfl

namespace TokenStream

/-- A text can be cut directly in front of any tokens of it and directly behind them. -/
theorem Cut.exists_around {cs : List Char} {front part back : List Token}
    (cut : Cut 0 cs (front ++ (part ++ back))) (nonempty : part ≠ []) :
    ∃ a m z, cs = a ++ (m ++ z) ∧
      part.head?.map Token.position = some (byteLength a) ∧
      part.getLast?.map Token.stop = some (byteLength a + byteLength m) ∧
      wordsFrom? 0 a = some (front.map Token.word) ∧
      wordsFrom? 0 m = some (part.map Token.word) ∧
      wordsFrom? 0 z = some (back.map Token.word) := by
  obtain ⟨before, gap, behind, rfl, -, -, inFront, later, -, start, -⟩ := cut.exists_split rfl
  obtain ⟨m, gap', rest, rfl, blank, inside, -, last, stop, -, -⟩ := later.exists_split rfl
  have placed : byteLength (before ++ gap) = 0 + byteLength before + byteLength gap := by
    rw [byteLength_append, Nat.zero_add]
  refine ⟨before ++ gap, m, gap' ++ rest, by simp, ?_, ?_, inFront.words, inside.words,
    (last.behind_blanks blank).words⟩
  · obtain ⟨t, ts, rfl⟩ := List.exists_cons_of_ne_nil nonempty
    rw [placed, ← start t rfl]
    rfl
  · rw [placed, stop, List.getLast?_eq_some_getLast nonempty]
    rfl

end TokenStream

namespace Strategy

variable {text : String} {tree : StrategyTree} {depth : Nat} {front back : List Token}
  {part : RuleTree}

/-- Parentheses around a part of a rule change nothing as long as few enough are open. -/
theorem ofText_parentheses (parsed : StrategyTree.ofText text = .ok tree)
    (holds : tree.Holds depth front part back) (room : depth + part.nesting < maxNesting) :
    ∃ a m z : String, text = a ++ m ++ z ∧
      part.tokens.head?.map Token.position = some a.utf8ByteSize ∧
      part.tokens.getLast?.map Token.stop = some (a ++ m).utf8ByteSize ∧
      ofText (a ++ "(" ++ m ++ ")" ++ z) = ofText text := by
  obtain ⟨s, tokenized, accepted⟩ := StrategyTree.exists_stream_of_ofText parsed
  obtain ⟨wellFormed, tokens, noBreach⟩ := StrategyTree.ofTokens_eq_ok_iff.mp accepted
  have cut := (TokenStream.cut_of_ofText tokenized).1
  rw [← tokens, holds.tokens_eq] at cut
  obtain ⟨a, m, z, chars, start, stop, before, between, behind⟩ :=
    cut.exists_around part.tokens_ne_nil
  have opens : (⟨.leftParen, "(", 0⟩ : Token).kind = .leftParen := rfl
  have closes : (⟨.rightParen, ")", 0⟩ : Token).kind = .rightParen := rfl
  obtain ⟨tree', wellFormed', noBreach', tokens', built⟩ :=
    holds.exists_grouped opens closes wellFormed noBreach room
  obtain ⟨s', tokenized', words⟩ := words?_eq_some_iff.mp (words?_parentheses before between behind)
  have same : s'.tokens.map Token.sense = tree'.tokens.map Token.sense := by
    rw [Token.map_sense, Token.map_sense, words, tokens']
    simp [Token.word]
  refine ⟨.ofList a, .ofList m, .ofList z, ?_, ?_, ?_, ?_⟩
  · rw [← String.toList_inj, chars]
    simp
  · rw [start, byteLength_eq_utf8ByteSize]
  · rw [stop, ← byteLength_append, byteLength_eq_utf8ByteSize, String.ofList_append]
  · rw [ofText_of_senses tokenized' wellFormed' noBreach' same, built, ofText_of_tree parsed]

/-- Layout, spelling and parentheses that say nothing do not change a strategy.  Two texts of
the same meaning compile to the same strategy or both fail, and a text that compiles can have
one more pair of parentheses around any part of its rules as long as few enough are open. -/
theorem ofText_ignores_layout :
    (∀ (text text' : String) (s s' : TokenStream), TokenStream.ofText text = .ok s →
      TokenStream.ofText text' = .ok s' → s'.tokens.map Token.sense = s.tokens.map Token.sense →
      (ofText text').toOption = (ofText text).toOption) ∧
    ∀ (text : String) (strategy : Strategy), ofText text = .ok strategy →
      ∃ tree, StrategyTree.ofText text = .ok tree ∧
        ∀ (depth : Nat) (front : List Token) (part : RuleTree) (back : List Token),
          tree.Holds depth front part back → depth + part.nesting < maxNesting →
          ∃ a m z : String, text = a ++ m ++ z ∧
            part.tokens.head?.map Token.position = some a.utf8ByteSize ∧
            part.tokens.getLast?.map Token.stop = some (a ++ m).utf8ByteSize ∧
            ofText (a ++ "(" ++ m ++ ")" ++ z) = .ok strategy := by
  refine ⟨fun text text' s s' => toOption_ofText_of_senses, fun text strategy compiled => ?_⟩
  obtain ⟨tree, parsed, -⟩ := ofText_eq_ok_iff.mp compiled
  refine ⟨tree, parsed, fun depth front part back holds room => ?_⟩
  rw [← compiled]
  exact ofText_parentheses parsed holds room

/-- One strategy in words and in symbols, and one with parentheses around a condition. -/
theorem words_for_symbols_condition_in_parentheses :
    (ofText "entry:close gt 1\texit:0 Gt 1").toOption =
      (ofText "ENTRY: CLOSE > 1 EXIT: 0 > 1").toOption ∧
    ∃ strategy, ofText "ENTRY: CLOSE > 1 AND OPEN > 2 EXIT: 0 > 1" = .ok strategy ∧
      ∃ a m z : String, "ENTRY: CLOSE > 1 AND OPEN > 2 EXIT: 0 > 1" = a ++ m ++ z ∧
        a.utf8ByteSize = 21 ∧ (a ++ m).utf8ByteSize = 29 ∧
        ofText (a ++ "(" ++ m ++ ")" ++ z) = .ok strategy := by
  constructor
  · exact ofText_ignores_layout.1 "ENTRY: CLOSE > 1 EXIT: 0 > 1" "entry:close gt 1\texit:0 Gt 1"
      ⟨[⟨.entryLabel, "ENTRY:", 0⟩, ⟨.field .closing, "CLOSE", 7⟩, ⟨.operator .greater, ">", 13⟩,
        ⟨.number, "1", 15⟩, ⟨.exitLabel, "EXIT:", 17⟩, ⟨.number, "0", 23⟩,
        ⟨.operator .greater, ">", 25⟩, ⟨.number, "1", 27⟩], 28⟩
      ⟨[⟨.entryLabel, "ENTRY:", 0⟩, ⟨.field .closing, "CLOSE", 6⟩, ⟨.operator .greater, "GT", 12⟩,
        ⟨.number, "1", 15⟩, ⟨.exitLabel, "EXIT:", 17⟩, ⟨.number, "0", 22⟩,
        ⟨.operator .greater, "GT", 24⟩, ⟨.number, "1", 27⟩], 28⟩ rfl rfl rfl
  · let first : ConditionTree := .comparison ⟨.field ⟨.field .closing, "CLOSE", 7⟩ .closing,
      ⟨.operator .greater, ">", 13⟩, .greater, .number ⟨.number, "1", 15⟩⟩
    let second : ConditionTree := .comparison ⟨.field ⟨.field .opening, "OPEN", 21⟩ .opening,
      ⟨.operator .greater, ">", 26⟩, .greater, .number ⟨.number, "2", 28⟩⟩
    let exit : ConditionTree := .comparison ⟨.number ⟨.number, "0", 36⟩,
      ⟨.operator .greater, ">", 38⟩, .greater, .number ⟨.number, "1", 40⟩⟩
    let known : StrategyTree := ⟨⟨.entryLabel, "ENTRY:", 0⟩,
      .chain (.one first) ⟨.logic .and, "AND", 17⟩ .and second,
      ⟨.exitLabel, "EXIT:", 30⟩, .one exit⟩
    have parsed : StrategyTree.ofText "ENTRY: CLOSE > 1 AND OPEN > 2 EXIT: 0 > 1" = .ok known := rfl
    have builds : known.build.toOption.isSome = true := by decide +kernel
    cases built : known.build with
    | error e =>
      rw [built] at builds
      cases builds
    | ok strategy =>
      have compiled := ofText_eq_ok_iff.mpr ⟨known, parsed, built⟩
      obtain ⟨tree, parsed', grouped⟩ := ofText_ignores_layout.2 _ strategy compiled
      obtain rfl := Except.ok.inj (parsed.symm.trans parsed')
      obtain ⟨a, m, z, shape, start, stop, same⟩ :=
        grouped _ _ _ _ (.entry (.last (.one first) _ .and (.whole (.one second)))) (by decide)
      exact ⟨strategy, compiled, a, m, z, shape, (Option.some.inj start).symm,
        (Option.some.inj stop).symm, same⟩

-- Parentheses around the conditions with which a chain ends do say something.
example : (ofText "ENTRY: 0 > 1 AND (0 > 2 OR 0 > 3) EXIT: 0 > 1").toOption ≠
    (ofText "ENTRY: 0 > 1 AND 0 > 2 OR 0 > 3 EXIT: 0 > 1").toOption := by
  decide +kernel

end Strategy

end MarketRules
