import Mathlib.Data.List.Basic
import MarketRules.Proofs.Language.Respelling
import MarketRules.Proofs.Strategy.Checking

/-!
# The two clauses of a strategy

A strategy is written by putting two clauses behind their labels, and the clauses
can be any text.  Since a blank ends a token, the words of the whole are the words
of the clauses with the two labels between them.  A rule has no label among its
tokens, so a text with labels of its own has one label too many, and the label of
the exit rule in a text that compiles is the one that was put there.  The bounds
are those of each rule on its own, and so the text compiles exactly when both
clauses do.
-/

namespace MarketRules

/-! ## Clauses -/

/-- A strategy in which these two texts are the clauses. -/
def clausesText (entry exit : String) : String := "ENTRY: " ++ entry ++ " EXIT: " ++ exit

/-- The words of the two labels. -/
def Clause.labelWord : Clause → TokenKind × String
  | .entry => (.entryLabel, "ENTRY:")
  | .exit => (.exitLabel, "EXIT:")

/-- The words of a strategy are those of its clauses, with the labels in front of
them. -/
theorem words?_clausesText (entry exit : String) : words? (clausesText entry exit) =
    (words? entry).bind fun ws => (words? exit).map fun ws' =>
      Clause.entry.labelWord :: ws ++ Clause.exit.labelWord :: ws' := by
  have shape : clausesText entry exit =
      "ENTRY:" ++ " " ++ (entry ++ " " ++ ("EXIT:" ++ " " ++ exit)) := by
    apply String.toList_injective
    simp [clausesText]
  have entryLabel : words? "ENTRY:" = some [Clause.entry.labelWord] := by decide
  have exitLabel : words? "EXIT:" = some [Clause.exit.labelWord] := by decide
  rw [shape, words?_append_blank, words?_append_blank, words?_append_blank, entryLabel, exitLabel]
  cases words? entry with
  | none => rfl
  | some ws => cases words? exit <;> rfl

/-- The text is one rule within the bounds, and builds this one. -/
def Rule.IsClause (r : Rule) (text : String) : Prop :=
  ∃ tree : RuleTree, tree.Grammatical ∧ tree.extent.Allowed ∧ tree.build = .ok r ∧
    words? text = some (tree.tokens.map Token.word)

/-- No token of a rule is a label. -/
theorem RuleTree.Grammatical.labelWord_notMem {r : RuleTree} (wellFormed : r.Grammatical)
    (clause : Clause) : clause.labelWord ∉ r.tokens.map Token.word := by
  intro member
  obtain ⟨t, inRule, word⟩ := List.mem_map.mp member
  obtain ⟨notEntry, notExit⟩ := wellFormed.kind_not_label t inRule
  cases clause with
  | entry => exact notEntry (congrArg Prod.fst word)
  | exit => exact notExit (congrArg Prod.fst word)

theorem RuleTree.Grammatical.kind_not_label_of_words {r : RuleTree} (wellFormed : r.Grammatical)
    {ts : List Token} (same : ts.map Token.word = r.tokens.map Token.word) :
    ∀ t ∈ ts, t.kind ≠ .entryLabel ∧ t.kind ≠ .exitLabel := by
  have senses : ts.map Token.sense = r.tokens.map Token.sense := by
    rw [Token.map_sense, Token.map_sense, same]
  obtain ⟨r', wellFormed', rfl, -⟩ := wellFormed.exists_of_senses senses
  exact wellFormed'.kind_not_label

/-- A tree for the whole strategy has a tree for each clause.  The tree has one label for the
exit rule, which is therefore the one between the clauses. -/
theorem StrategyTree.words?_of_clausesText {entry exit : String} {tree : StrategyTree}
    (parsed : StrategyTree.ofText (clausesText entry exit) = .ok tree) :
    words? entry = some (tree.entry.tokens.map Token.word) ∧
      words? exit = some (tree.exit.tokens.map Token.word) := by
  obtain ⟨s, tokenized, accepted⟩ := exists_stream_of_ofText parsed
  obtain ⟨⟨atEntry, entryWellFormed, atExit, exitWellFormed⟩, tokens, -⟩ :=
    ofTokens_eq_ok_iff.mp accepted
  have whole := words?_eq_some_iff.mpr ⟨s, tokenized, rfl⟩
  rw [words?_clausesText] at whole
  obtain ⟨ws, entryWords, whole⟩ := Option.bind_eq_some_iff.mp whole
  obtain ⟨ws', exitWords, whole⟩ := Option.map_eq_some_iff.mp whole
  rw [← tokens, StrategyTree.tokens, List.map_append, List.map_cons, List.map_cons,
    List.cons_append, List.cons_append] at whole
  replace whole := (List.cons.inj whole).2
  have exitLabel : tree.exitLabel.word = Clause.exit.labelWord := by
    have member : Clause.exit.labelWord ∈
        tree.entry.tokens.map Token.word ++
          tree.exitLabel.word :: tree.exit.tokens.map Token.word := by
      rw [← whole]
      exact List.mem_append_right _ List.mem_cons_self
    rcases List.mem_append.mp member with inEntry | member
    · exact absurd inEntry (entryWellFormed.labelWord_notMem .exit)
    · rcases List.mem_cons.mp member with label | inExit
      · exact label.symm
      · exact absurd inExit (exitWellFormed.labelWord_notMem .exit)
  rw [exitLabel] at whole
  obtain ⟨rfl, -, rfl⟩ := (List.append_cons_inj_of_notMem
    (entryWellFormed.labelWord_notMem .exit) (exitWellFormed.labelWord_notMem .exit)).mp whole.symm
  exact ⟨entryWords, exitWords⟩

namespace Strategy

/-- Two clauses compile exactly when each of them is a rule.  The trees of the clauses have
their tokens at other places than the whole. -/
theorem ofText_clausesText_eq_ok_iff {entry exit : String} {s : Strategy} :
    ofText (clausesText entry exit) = .ok s ↔ s.entry.IsClause entry ∧ s.exit.IsClause exit := by
  constructor
  · intro compiled
    obtain ⟨tree, parsed, built⟩ := ofText_eq_ok_iff.mp compiled
    obtain ⟨builtEntry, builtExit⟩ := StrategyTree.build_rules built
    obtain ⟨entryAllowed, exitAllowed⟩ := StrategyTree.allowed_of_ofText parsed
    obtain ⟨entryWords, exitWords⟩ := StrategyTree.words?_of_clausesText parsed
    obtain ⟨stream, -, accepted⟩ := StrategyTree.exists_stream_of_ofText parsed
    obtain ⟨⟨-, entryWellFormed, -, exitWellFormed⟩, -⟩ :=
      StrategyTree.ofTokens_eq_ok_iff.mp accepted
    exact ⟨⟨tree.entry, entryWellFormed, entryAllowed, builtEntry, entryWords⟩,
      ⟨tree.exit, exitWellFormed, exitAllowed, builtExit, exitWords⟩⟩
  · rintro ⟨⟨entryTree, atEntry, entryAllowed, builtEntry, entryWords⟩,
      ⟨exitTree, atExit, exitAllowed, builtExit, exitWords⟩⟩
    have whole := words?_clausesText entry exit
    rw [entryWords, exitWords] at whole
    obtain ⟨stream, tokenized, words⟩ := words?_eq_some_iff.mp whole
    let tree : StrategyTree :=
      ⟨⟨.entryLabel, "ENTRY:", 0⟩, entryTree, ⟨.exitLabel, "EXIT:", 0⟩, exitTree⟩
    have wellFormed : tree.Grammatical := ⟨rfl, atEntry, rfl, atExit⟩
    have noBreach : tree.breaches = [] := tree.breaches_eq_nil_iff.mpr ⟨entryAllowed, exitAllowed⟩
    have treeWords : tree.tokens.map Token.word = stream.tokens.map Token.word := by
      rw [words, StrategyTree.tokens, List.map_append]
      rfl
    have same : stream.tokens.map Token.sense = tree.tokens.map Token.sense := by
      rw [Token.map_sense, Token.map_sense, treeWords]
    rw [ofText_of_senses tokenized wellFormed noBreach same, StrategyTree.build, builtEntry,
      builtExit]
    rfl

/-- A strategy of two clauses compiles if and only if both are rules. -/
theorem exists_ofText_clausesText_iff {entry exit : String} :
    (∃ s, ofText (clausesText entry exit) = .ok s) ↔
      (∃ r : Rule, r.IsClause entry) ∧ ∃ r : Rule, r.IsClause exit := by
  constructor
  · rintro ⟨s, compiled⟩
    obtain ⟨atEntry, atExit⟩ := ofText_clausesText_eq_ok_iff.mp compiled
    exact ⟨⟨_, atEntry⟩, ⟨_, atExit⟩⟩
  · rintro ⟨⟨entryRule, atEntry⟩, ⟨exitRule, atExit⟩⟩
    exact ⟨⟨entryRule, exitRule⟩, ofText_clausesText_eq_ok_iff.mpr ⟨atEntry, atExit⟩⟩

end Strategy

theorem Translation.neverExit_eq : Translation.neverExit = "0 > 1" := by decide +kernel

/-- The text `0 > 1` is the rule that never holds. -/
theorem Rule.isClause_never : Rule.never.IsClause "0 > 1" := by
  have compiles : (Strategy.ofText (clausesText "0 > 1" "0 > 1")).toOption =
      some ⟨Rule.never, Rule.never⟩ := by
    decide +kernel
  cases compiled : Strategy.ofText (clausesText "0 > 1" "0 > 1") with
  | error e =>
    rw [compiled] at compiles
    cases compiles
  | ok s =>
    rw [compiled] at compiles
    obtain rfl := Option.some.inj compiles
    exact (Strategy.ofText_clausesText_eq_ok_iff.mp compiled).1

/-- A text builds at most one rule. -/
theorem Rule.IsClause.unique {r r' : Rule} {text : String} (first : r.IsClause text)
    (second : r'.IsClause text) : r = r' := by
  have compiled (r : Rule) (isClause : r.IsClause text) :=
    Strategy.ofText_clausesText_eq_ok_iff (s := ⟨r, r⟩).mpr ⟨isClause, isClause⟩
  have same := (compiled r first).symm.trans (compiled r' second)
  exact congrArg Strategy.entry (Except.ok.inj same)

/-! ## Sentences -/

namespace CheckedStrategy

/-- A sentence compiles exactly when each of its clauses compiles beside a rule that
says nothing, and then to the rules of these two.  In what compiles, no token of a
clause is a label, and the rules are those of the tokens of the clauses. -/
theorem ofEnglish_clauses_apart (text : String) :
    ((∃ c, ofEnglish text = .ok c) ↔
      (∃ s, Strategy.ofText ("ENTRY: " ++ (Translation.ofText text).entry ++ " EXIT: 0 > 1") =
        .ok s) ∧
      ∃ s, Strategy.ofText ("ENTRY: 0 > 1 EXIT: " ++ (Translation.ofText text).exit) = .ok s) ∧
    ∀ c, ofEnglish text = .ok c →
      (∀ s, Strategy.ofText ("ENTRY: " ++ (Translation.ofText text).entry ++ " EXIT: 0 > 1") =
        .ok s → c.entry = s.entry) ∧
      (∀ s, Strategy.ofText ("ENTRY: 0 > 1 EXIT: " ++ (Translation.ofText text).exit) = .ok s →
        c.exit = s.exit) ∧
      ∃ (tree : StrategyTree) (entry exit : TokenStream),
        StrategyTree.ofText (Translation.ofText text).strategyText = .ok tree ∧
        TokenStream.ofText (Translation.ofText text).entry = .ok entry ∧
        TokenStream.ofText (Translation.ofText text).exit = .ok exit ∧
        tree.entry.tokens.map Token.word = entry.tokens.map Token.word ∧
        tree.exit.tokens.map Token.word = exit.tokens.map Token.word ∧
        ∀ t ∈ entry.tokens ++ exit.tokens, t.kind ≠ .entryLabel ∧ t.kind ≠ .exitLabel := by
  have entryBeside (e : String) : "ENTRY: " ++ e ++ " EXIT: 0 > 1" = clausesText e "0 > 1" := by
    apply String.toList_injective
    simp [clausesText]
  have exitBeside (e : String) : "ENTRY: 0 > 1 EXIT: " ++ e = clausesText "0 > 1" e := rfl
  constructor
  · rw [ofEnglish, exists_ofText_iff_exists_strategy, entryBeside, exitBeside,
      Strategy.exists_ofText_clausesText_iff, Strategy.exists_ofText_clausesText_iff]
    exact Strategy.exists_ofText_clausesText_iff.trans
      ⟨fun ⟨atEntry, atExit⟩ =>
        ⟨⟨atEntry, _, Rule.isClause_never⟩, ⟨_, Rule.isClause_never⟩, atExit⟩,
        fun ⟨⟨atEntry, _⟩, _, atExit⟩ => ⟨atEntry, atExit⟩⟩
  · intro c compiled
    have built := ofText_eq_ok_iff.mp compiled
    obtain ⟨atEntry, atExit⟩ := Strategy.ofText_clausesText_eq_ok_iff.mp built
    refine ⟨?_, ?_, ?_⟩
    · intro s alone
      rw [entryBeside] at alone
      exact atEntry.unique (Strategy.ofText_clausesText_eq_ok_iff.mp alone).1
    · intro s alone
      rw [exitBeside] at alone
      exact atExit.unique (Strategy.ofText_clausesText_eq_ok_iff.mp alone).2
    · obtain ⟨tree, parsed, -⟩ := Strategy.ofText_eq_ok_iff.mp built
      obtain ⟨entryWords, exitWords⟩ := StrategyTree.words?_of_clausesText parsed
      obtain ⟨entry, entryRead, entrySame⟩ := words?_eq_some_iff.mp entryWords
      obtain ⟨exit, exitRead, exitSame⟩ := words?_eq_some_iff.mp exitWords
      obtain ⟨stream, -, accepted⟩ := StrategyTree.exists_stream_of_ofText parsed
      obtain ⟨⟨-, entryWellFormed, -, exitWellFormed⟩, -⟩ :=
        StrategyTree.ofTokens_eq_ok_iff.mp accepted
      refine ⟨tree, entry, exit, parsed, entryRead, exitRead, entrySame.symm, exitSame.symm, ?_⟩
      intro t member
      rcases List.mem_append.mp member with inEntry | inExit
      · exact entryWellFormed.kind_not_label_of_words entrySame t inEntry
      · exact exitWellFormed.kind_not_label_of_words exitSame t inExit

/-- A sentence with parentheses in its second clause, and the rules of both. -/
theorem sentence_clauses_apart : ∃ c s s',
    ofEnglish "Buy when close is above 5. Sell when (close is below 3 or volume is less than 9)." =
      .ok c ∧
    Strategy.ofText "ENTRY: CLOSE GT 5 EXIT: 0 > 1" = .ok s ∧
    Strategy.ofText "ENTRY: 0 > 1 EXIT: (CLOSE LT 3 OR VOLUME LT 9)" = .ok s' ∧
    c.entry = s.entry ∧ c.exit = s'.exit := by
  let sentence :=
    "Buy when close is above 5. Sell when (close is below 3 or volume is less than 9)."
  have translated : (Translation.ofText sentence).entry = "CLOSE GT 5" ∧
      (Translation.ofText sentence).exit = "(CLOSE LT 3 OR VOLUME LT 9)" := by
    decide +kernel
  have compiles : (Strategy.ofText (Translation.ofText sentence).strategyText).toOption.isSome =
      true := by
    decide +kernel
  cases built : Strategy.ofText (Translation.ofText sentence).strategyText with
  | error e =>
    rw [built] at compiles
    cases compiles
  | ok strategy =>
    obtain ⟨c, compiled, -⟩ := exists_of_ofText built
    obtain ⟨alone, apart⟩ := ofEnglish_clauses_apart sentence
    obtain ⟨⟨s, entryAlone⟩, s', exitAlone⟩ := alone.mp ⟨c, compiled⟩
    obtain ⟨entry, exit, -⟩ := apart c compiled
    rw [translated.1] at entryAlone entry
    rw [translated.2] at exitAlone exit
    exact ⟨c, s, s', compiled, entryAlone, exitAlone, entry s entryAlone, exit s' exitAlone⟩

end CheckedStrategy

end MarketRules
