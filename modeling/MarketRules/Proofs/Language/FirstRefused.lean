import MarketRules.Proofs.Language.Parsing

/-!
# The first token that cannot stand

A text that is refused for its form is refused at the first token that no sentence
has there.  Two facts make this up.

*Completion.*  Every state of the reading has a list of kinds that finish it: the
rest of the comparison under way, a closing parenthesis for each open one, and an
exit rule if there is none yet.  The reading itself accepts these kinds, so what was
read begins a sentence.  The one state without room is that in front of a comparison
too many, and there only the bounds refuse.

*Refusal.*  The tokens of a sentence are refused at breaches of the bounds only.  So a
token that is refused for another reason continues no sentence.
-/

namespace MarketRules

/-! ## Completing a rule -/

/-- A token of a kind, with nothing else said of it. -/
def Token.bare (kind : TokenKind) : Token := ⟨kind, "", 0⟩

theorem Token.map_kind_bare (ks : List TokenKind) : (ks.map Token.bare).map Token.kind = ks := by
  rw [List.map_map]
  exact List.map_id ks

/-- The kinds that finish an indicator call. -/
def PartialCall.completion : PartialCall → List TokenKind
  | .name .. => [.leftParen, .field .closing, .comma, .number, .rightParen]
  | .paren .. => [.field .closing, .comma, .number, .rightParen]
  | .field .. => [.comma, .number, .rightParen]
  | .comma .. => [.number, .rightParen]
  | .period .. => [.rightParen]

/-- The kinds that finish a condition. -/
def Place.completion : Place → List TokenKind
  | .start => [.number, .operator .equal, .number]
  | .call none begun => begun.completion ++ [.operator .equal, .number]
  | .call (some _) begun => begun.completion
  | .operator _ => [.operator .equal, .number]
  | .right _ => [.number]
  | .done _ => []

namespace RuleState

/-- The kinds that finish a rule. -/
def completion (s : RuleState) : List TokenKind :=
  s.place.completion ++ List.replicate s.groups.length .rightParen

/-- If a condition is to begin, there is room for its first comparison. -/
def HasRoom (s : RuleState) : Prop := s.place = .start → s.comparisons < Rule.maxComparisons

variable (atEnd : SyntaxFault)

/-- The rest of a call is read, and an operand is there. -/
theorem exists_read_call (s : RuleState) (left : Option LeftHalf) (begun : PartialCall) :
    ∃ x, (s.moveTo (.call left begun)).read atEnd (begun.completion.map .bare) =
      .ok (s.moveTo (.afterOperand left x)) := by
  cases begun with
  | name => exact ⟨_, rfl⟩
  | paren => exact ⟨_, rfl⟩
  | field => exact ⟨_, rfl⟩
  | comma => exact ⟨_, rfl⟩
  | period => exact ⟨_, rfl⟩

/-- Behind a left operand the condition is finished by an operator and a number. -/
theorem exists_read_operator (s : RuleState) (x : OperandTree) :
    ∃ c, (s.moveTo (.operator x)).read atEnd [.bare (.operator .equal), .bare .number] =
      .ok (s.moveTo (.done c)) :=
  ⟨_, rfl⟩

/-- The condition under way is finished within the same parentheses. -/
theorem exists_read_place (s : RuleState) (room : s.HasRoom) :
    ∃ n c, s.read atEnd (s.place.completion.map .bare) =
      .ok ⟨n, s.groups, s.before, .done c⟩ := by
  obtain ⟨n, groups, before, place⟩ := s
  let there : RuleState := ⟨n, groups, before, place⟩
  cases place with
  | start =>
    have first : next? ⟨n, groups, before, .start⟩ (.bare .number) =
        some ⟨n + 1, groups, before, .operator (.number (.bare .number))⟩ := by
      have room : n < Rule.maxComparisons := room rfl
      simp only [next?, beginCondition?, Token.bare, if_pos room]
      rfl
    obtain ⟨c, finished⟩ := exists_read_operator atEnd
      ⟨n + 1, groups, before, .start⟩ (.number (.bare .number))
    exact ⟨n + 1, c, (read_of_next first _).trans finished⟩
  | call left begun =>
    obtain ⟨x, ended⟩ := exists_read_call atEnd there left begun
    cases left with
    | none =>
      obtain ⟨c, finished⟩ := exists_read_operator atEnd there x
      refine ⟨n, c, ?_⟩
      rw [Place.completion, List.map_append, read_append]
      show (there.moveTo (.call none begun)).read atEnd _ >>= _ = _
      rw [ended]
      exact finished
    | some l => exact ⟨n, _, ended⟩
  | operator x =>
    obtain ⟨c, finished⟩ := exists_read_operator atEnd there x
    exact ⟨n, c, finished⟩
  | right left => exact ⟨n, _, rfl⟩
  | done c => exact ⟨n, c, rfl⟩

/-- Closing parentheses finish the rule behind a finished condition. -/
theorem exists_read_closings (groups : List OpenGroup) :
    ∀ (n : Nat) (before : Option ChainStart) (c : ConditionTree),
    ∃ s' r, read atEnd ⟨n, groups, before, .done c⟩
        ((List.replicate groups.length TokenKind.rightParen).map .bare) = .ok s' ∧
      s'.finished? = some r := by
  induction groups with
  | nil => exact fun n before c => ⟨_, _, rfl, rfl⟩
  | cons g gs ih =>
    intro n before c
    have closed : next? ⟨n, g :: gs, before, .done c⟩ (.bare .rightParen) =
        some ⟨n, gs, g.before,
          .done (.group g.leftParen (ChainStart.extend? before c) (.bare .rightParen))⟩ := rfl
    rw [List.length_cons, List.replicate_succ, List.map_cons, read_of_next closed]
    exact ih n g.before _

/-- A rule with room can be completed. -/
theorem exists_read_completion (s : RuleState) (room : s.HasRoom) :
    ∃ s' r, s.read atEnd (s.completion.map .bare) = .ok s' ∧ s'.finished? = some r := by
  obtain ⟨n, c, condition⟩ := s.exists_read_place atEnd room
  obtain ⟨s', r, closed, finished⟩ := exists_read_closings atEnd s.groups n s.before c
  refine ⟨s', r, ?_, finished⟩
  rw [completion, List.map_append, read_append, condition]
  exact closed

theorem hasRoom_initial : initial.HasRoom := fun _ => by decide

/-- A rule without room refuses a token for the bounds. -/
theorem hasRoom_of_fault {s : RuleState} {atEnd : SyntaxFault} {t : Token}
    (shallow : s.fault atEnd t ≠ .tooDeep) (short : s.fault atEnd t ≠ .tooLong) : s.HasRoom := by
  intro atStart
  rw [fault, atStart] at shallow short
  by_cases opened : t.kind = .leftParen
  · exact absurd (if_pos opened) shallow
  · by_cases room : s.comparisons < Rule.maxComparisons
    · exact room
    · exact absurd ((if_neg opened).trans (if_neg room)) short

/-- A rule is completed without a label. -/
theorem exitLabel_notMem_completion (s : RuleState) : .exitLabel ∉ s.completion := by
  obtain ⟨n, groups, before, place⟩ := s
  have atPlace : .exitLabel ∉ place.completion := by
    cases place with
    | start => simp [Place.completion]
    | call left begun =>
      cases left <;> cases begun <;> simp [Place.completion, PartialCall.completion]
    | operator => simp [Place.completion]
    | right => simp [Place.completion]
    | done => simp [Place.completion]
  simp [completion, atPlace]

end RuleState

/-! ## Completing a strategy -/

namespace ParseState

/-- The rule under way has room. -/
def HasRoom : ParseState → Prop
  | .start => True
  | .entry _ rule => rule.HasRoom
  | .exit _ _ _ rule => rule.HasRoom

theorem hasRoom_of_fault {s : ParseState} {t : Token} (shallow : s.fault t ≠ .tooDeep)
    (short : s.fault t ≠ .tooLong) : s.HasRoom := by
  cases s with
  | start => trivial
  | entry => exact RuleState.hasRoom_of_fault shallow short
  | exit => exact RuleState.hasRoom_of_fault shallow short

/-- The state can be completed to a strategy. -/
def Completable (s : ParseState) : Prop :=
  ∃ (ks : List TokenKind) (s' : ParseState) (tree : StrategyTree),
    (ks.map .bare).foldlM step s = .ok s' ∧ s'.finished? = some tree

/-- What leads to a state that can be completed can be completed itself. -/
theorem Completable.of_foldlM {s s' : ParseState} {ks : List TokenKind}
    (run : (ks.map .bare).foldlM step s = .ok s') : s'.Completable → s.Completable := by
  rintro ⟨ks', s'', tree, later, finished⟩
  refine ⟨ks ++ ks', s'', tree, ?_, finished⟩
  rw [List.map_append, List.foldlM_append, run]
  exact later

theorem completable_exit (entryLabel : Token) (entryTree : RuleTree) (exitLabel : Token)
    {rule : RuleState} (room : rule.HasRoom) :
    (exit entryLabel entryTree exitLabel rule).Completable := by
  obtain ⟨rule', r, read, finished⟩ := rule.exists_read_completion .trailing room
  refine ⟨rule.completion, .exit entryLabel entryTree exitLabel rule',
    ⟨entryLabel, entryTree, exitLabel, r⟩, ?_, ?_⟩
  · rw [foldlM_step_of_rule _ fun t _ rule => step_exit, read]
    rfl
  · rw [finished?, finished]
    rfl

/-- An entry rule with room is completed, and then an exit rule of its own behind it. -/
theorem completable_entry (label : Token) {rule : RuleState} (room : rule.HasRoom) :
    (entry label rule).Completable := by
  obtain ⟨rule', r, read, finished⟩ :=
    rule.exists_read_completion (.expected (.kind .exitLabel)) room
  have inRule : (rule.completion.map .bare).foldlM step (.entry label rule) =
      .ok (.entry label rule') := by
    have notLabel (t : Token) (member : t ∈ rule.completion.map .bare) :
        t.kind ≠ .exitLabel := by
      obtain ⟨k, inCompletion, rfl⟩ := List.mem_map.mp member
      rintro rfl
      exact rule.exitLabel_notMem_completion inCompletion
    rw [foldlM_step_of_rule _ fun t member rule => step_entry (notLabel t member), read]
    rfl
  have turned : (([.exitLabel] : List TokenKind).map .bare).foldlM step (.entry label rule') =
      .ok (.exit label r (.bare .exitLabel) .initial) := by
    have stepped : (entry label rule').step (.bare .exitLabel) =
        .ok (.exit label r (.bare .exitLabel) .initial) := by
      rw [step, next?, finished]
      rfl
    rw [List.map_singleton, foldlM_step_of_ok stepped]
    rfl
  exact .of_foldlM inRule (.of_foldlM turned (completable_exit _ _ _ RuleState.hasRoom_initial))

/-- Every state with room begins some sentence. -/
theorem HasRoom.completable {s : ParseState} (room : s.HasRoom) : s.Completable := by
  cases s with
  | start =>
    have begun : (([.entryLabel] : List TokenKind).map .bare).foldlM step .start =
        .ok (.entry (.bare .entryLabel) .initial) := rfl
    exact .of_foldlM begun (completable_entry _ RuleState.hasRoom_initial)
  | entry label rule => exact completable_entry label room
  | exit entryLabel entryTree exitLabel rule => exact completable_exit _ _ _ room

/-- What was read to a state that can be completed begins a sentence within the
bounds. -/
theorem Completable.exists_boundedSentence {ts : List Token} {s : ParseState}
    (run : ts.foldlM step .start = .ok s) (completable : s.Completable) :
    ∃ rest, Grammar.BoundedSentence (ts.map Token.kind ++ rest) := by
  obtain ⟨ks, s', tree, later, finished⟩ := completable
  have parsed : StrategyTree.ofTokens ⟨ts ++ ks.map .bare, 0⟩ = .ok tree := by
    rw [StrategyTree.ofTokens]
    show (ts ++ ks.map Token.bare).foldlM step .start >>= _ = _
    rw [List.foldlM_append, run]
    show (ks.map Token.bare).foldlM step s >>= _ = _
    rw [later]
    show s'.finish _ = _
    rw [finish, finished]
  have bounded := Grammar.boundedSentence_iff_exists_tree.mpr
    ⟨tree, StrategyTree.ofTokens_eq_ok_iff.mp parsed⟩
  rw [List.map_append, Token.map_kind_bare] at bounded
  exact ⟨ks, bounded⟩

end ParseState

/-! ## What a sentence can be refused for -/

mutual

theorem RuleTree.fault_of_mem_breaches : ∀ (r : RuleTree) {level count : Nat} {e : SyntaxError},
    e ∈ r.breaches level count → e.fault = .tooDeep ∨ e.fault = .tooLong
  | .one c, _, _, _, member => ConditionTree.fault_of_mem_breaches c member
  | .chain before _ _ last, _, _, _, member => by
    rcases List.mem_append.mp member with inBefore | inLast
    · exact RuleTree.fault_of_mem_breaches before inBefore
    · exact ConditionTree.fault_of_mem_breaches last inLast

theorem ConditionTree.fault_of_mem_breaches : ∀ (c : ConditionTree) {level count : Nat}
    {e : SyntaxError}, e ∈ c.breaches level count → e.fault = .tooDeep ∨ e.fault = .tooLong
  | .comparison c, level, count, e, member => by
    rw [ConditionTree.breaches] at member
    split at member
    · cases member
    · rw [List.mem_singleton.mp member]
      exact .inr rfl
  | .group lp rule _, level, count, e, member => by
    rw [ConditionTree.breaches] at member
    rcases List.mem_append.mp member with opening | inside
    · split at opening
      · cases opening
      · rw [List.mem_singleton.mp opening]
        exact .inl rfl
    · exact RuleTree.fault_of_mem_breaches rule inside

end

/-- A breach is a parenthesis too deep or a comparison too many. -/
theorem StrategyTree.fault_of_mem_breaches (s : StrategyTree) {e : SyntaxError}
    (member : e ∈ s.breaches) : e.fault = .tooDeep ∨ e.fault = .tooLong := by
  rcases List.mem_append.mp member with inEntry | inExit
  · exact s.entry.fault_of_mem_breaches inEntry
  · exact s.exit.fault_of_mem_breaches inExit

/-- A verdict that refuses names one of the errors. -/
theorem mem_of_verdict_eq_error {α : Type} {errors : List SyntaxError} {x : α} {e : SyntaxError}
    (refused : verdict errors x = .error e) : e ∈ errors := by
  cases errors with
  | nil => cases refused
  | cons e' es =>
    cases refused
    exact List.mem_cons_self

/-- The tokens of a sentence are refused for the bounds only. -/
theorem Grammar.Sentence.fault_of_foldlM {ts : List Token} {e : SyntaxError}
    (sentence : Sentence (ts.map Token.kind))
    (refused : ts.foldlM ParseState.step .start = .error e) :
    e.fault = .tooDeep ∨ e.fault = .tooLong := by
  obtain ⟨tree, wellFormed, rfl⟩ := sentence_iff_exists_tree.mp sentence
  rw [wellFormed.foldlM_tokens] at refused
  exact tree.fault_of_mem_breaches (mem_of_verdict_eq_error refused)

/-- A sentence that is read to its end can end there. -/
theorem Grammar.Sentence.exists_finished {ts : List Token} {s : ParseState}
    (sentence : Sentence (ts.map Token.kind)) (run : ts.foldlM ParseState.step .start = .ok s) :
    ∃ tree, s.finished? = some tree := by
  obtain ⟨tree, wellFormed, rfl⟩ := sentence_iff_exists_tree.mp sentence
  rw [wellFormed.foldlM_tokens, verdict_eq_ok_iff] at run
  obtain ⟨-, rfl⟩ := run
  rw [ParseState.finished?, tree.exit.finished?_endState]
  exact ⟨_, rfl⟩

/-! ## The token of an error -/

namespace Lexeme

variable {c : Char} {cs : List Char} {lexeme : Lexeme}

theorem scanOperator_kind (scanned : scanOperator cs = .ok lexeme) :
    lexeme.kind ≠ .endOfInput := by
  rw [scanOperator] at scanned
  split at scanned <;> cases scanned
  · exact TokenKind.noConfusion
  · exact TokenKind.noConfusion

theorem scanNumber_kind (scanned : scanNumber cs = .ok lexeme) : lexeme.kind ≠ .endOfInput := by
  rw [scanNumber] at scanned
  split at scanned
  · cases scanned
  · split at scanned <;> cases scanned
    exact TokenKind.noConfusion

theorem wordKind_ne_endOfInput (word : String) : wordKind word ≠ .endOfInput := by
  rw [wordKind]
  split <;> exact TokenKind.noConfusion

theorem scanWord_kind (cs : List Char) : (scanWord cs).kind ≠ .endOfInput := by
  rw [scanWord]
  split
  · exact TokenKind.noConfusion
  · split
    · exact TokenKind.noConfusion
    · exact wordKind_ne_endOfInput _

/-- Only the end of a text is of the kind of an end. -/
theorem scan_kind (scanned : scan c cs = .ok lexeme) : lexeme.kind ≠ .endOfInput := by
  rw [scan] at scanned
  split at scanned
  · cases scanned
    exact TokenKind.noConfusion
  split at scanned
  · cases scanned
    exact TokenKind.noConfusion
  split at scanned
  · cases scanned
    exact TokenKind.noConfusion
  split at scanned
  · exact scanOperator_kind scanned
  split at scanned
  · exact scanNumber_kind scanned
  split at scanned <;> cases scanned
  exact scanWord_kind _

end Lexeme

/-- Every token of a stream was scanned somewhere in its text. -/
theorem TokenStream.exists_scan_of_mem {cs : List Char} : ∀ {position skip : Nat}
    {s : TokenStream}, lexFrom position skip cs = .ok s → ∀ t ∈ s.tokens,
      ∃ c rest lexeme, Lexeme.scan c rest = .ok lexeme ∧
        t = ⟨lexeme.kind, String.ofList lexeme.text, t.position⟩ := by
  induction cs with
  | nil =>
    intro position skip s read t member
    cases read
    cases member
  | cons c cs ih =>
    intro position skip s read
    cases skip with
    | succ skip => exact ih read
    | zero =>
      rw [lexFrom] at read
      split at read
      · exact ih read
      · cases scanned : Lexeme.scan c cs with
        | error fault =>
          rw [scanned] at read
          cases read
        | ok lexeme =>
          rw [scanned] at read
          dsimp only at read
          cases later : lexFrom (position + c.utf8Size) lexeme.tail cs with
          | error e =>
            rw [later] at read
            cases read
          | ok s' =>
            rw [later] at read
            cases read
            intro t member
            rcases List.mem_cons.mp member with rfl | member
            · exact ⟨c, cs, lexeme, scanned, rfl⟩
            · exact ih later t member

/-- No token that was read is the end of the text. -/
theorem TokenStream.kind_ne_endOfInput {cs : List Char} {position skip : Nat}
    {s : TokenStream} (read : lexFrom position skip cs = .ok s) :
    ∀ t ∈ s.tokens, t.kind ≠ .endOfInput := by
  intro t member
  obtain ⟨c, rest, lexeme, scanned, made⟩ := exists_scan_of_mem read t member
  rw [made]
  exact Lexeme.scan_kind scanned

/-- A run that is refused is refused at a token. -/
theorem ParseState.exists_refused {ts : List Token} : ∀ {s : ParseState} {e : SyntaxError},
    ts.foldlM step s = .error e →
    ∃ before k after s', ts = before ++ k :: after ∧ before.foldlM step s = .ok s' ∧
      s'.step k = .error e := by
  induction ts with
  | nil => rintro s e ⟨⟩
  | cons t ts ih =>
    intro s e refused
    cases stepped : s.step t with
    | error e' =>
      rw [List.foldlM_cons, stepped] at refused
      cases refused
      exact ⟨[], t, ts, s, rfl, rfl, stepped⟩
    | ok s' =>
      rw [foldlM_step_of_ok stepped] at refused
      obtain ⟨before, k, after, s'', rfl, run, last⟩ := ih refused
      exact ⟨t :: before, k, after, s'', rfl, (foldlM_step_of_ok stepped before).trans run, last⟩

/-- The error at a token is known from the state and the token. -/
theorem ParseState.eq_refuse_of_step {s : ParseState} {t : Token} {e : SyntaxError}
    (refused : s.step t = .error e) : e = s.refuse t := by
  rw [step] at refused
  split at refused <;> cases refused
  rfl

/-- No rule goes on with the end of the text. -/
theorem RuleState.next?_endOfInput (s : RuleState) {t : Token} (atEnd : t.kind = .endOfInput) :
    s.next? t = none := by
  obtain ⟨n, groups, before, place⟩ := s
  cases place with
  | start => simp [next?, beginCondition?, Place.beginOperand?, atEnd]
  | call left begun => cases begun <;> simp [next?, Place.continueCall?, atEnd]
  | operator => simp [next?, atEnd]
  | right => simp [next?, Place.beginOperand?, atEnd]
  | done => simp [next?, continueChain?, atEnd]

/-- No state reads the end of the text as a token. -/
theorem ParseState.step_endOfInput (s : ParseState) {t : Token} (atEnd : t.kind = .endOfInput) :
    s.step t = .error (s.refuse t) := by
  have none : s.next? t = none := by
    cases s with
    | start => simp [next?, atEnd]
    | entry label rule => simp [next?, rule.next?_endOfInput atEnd, atEnd]
    | exit _ _ _ rule => simp [next?, rule.next?_endOfInput atEnd]
  rw [step, none]

/-- A stream is refused at one of its tokens, the end included. -/
theorem StrategyTree.exists_refused_of_ofTokens {s : TokenStream} {e : SyntaxError}
    (noEnd : ∀ t ∈ s.tokens, t.kind ≠ .endOfInput) (refused : ofTokens s = .error e) :
    ∃ before k after state, s.withEnd = before ++ k :: after ∧
      before.foldlM ParseState.step .start = .ok state ∧ state.step k = .error e ∧
      (k.kind = .endOfInput → state.finished? = none) := by
  rw [ofTokens] at refused
  cases run : s.tokens.foldlM ParseState.step .start with
  | error e' =>
    rw [run] at refused
    cases refused
    obtain ⟨before, k, after, state, tokens, read, last⟩ := ParseState.exists_refused run
    refine ⟨before, k, after ++ [.endAt s.length], state, ?_, read, last, fun atEnd => ?_⟩
    · rw [TokenStream.withEnd, tokens, List.append_assoc, List.cons_append]
    · have member : k ∈ s.tokens := by
        rw [tokens]
        exact List.mem_append_right _ List.mem_cons_self
      exact absurd atEnd (noEnd k member)
  | ok state =>
    rw [run] at refused
    replace refused : state.finish (.endAt s.length) = .error e := refused
    rw [ParseState.finish] at refused
    split at refused <;> cases refused
    next unfinished =>
      exact ⟨s.tokens, .endAt s.length, [], state, rfl, run, state.step_endOfInput rfl,
        fun _ => unfinished⟩

/-! ## What no sentence goes on with -/

namespace Grammar.Sentence

variable {before : List Token} {k : Token} {state : ParseState} {e : SyntaxError}
  {ks : List TokenKind}

/-- A sentence does not go on with a token that is refused for its form. -/
theorem not_prefix_of_refused (sentence : Sentence ks)
    (read : before.foldlM ParseState.step .start = .ok state) (refused : state.step k = .error e)
    (shallow : e.fault ≠ .tooDeep) (short : e.fault ≠ .tooLong) :
    ¬ (before ++ [k]).map Token.kind <+: ks := by
  rintro ⟨rest, rfl⟩
  let ts := (before ++ [k]) ++ rest.map .bare
  have kinds : ts.map Token.kind = (before ++ [k]).map Token.kind ++ rest := by
    rw [List.map_append, Token.map_kind_bare]
  have failed : ts.foldlM ParseState.step .start = .error e := by
    rw [List.foldlM_append, List.foldlM_append, read]
    show (([k].foldlM ParseState.step state) >>= _) = _
    rw [List.foldlM_cons, refused]
    rfl
  rw [← kinds] at sentence
  rcases sentence.fault_of_foldlM failed with deep | long
  · exact shallow deep
  · exact short long

/-- Nor does it end where the reading cannot end. -/
theorem not_ends_of_unfinished (sentence : Sentence ks)
    (read : before.foldlM ParseState.step .start = .ok state)
    (unfinished : k.kind = .endOfInput → state.finished? = none) :
    (before ++ [k]).map Token.kind ≠ ks ++ [.endOfInput] := by
  rw [List.map_append]
  intro ends
  obtain ⟨rfl, last⟩ := List.append_inj' ends rfl
  obtain ⟨tree, finished⟩ := sentence.exists_finished read
  rw [unfinished (List.cons.inj last).1] at finished
  cases finished

end Grammar.Sentence

namespace StrategyTree

/-- A text that is refused, and not for the bounds, is refused at the first token that
no sentence has there: what stands in front of the token begins a sentence, even one
within the bounds, and no sentence goes on with the token. -/
theorem ofText_refuses_first_impossible {text : String} {s : TokenStream} {e : SyntaxError}
    (tokenized : TokenStream.ofText text = .ok s) (refused : ofText text = .error e)
    (shallow : e.fault ≠ .tooDeep) (short : e.fault ≠ .tooLong) :
    ∃ before k after, s.withEnd = before ++ k :: after ∧
      e.position = k.position ∧ e.token = k.describe ∧
      (∃ rest, Grammar.BoundedSentence (before.map Token.kind ++ rest)) ∧
      ∀ ks, Grammar.Sentence ks → ¬ (before ++ [k]).map Token.kind <+: ks ++ [.endOfInput] := by
  rw [ofText_eq_ofTokens tokenized] at refused
  obtain ⟨before, k, after, state, tokens, read, stopped, unfinished⟩ :=
    exists_refused_of_ofTokens (TokenStream.kind_ne_endOfInput tokenized) refused
  obtain rfl := ParseState.eq_refuse_of_step stopped
  have room : state.HasRoom := ParseState.hasRoom_of_fault shallow short
  refine ⟨before, k, after, tokens, rfl, rfl, room.completable.exists_boundedSentence read, ?_⟩
  intro ks sentence begins
  rcases List.prefix_concat_iff.mp begins with ends | inside
  · exact sentence.not_ends_of_unfinished read unfinished ends
  · exact sentence.not_prefix_of_refused read stopped shallow short inside

/-- A closing parenthesis in the place of the right operand. -/
theorem missing_operand_refused_at_parenthesis : ∃ s e before k after,
    TokenStream.ofText "ENTRY: (CLOSE > 1 AND OPEN < ) EXIT: 0 > 1" = .ok s ∧
    ofText "ENTRY: (CLOSE > 1 AND OPEN < ) EXIT: 0 > 1" = .error e ∧
    s.withEnd = before ++ k :: after ∧ e.position = k.position ∧ e.token = k.describe ∧
    e.fault = .expected .operand ∧ e.token = ")" ∧ e.position = 29 ∧
    (∃ rest, Grammar.BoundedSentence (before.map Token.kind ++ rest)) ∧
    ∀ ks, Grammar.Sentence ks → ¬ (before ++ [k]).map Token.kind <+: ks ++ [.endOfInput] := by
  have error : (match ofText "ENTRY: (CLOSE > 1 AND OPEN < ) EXIT: 0 > 1" with
      | .error e => some e
      | .ok _ => none) = some ⟨.expected .operand, ")", 29⟩ := by
    decide +kernel
  cases tokenized : TokenStream.ofText "ENTRY: (CLOSE > 1 AND OPEN < ) EXIT: 0 > 1" with
  | error e =>
    have tokenizes : (TokenStream.ofText
        "ENTRY: (CLOSE > 1 AND OPEN < ) EXIT: 0 > 1").toOption.isSome = true := by
      decide +kernel
    rw [tokenized] at tokenizes
    cases tokenizes
  | ok s =>
    cases refused : ofText "ENTRY: (CLOSE > 1 AND OPEN < ) EXIT: 0 > 1" with
    | ok tree =>
      rw [refused] at error
      cases error
    | error e =>
      rw [refused] at error
      obtain rfl := Option.some.inj error
      obtain ⟨before, k, after, tokens, position, token, viable, impossible⟩ :=
        ofText_refuses_first_impossible tokenized refused (by decide) (by decide)
      exact ⟨s, _, before, k, after, rfl, rfl, tokens, position, token, rfl, rfl, rfl, viable,
        impossible⟩

end StrategyTree

end MarketRules
