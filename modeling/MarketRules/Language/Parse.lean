import MarketRules.Language.Lexeme
import MarketRules.Language.Tree

/-!
# From tokens to trees

A strategy is read one token at a time.  The state of the reading is the part of
the tree that is finished together with the open parentheses, and it decides
which tokens can come next.  Every state but the last can still be completed, so
the first token that is refused is the first one that no strategy has there.

Two bounds hold.  At most `maxNesting` parentheses are open at once, and each of
the two rules has at most `Rule.maxComparisons` comparisons.
-/

namespace MarketRules

/-! ## States -/

/-- An indicator call of which some tokens have been read. -/
inductive PartialCall where
  | name (name : Token)
  | paren (name leftParen : Token)
  | field (name leftParen field : Token) (f : PriceField)
  | comma (name leftParen field : Token) (f : PriceField) (comma : Token)
  | period (name leftParen field : Token) (f : PriceField) (comma period : Token)

/-- The left half of a comparison: an operand and an operator. -/
structure LeftHalf where
  operand : OperandTree
  token : Token
  op : CompareOp

/-- The part of a chain that is finished: conditions that end with a connective. -/
structure ChainStart where
  rule : RuleTree
  /-- The token of the connective behind them. -/
  token : Token
  op : LogicOp

/-- Continue a chain, or begin one, with a condition. -/
def ChainStart.extend? : Option ChainStart → ConditionTree → RuleTree
  | none, c => .one c
  | some s, c => .chain s.rule s.token s.op c

/-- An open parenthesis and the chain in front of it. -/
structure OpenGroup where
  /-- The chain in front of the parenthesis. -/
  before : Option ChainStart
  leftParen : Token

/-- The place within a condition. -/
inductive Place where
  /-- A condition begins. -/
  | start
  /-- An indicator call has begun.  It is the right operand if there is a left
  half. -/
  | call (left : Option LeftHalf) (call : PartialCall)
  /-- The left operand is finished. -/
  | operator (left : OperandTree)
  /-- The right operand begins. -/
  | right (left : LeftHalf)
  /-- The condition is finished. -/
  | done (condition : ConditionTree)

/-- A rule of which some tokens have been read. -/
structure RuleState where
  /-- The number of comparisons that have begun. -/
  comparisons : Nat
  /-- The open parentheses, the innermost first. -/
  groups : List OpenGroup
  /-- The chain in front of the condition under way. -/
  before : Option ChainStart
  /-- The place within this condition. -/
  place : Place

/-- The rule before its first token. -/
def RuleState.initial : RuleState := ⟨0, [], none, .start⟩

/-- A strategy of which some tokens have been read. -/
inductive ParseState where
  | start
  | entry (label : Token) (rule : RuleState)
  | exit (entryLabel : Token) (entry : RuleTree) (exitLabel : Token) (rule : RuleState)

/-! ## Steps within a rule -/

/-- The place behind a finished operand. -/
def Place.afterOperand (left : Option LeftHalf) (x : OperandTree) : Place :=
  match left with
  | none => .operator x
  | some l => .done (.comparison ⟨l.operand, l.token, l.op, x⟩)

/-- The place behind the first token of an operand. -/
def Place.beginOperand? (left : Option LeftHalf) (t : Token) : Option Place :=
  match t.kind with
  | .field f => some (.afterOperand left (.field t f))
  | .number => some (.afterOperand left (.number t))
  | .indicatorName => some (.call left (.name t))
  | _ => none

/-- The place behind the next token of an indicator call. -/
def Place.continueCall? (left : Option LeftHalf) (call : PartialCall) (t : Token) :
    Option Place :=
  match call, t.kind with
  | .name n, .leftParen => some (.call left (.paren n t))
  | .paren n lp, .field f => some (.call left (.field n lp t f))
  | .field n lp ft f, .comma => some (.call left (.comma n lp ft f t))
  | .comma n lp ft f c, .number => some (.call left (.period n lp ft f c t))
  | .period n lp ft f c p, .rightParen => some (.afterOperand left (.call n lp ft f c p t))
  | _, _ => none

/-- What an indicator call needs next. -/
def PartialCall.needs : PartialCall → TokenKind
  | .name .. => .leftParen
  | .paren .. => .field .closing
  | .field .. => .comma
  | .comma .. => .number
  | .period .. => .rightParen

namespace RuleState

/-- The rule, if it can end here. -/
def finished? (s : RuleState) : Option RuleTree :=
  match s.groups, s.place with
  | [], .done c => some (ChainStart.extend? s.before c)
  | _, _ => none

/-- The state at another place of the same condition. -/
def moveTo (s : RuleState) (place : Place) : RuleState := { s with place }

/-- Begin a condition: open a parenthesis, or begin a comparison. -/
def beginCondition? (s : RuleState) (t : Token) : Option RuleState :=
  match t.kind with
  | .leftParen =>
    if s.groups.length < maxNesting then
      some ⟨s.comparisons, ⟨s.before, t⟩ :: s.groups, none, .start⟩
    else none
  | _ =>
    if s.comparisons < Rule.maxComparisons then
      (Place.beginOperand? none t).map fun place =>
        { s with comparisons := s.comparisons + 1, place }
    else none

/-- Go on behind a finished condition: a connective, or the parenthesis that
closes the innermost group. -/
def continueChain? (s : RuleState) (c : ConditionTree) (t : Token) : Option RuleState :=
  match t.kind, s.groups with
  | .logic op, _ =>
    some { s with before := some ⟨ChainStart.extend? s.before c, t, op⟩, place := .start }
  | .rightParen, g :: gs =>
    some ⟨s.comparisons, gs, g.before, .done (.group g.leftParen (ChainStart.extend? s.before c) t)⟩
  | _, _ => none

/-- The state behind the next token, if the token can stand here. -/
def next? (s : RuleState) (t : Token) : Option RuleState :=
  match s.place with
  | .start => s.beginCondition? t
  | .call left call => (Place.continueCall? left call t).map s.moveTo
  | .operator x =>
    match t.kind with
    | .operator op => some (s.moveTo (.right ⟨x, t, op⟩))
    | _ => none
  | .right left => (Place.beginOperand? (some left) t).map s.moveTo
  | .done c => s.continueChain? c t

/-- What is wrong with a token that cannot stand here.  `atEnd` is the fault of a
token behind a rule that could end. -/
def fault (s : RuleState) (atEnd : SyntaxFault) (t : Token) : SyntaxFault :=
  match s.place with
  | .start =>
    if t.kind = .leftParen then .tooDeep
    else if s.comparisons < Rule.maxComparisons then .expected .operand
    else .tooLong
  | .call _ call => .expected (.kind call.needs)
  | .operator _ => .expected (.kind (.operator .equal))
  | .right _ => .expected .operand
  | .done _ => if s.groups = [] then atEnd else .expected (.kind .rightParen)

end RuleState

/-! ## Steps of a strategy -/

namespace ParseState

/-- The state behind the next token, if the token can stand here. -/
def next? : ParseState → Token → Option ParseState
  | .start, t => if t.kind = .entryLabel then some (.entry t .initial) else none
  | .entry label rule, t =>
    match rule.finished?, t.kind with
    | some tree, .exitLabel => some (.exit label tree t .initial)
    | _, _ => (rule.next? t).map (.entry label)
  | .exit entryLabel entryTree exitLabel rule, t =>
    (rule.next? t).map (.exit entryLabel entryTree exitLabel)

/-- What is wrong with a token that cannot stand here. -/
def fault : ParseState → Token → SyntaxFault
  | .start, _ => .expected (.kind .entryLabel)
  | .entry _ rule, t => rule.fault (.expected (.kind .exitLabel)) t
  | .exit _ _ _ rule, t => rule.fault .trailing t

/-- The error at a token that cannot stand here. -/
def refuse (s : ParseState) (t : Token) : SyntaxError := ⟨s.fault t, t.describe, t.position⟩

/-- Read one token. -/
def step (s : ParseState) (t : Token) : Except SyntaxError ParseState :=
  match s.next? t with
  | some s' => .ok s'
  | none => .error (s.refuse t)

/-- The strategy, if it can end here. -/
def finished? : ParseState → Option StrategyTree
  | .exit entryLabel entryTree exitLabel rule =>
    rule.finished?.map fun exitTree => ⟨entryLabel, entryTree, exitLabel, exitTree⟩
  | _ => none

/-- End the reading at the end of the text. -/
def finish (s : ParseState) (stop : Token) : Except SyntaxError StrategyTree :=
  match s.finished? with
  | some tree => .ok tree
  | none => .error (s.refuse stop)

end ParseState

/-! ## Parsing -/

/-- The tree of a token stream. -/
def StrategyTree.ofTokens (s : TokenStream) : Except SyntaxError StrategyTree := do
  let state ← s.tokens.foldlM ParseState.step .start
  state.finish (.endAt s.length)

/-- The tree of a text. -/
def StrategyTree.ofText (text : String) : Except SyntaxError StrategyTree := do
  StrategyTree.ofTokens (← TokenStream.ofText text)

end MarketRules
