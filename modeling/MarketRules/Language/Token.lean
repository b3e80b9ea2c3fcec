import MarketRules.Rule.Basic

/-!
# Tokens

The rule language is written with labels, words, numbers, operators and
parentheses.  A token is one of these with its place in the text.  Places are
counted in bytes of the UTF-8 encoding.
-/

namespace MarketRules

/-! ## Kinds -/

/-- What a token is. -/
inductive TokenKind where
  /-- The label in front of the entry rule. -/
  | entryLabel
  /-- The label in front of the exit rule. -/
  | exitLabel
  /-- The name of a field. -/
  | field (f : PriceField)
  /-- Any other word. -/
  | indicatorName
  | number
  /-- A comparison, as a symbol or as a word. -/
  | operator (op : CompareOp)
  /-- A connective. -/
  | logic (op : LogicOp)
  | leftParen
  | rightParen
  | comma
  /-- The end of the text. -/
  | endOfInput
deriving DecidableEq

/-- How a kind reads in a message. -/
def TokenKind.name : TokenKind → String
  | .entryLabel => "'ENTRY:'"
  | .exitLabel => "'EXIT:'"
  | .field _ => "field"
  | .indicatorName => "indicator name"
  | .number => "number"
  | .operator _ => "comparison operator"
  | .logic _ => "AND/OR"
  | .leftParen => "'('"
  | .rightParen => "')'"
  | .comma => "','"
  | .endOfInput => "end of input"

/-! ## Tokens -/

/-- A token of the rule language. -/
structure Token where
  kind : TokenKind
  /-- Its characters.  Words are in upper case. -/
  text : String
  /-- The place of its first byte. -/
  position : Nat
deriving DecidableEq

/-- How a token reads in a message. -/
def Token.describe (t : Token) : String :=
  match t.kind with
  | .endOfInput => "end of input"
  | _ => t.text

/-- The end of a text of `length` bytes. -/
def Token.endAt (length : Nat) : Token := ⟨.endOfInput, "", length⟩

/-- The tokens of a text, and its length. -/
structure TokenStream where
  /-- The tokens, without the end of the text. -/
  tokens : List Token
  /-- The length of the text in bytes. -/
  length : Nat
deriving DecidableEq

/-- The tokens of a text with its end. -/
def TokenStream.withEnd (s : TokenStream) : List Token := s.tokens ++ [.endAt s.length]

/-! ## Errors -/

/-- What can be needed at a place of the text. -/
inductive Expectation where
  /-- A token of this kind.  The payload of the kind means nothing here. -/
  | kind (kind : TokenKind)
  /-- The first token of an operand. -/
  | operand
deriving DecidableEq

/-- How an expectation reads in a message. -/
def Expectation.name : Expectation → String
  | .kind k => k.name
  | .operand => "field, indicator or number"

/-- Why a text is not a strategy. -/
inductive SyntaxFault where
  /-- Operator characters that are no operator. -/
  | unknownOperator
  /-- A number that goes on in a way numbers do not. -/
  | invalidNumber
  /-- A character that begins no token. -/
  | unexpectedCharacter
  /-- Something else is needed. -/
  | expected (what : Expectation)
  /-- The text goes on behind the exit rule. -/
  | trailing
  /-- Too many parentheses are open. -/
  | tooDeep
  /-- The rule has too many comparisons. -/
  | tooLong
deriving DecidableEq

/-- A fault with the text at which it was found. -/
structure SyntaxError where
  fault : SyntaxFault
  /-- The text that is wrong. -/
  token : String
  /-- The place of its first byte. -/
  position : Nat
deriving DecidableEq

/-- How many parentheses can be open at once. -/
def maxNesting : Nat := 32

namespace SyntaxError

def message (e : SyntaxError) : String :=
  match e.fault with
  | .unknownOperator => s!"unknown operator '{e.token}'"
  | .invalidNumber => s!"invalid number '{e.token}'"
  | .unexpectedCharacter => s!"unexpected character '{e.token}'"
  | .expected what => s!"expected {what.name}, found '{e.token}'"
  | .trailing => s!"unexpected input after exit rule: '{e.token}'"
  | .tooDeep => s!"parentheses nested deeper than {decimal maxNesting}"
  | .tooLong => s!"rule has more than {decimal Rule.maxComparisons} comparisons"

/-- A message with the place it is about. -/
def located (message token : String) (position : Nat) : String :=
  s!"syntax error at position {decimal position} near '{token}': {message}"

/-- An error in one line. -/
def text (e : SyntaxError) : String := located e.message e.token e.position

/-- A line of the input, a line with a caret behind `position` blanks, and a line
of text. -/
def underCaret (input : String) (position : Nat) (line : String) : String :=
  input ++ "\n" ++ String.ofList (List.replicate position ' ') ++ "^\n" ++ line

/-- An error under the input that has it. -/
def inContext (e : SyntaxError) (input : String) : String := underCaret input e.position e.text

end SyntaxError

end MarketRules
