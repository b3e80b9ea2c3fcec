import MarketRules.Language.Token
import MarketRules.Number.Numeral
import MarketRules.Text.Blank

/-!
# From characters to tokens

A text is read from left to right.  Blanks separate tokens and mean nothing
else.  At any other character the longest token that begins there is taken, and
its kind is known from its characters.

`Lexeme.scan` reads one token and says how many characters it takes behind the
first.  `TokenStream.lexFrom` goes through the text once.  It carries the number
of characters that still belong to the last token.
-/

namespace MarketRules

/-! ## One token -/

/-- A token without its place. -/
structure Lexeme where
  kind : TokenKind
  /-- Its characters, with words in upper case. -/
  text : List Char
  /-- How many characters it takes behind its first. -/
  tail : Nat

namespace Lexeme

/-- A fault with the text at which it was found. -/
abbrev Fault := SyntaxFault × List Char

/-- Does the character belong to a word behind its first? -/
def isNameChar (c : Char) : Bool := c.isAlphanum || c == '_'

/-- Does the character belong to an operator? -/
def isOperatorChar (c : Char) : Bool := c == '>' || c == '<' || c == '=' || c == '!'

/-- A token that is written with symbols. -/
def symbol (kind : TokenKind) (text : List Char) : Lexeme := ⟨kind, text, text.length - 1⟩

/-- An operator in symbols.  The longer one wins. -/
def scanOperator (cs : List Char) : Except Fault Lexeme :=
  match CompareOp.ofName? (String.ofList (cs.take 2)),
    CompareOp.ofName? (String.ofList (cs.take 1)) with
  | some op, _ => .ok (symbol (.operator op) (cs.take 2))
  | none, some op => .ok (symbol (.operator op) (cs.take 1))
  | none, none => .error (.unknownOperator, cs.takeWhile isOperatorChar)

/-- The length of a sign at the front. -/
def signLength : List Char → Nat
  | c :: _ => if c = '-' ∨ c = '+' then 1 else 0
  | [] => 0

/-- The length of an exponent at the front, zero if there is none with digits. -/
def exponentLength : List Char → Nat
  | [] => 0
  | c :: cs =>
    let ds := (cs.drop (signLength cs)).takeWhile Char.isDigit
    if (c = 'e' ∨ c = 'E') ∧ ds ≠ [] then 1 + signLength cs + ds.length else 0

/-- The length of the number at the front: a sign, digits with at most one point,
and an exponent if there are digits. -/
def numberLength (cs : List Char) : Nat :=
  let body := cs.drop (signLength cs)
  let (whole, fraction, rest) := splitMantissa body
  let mantissa := signLength cs + (body.length - rest.length)
  if whole = [] ∧ fraction = [] then mantissa else mantissa + exponentLength rest

/-- Are there digits in the number at the front? -/
def hasDigits (cs : List Char) : Bool :=
  let (whole, fraction, _) := splitMantissa (cs.drop (signLength cs))
  whole ≠ [] || fraction ≠ []

/-- A number.  It must not be followed by a letter, a digit or an underscore. -/
def scanNumber (cs : List Char) : Except Fault Lexeme :=
  let text := cs.take (numberLength cs)
  let tail := (cs.drop (numberLength cs)).takeWhile isNameChar
  if !hasDigits cs then .error (.invalidNumber, text)
  else if tail ≠ [] then .error (.invalidNumber, text ++ tail)
  else .ok ⟨.number, text, text.length - 1⟩

/-- The kind of a word in upper case. -/
def wordKind (word : String) : TokenKind :=
  match PriceField.ofName? word, CompareOp.ofName? word, LogicOp.ofName? word with
  | some f, _, _ => .field f
  | none, some op, _ => .operator op
  | none, none, some op => .logic op
  | none, none, none => .indicatorName

/-- A word, or a label if a colon follows it. -/
def scanWord (cs : List Char) : Lexeme :=
  let raw := cs.takeWhile isNameChar
  let word := asciiUpper raw
  let colon := (cs.drop raw.length).head? == some ':'
  if colon && word == "ENTRY".toList then ⟨.entryLabel, word ++ [':'], raw.length⟩
  else if colon && word == "EXIT".toList then ⟨.exitLabel, word ++ [':'], raw.length⟩
  else ⟨wordKind (String.ofList word), word, raw.length - 1⟩

/-- Does a number begin with this character in front of `rest`? -/
def startsNumber (c : Char) (rest : List Char) : Bool :=
  let digitOrPoint (d : Char) : Bool := d.isDigit || d == '.'
  digitOrPoint c || ((c == '-' || c == '+') && rest.head?.any digitOrPoint)

/-- The token that begins with `c` in front of `rest`, where `c` is no blank. -/
def scan (c : Char) (rest : List Char) : Except Fault Lexeme :=
  if c = '(' then .ok (symbol .leftParen ['('])
  else if c = ')' then .ok (symbol .rightParen [')'])
  else if c = ',' then .ok (symbol .comma [','])
  else if isOperatorChar c then scanOperator (c :: rest)
  else if startsNumber c rest then scanNumber (c :: rest)
  else if c.isAlpha || c == '_' then .ok (scanWord (c :: rest))
  else .error (.unexpectedCharacter, [c])

end Lexeme

/-! ## All tokens -/

namespace TokenStream

/-- Read the tokens of a text that begins at `position`.  Its first `skip`
characters still belong to the last token. -/
def lexFrom (position skip : Nat) : List Char → Except SyntaxError TokenStream
  | [] => .ok ⟨[], position⟩
  | c :: rest =>
    match skip with
    | skip + 1 => lexFrom (position + c.utf8Size) skip rest
    | 0 =>
      if isBlank c then lexFrom (position + c.utf8Size) 0 rest
      else
        match Lexeme.scan c rest with
        | .error (fault, text) => .error ⟨fault, String.ofList text, position⟩
        | .ok lexeme =>
          (lexFrom (position + c.utf8Size) lexeme.tail rest).map fun s =>
            { s with tokens := ⟨lexeme.kind, String.ofList lexeme.text, position⟩ :: s.tokens }
termination_by structural cs => cs

/-- Read the tokens of a text. -/
def ofText (s : String) : Except SyntaxError TokenStream := lexFrom 0 0 s.toList

end TokenStream

end MarketRules
