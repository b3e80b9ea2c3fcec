import MarketRules.Text.Blank
import MarketRules.Text.WordChar

/-!
# Patterns

A pattern describes a piece of text.  `Pattern.ends` lists all places where the
piece can end, the preferred one first: a repetition prefers to be long, and of two
alternatives the first is preferred.

A match in a text begins as far to the left as one can, and ends at the preferred
place.  A match always has at least one character.  `Pattern.split?` cuts a text
at its first match.  `Pattern.replaceAll` replaces the matches from left to right,
each search going on behind the last match.
-/

namespace MarketRules

/-! ## Patterns -/

/-- A class of characters. -/
inductive CharClass where
  /-- The blanks. -/
  | blank
  /-- The decimal digits of every script. -/
  | digit
deriving DecidableEq

/-- Does the class have the character? -/
def CharClass.contains : CharClass → Char → Bool
  | .blank, c => isBlank c
  | .digit, c => isDecimalDigit c

/-- A description of a piece of text. -/
inductive Pattern where
  /-- These characters. -/
  | literal (cs : List Char)
  /-- One character of a class. -/
  | one (cls : CharClass)
  /-- As many characters of a class as possible. -/
  | most (cls : CharClass)
  /-- A place where a word begins or ends. -/
  | edge
  /-- The first piece followed by the second. -/
  | seq (p q : Pattern)
  /-- The first piece or else the second. -/
  | either (p q : Pattern)
  /-- The piece as often as possible. -/
  | many (p : Pattern)
  /-- The piece, to be remembered. -/
  | capture (p : Pattern)
deriving DecidableEq

namespace Pattern

instance : HAppend Pattern Pattern Pattern := ⟨seq⟩
instance : OrElse Pattern := ⟨fun p q => either p (q ())⟩

/-- A text. -/
def text (s : String) : Pattern := literal s.toList

/-- The piece or nothing, the piece being preferred. -/
def optional (p : Pattern) : Pattern := either p (literal [])

/-- At least one character of a class, and as many as possible. -/
def oneOrMore (cls : CharClass) : Pattern := seq (one cls) (most cls)

/-- One of several pieces, an earlier one being preferred.  The last resort is
`p`. -/
def oneOf (p : Pattern) : List Pattern → Pattern
  | [] => p
  | q :: qs => either p (oneOf q qs)

/-- A piece that begins and ends at the edge of a word. -/
def word (p : Pattern) : Pattern := seq edge (seq p edge)

/-! ## Matching -/

/-- A piece of text that was remembered: from one suffix of the text to
another. -/
structure Span where
  /-- The text from the first character of the piece on. -/
  start : List Char
  /-- The text behind the piece. -/
  stop : List Char
deriving DecidableEq

/-- The characters of the piece. -/
def Span.chars (s : Span) : List Char := s.start.take (s.start.length - s.stop.length)

/-- A place in a text. -/
structure Cursor where
  /-- The character in front of the place. -/
  before : Option Char
  /-- The characters behind it. -/
  rest : List Char
  /-- The pieces remembered on the way, the first one first. -/
  spans : List Span
deriving DecidableEq

/-- Does a word begin or end at the cursor? -/
def Cursor.atEdge (c : Cursor) : Bool := c.before.any isWordChar != c.rest.head?.any isWordChar

/-- The cursor behind a text, if the text stands there. -/
def Cursor.skip? (c : Cursor) : List Char → Option Cursor
  | [] => some c
  | x :: xs =>
    match c.rest with
    | [] => none
    | y :: ys => if x = y then Cursor.skip? { c with before := y, rest := ys } xs else none
termination_by structural cs => cs

/-- The places in and behind a run of characters of a class, in front of those of
`found`, the last one first. -/
def longRuns (cls : CharClass) (spans : List Span) (found : List Cursor) (before : Option Char) :
    List Char → List Cursor
  | [] => ⟨before, [], spans⟩ :: found
  | x :: xs =>
    if cls.contains x then longRuns cls spans (⟨before, x :: xs, spans⟩ :: found) x xs
    else ⟨before, x :: xs, spans⟩ :: found
termination_by structural cs => cs

/-- The places that `step` reaches in at most `limit` rounds, more rounds being
preferred. -/
def rounds (step : Cursor → List Cursor) : Nat → Cursor → List Cursor
  | 0, c => [c]
  | limit + 1, c => (step c).flatMap (rounds step limit) ++ [c]

/-- The places where a piece that begins at the cursor can end, the preferred one
first.  A repeated piece has to take a character each time, so the length of the
text bounds the rounds. -/
def ends : Pattern → Cursor → List Cursor
  | literal cs, c => (c.skip? cs).toList
  | one cls, c =>
    match c.rest with
    | [] => []
    | x :: xs => if cls.contains x then [{ c with before := x, rest := xs }] else []
  | most cls, c => longRuns cls c.spans [] c.before c.rest
  | edge, c => if c.atEdge then [c] else []
  | seq p q, c => (p.ends c).flatMap q.ends
  | either p q, c => p.ends c ++ q.ends c
  | many p, c => rounds p.ends c.rest.length c
  | capture p, c => (p.ends c).map fun e => { e with spans := e.spans ++ [⟨c.rest, e.rest⟩] }

/-- The preferred match that begins at a place and has at least one character. -/
def matchAt? (p : Pattern) (before : Option Char) (rest : List Char) : Option Cursor :=
  (p.ends ⟨before, rest, []⟩).find? fun e => e.rest.length < rest.length

/-! ## Searching -/

/-- The text in front of the first match and the text behind it.  The whole text
stands behind the character `before`. -/
def split? (p : Pattern) (before : Option Char) :
    List Char → Option (List Char × List Char)
  | [] => none
  | x :: xs =>
    match p.matchAt? before (x :: xs) with
    | some e => some ([], e.rest)
    | none => (split? p x xs).map fun (front, back) => (x :: front, back)
termination_by structural cs => cs

/-- Replace the matches in a text that stands behind the character `before`.  Its
first `skip` characters belong to a match that was replaced already. -/
def replaceFrom (p : Pattern) (f : List (List Char) → List Char) (before : Option Char)
    (skip : Nat) : List Char → List Char
  | [] => []
  | x :: xs =>
    match skip with
    | skip + 1 => replaceFrom p f x skip xs
    | 0 =>
      match p.matchAt? before (x :: xs) with
      | some e => f (e.spans.map Span.chars) ++ replaceFrom p f x (xs.length - e.rest.length) xs
      | none => x :: replaceFrom p f x 0 xs
termination_by structural cs => cs

/-- Replace every match by what `f` makes of the pieces it remembered. -/
def replaceAll (p : Pattern) (f : List (List Char) → List Char) (cs : List Char) : List Char :=
  p.replaceFrom f none 0 cs

end Pattern

end MarketRules
