import MarketRules.Text.CaseTable

/-!
# Letter case

Lower and upper case of a text by the full mappings of Unicode.  One character
can become several: `ß` becomes `SS`, and `İ` becomes `i` with a dot above.  A
capital sigma becomes `ς` at the end of a word and `σ` elsewhere.
-/

namespace MarketRules

/-! ## Single characters -/

/-- Is the code point in the run? -/
def CaseRun.covers (r : CaseRun) (n : Nat) : Bool :=
  r.first ≤ n && n ≤ r.last && (n - r.first) % r.stride == 0

/-- The character that the runs lead to, or the same one. -/
def moveCase (runs : List CaseRun) (c : Char) : Char :=
  match runs.find? (·.covers c.toNat) with
  | some r => Char.ofNat (c.toNat + r.shift).toNat
  | none => c

/-- The lower case of a character that stands alone. -/
def lowerChar (c : Char) : List Char :=
  if c.toNat < 128 then [c.toLower]
  else if c = 'İ' then ['i', '\u0307']
  else [moveCase lowerRuns c]

/-- The upper case of a character. -/
def upperChar (c : Char) : List Char :=
  if c.toNat < 128 then [c.toUpper]
  else
    match upperExpansions.lookup c.toNat with
    | some ns => ns.map Char.ofNat
    | none => [moveCase upperRuns c]

/-! ## The final sigma -/

/-- Does the character have a case? -/
def isCased (c : Char) : Bool :=
  if c.toNat < 128 then c.isAlpha else casedRanges.contains c

/-- Is the next character a cased one, after those that are skipped? -/
def casedNext (cs : List Char) : Bool :=
  ((cs.dropWhile caseIgnorableRanges.contains).head?.map isCased).getD false

/-- Does a sigma end a word?  `before` holds the characters in front of it,
nearest first. -/
def sigmaIsFinal (before after : List Char) : Bool := casedNext before && !casedNext after

/-! ## Texts -/

/-- The lower case of a text that stands behind the characters of `before`,
nearest first. -/
def lowerAfter (before : List Char) : List Char → List Char
  | [] => []
  | c :: cs =>
    (if c = 'Σ' then [if sigmaIsFinal before cs then 'ς' else 'σ'] else lowerChar c)
      ++ lowerAfter (c :: before) cs
termination_by structural cs => cs

/-- The lower case of a text. -/
def lower (cs : List Char) : List Char := lowerAfter [] cs

/-- The upper case of a text. -/
def upper (cs : List Char) : List Char := cs.flatMap upperChar

/-- Upper case of the ASCII letters alone. -/
def asciiUpper (cs : List Char) : List Char := cs.map Char.toUpper

/-- Are two texts equal up to the case of ASCII letters? -/
def sameIgnoringAsciiCase (s t : String) : Bool :=
  s.toList.map Char.toLower == t.toList.map Char.toLower

example : String.ofList (lower "ΣΑΣ İ".toList) = "σας i\u0307" := by decide +kernel
example : String.ofList (upper "ßaﬁ".toList) = "SSAFI" := by decide +kernel

end MarketRules
