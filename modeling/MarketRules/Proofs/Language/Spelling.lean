import MarketRules.Language.Lexeme
import MarketRules.Proofs.Number.PlainNumeral
import MarketRules.Proofs.Text.CharClass
import MarketRules.Rule.Text

/-!
# How canonical texts are cut into tokens

A canonical text is made of words, plain numerals, symbols and single blanks.
`Reads` says what happens to a piece of text in front of any rest, so the pieces
of a text are read one after another.  A word or a numeral ends where a
delimiter follows.
-/

namespace MarketRules

/-! ## Reading a piece of text -/

/-- From one place of a text the tokens `ts` are read, and then the reading goes on
at another place with `rest`. -/
def TokenStream.Reads (position : Nat) (cs : List Char) (ts : List Token) (stop : Nat)
    (rest : List Char) : Prop :=
  lexFrom position 0 cs = (lexFrom stop 0 rest).map fun s => { s with tokens := ts ++ s.tokens }

/-- A text ends here, or goes on with a character that stands in no word and in no
numeral. -/
def Delimited (rest : List Char) : Prop :=
  ∀ c ∈ rest.head?, c = ' ' ∨ c = '(' ∨ c = ')' ∨ c = ','

theorem delimited_blank (rest : List Char) : Delimited (' ' :: rest) := by
  rintro c ⟨⟩
  exact .inl rfl

theorem delimited_leftParen (rest : List Char) : Delimited ('(' :: rest) := by
  rintro c ⟨⟩
  exact .inr (.inl rfl)

theorem delimited_rightParen (rest : List Char) : Delimited (')' :: rest) := by
  rintro c ⟨⟩
  exact .inr (.inr (.inl rfl))

theorem delimited_comma (rest : List Char) : Delimited (',' :: rest) := by
  rintro c ⟨⟩
  exact .inr (.inr (.inr rfl))

namespace TokenStream

variable {position middle stop : Nat} {cs cs' rest : List Char} {ts ts' : List Token}

/-- What is read up to a place goes on from there. -/
theorem Reads.trans (first : Reads position cs ts middle cs')
    (second : Reads middle cs' ts' stop rest) : Reads position cs (ts ++ ts') stop rest := by
  rw [Reads] at first second ⊢
  rw [first, second]
  cases lexFrom stop 0 rest with
  | error e => rfl
  | ok s => simp [Except.map]

theorem Reads.blank (position : Nat) (rest : List Char) :
    Reads position (' ' :: rest) [] (position + 1) rest := by
  have passed : lexFrom position 0 (' ' :: rest) = lexFrom (position + 1) 0 rest := rfl
  rw [Reads, passed]
  cases lexFrom (position + 1) 0 rest with
  | error e => rfl
  | ok s => rfl

/-- The rest of a token is passed over. -/
theorem exists_lexFrom_length (tail rest : List Char) : ∀ position : Nat,
    ∃ stop, lexFrom position tail.length (tail ++ rest) = lexFrom stop 0 rest := by
  induction tail with
  | nil => exact fun position => ⟨position, rfl⟩
  | cons c cs ih => exact fun position => ih (position + c.utf8Size)

end TokenStream

/-- The text is cut off as one token of a kind in front of `rest`. -/
def Lexeme.Scans (text : List Char) (kind : TokenKind) (rest : List Char) : Prop :=
  ∃ c cs, text = c :: cs ∧ isBlank c = false ∧
    scan c (cs ++ rest) = .ok ⟨kind, text, cs.length⟩

/-- A text that is scanned as one token is read as this token at any position. -/
theorem Lexeme.Scans.reads {text rest : List Char} {kind : TokenKind}
    (scans : Scans text kind rest) (position : Nat) :
    ∃ (t : Token) (stop : Nat), t.kind = kind ∧ t.text = String.ofList text ∧
      TokenStream.Reads position (text ++ rest) [t] stop rest := by
  obtain ⟨c, cs, rfl, notBlank, scanned⟩ := scans
  obtain ⟨stop, passed⟩ := TokenStream.exists_lexFrom_length cs rest (position + c.utf8Size)
  refine ⟨⟨kind, String.ofList (c :: cs), position⟩, stop, rfl, rfl, ?_⟩
  rw [TokenStream.Reads, List.cons_append, TokenStream.lexFrom, notBlank, scanned]
  dsimp only
  rw [passed]
  rfl

/-! ## Symbols -/

namespace Lexeme

theorem scans_leftParen (rest : List Char) : Scans ['('] .leftParen rest :=
  ⟨'(', [], rfl, by decide, rfl⟩

theorem scans_rightParen (rest : List Char) : Scans [')'] .rightParen rest :=
  ⟨')', [], rfl, by decide, rfl⟩

theorem scans_comma (rest : List Char) : Scans [','] .comma rest :=
  ⟨',', [], rfl, by decide, rfl⟩

theorem scan_of_isOperatorChar {c : Char} (operator : isOperatorChar c = true) (rest : List Char) :
    scan c rest = scanOperator (c :: rest) := by
  rw [scan, if_neg (ne_of_class operator rfl), if_neg (ne_of_class operator rfl),
    if_neg (ne_of_class operator rfl), if_pos operator]

/-- Two characters that name an operator are one token. -/
theorem scan_two {c d : Char} {rest : List Char} {op : CompareOp}
    (operator : isOperatorChar c = true)
    (two : CompareOp.ofName? (String.ofList [c, d]) = some op) :
    scan c (d :: rest) = .ok ⟨.operator op, [c, d], 1⟩ := by
  rw [scan_of_isOperatorChar operator, scanOperator,
    show (c :: d :: rest).take 2 = [c, d] from rfl, two]
  rfl

/-- One character that names an operator is a token, if no two do. -/
theorem scan_one {c d : Char} {rest : List Char} {op : CompareOp}
    (operator : isOperatorChar c = true)
    (two : CompareOp.ofName? (String.ofList [c, d]) = none)
    (one : CompareOp.ofName? (String.ofList [c]) = some op) :
    scan c (d :: rest) = .ok ⟨.operator op, [c], 0⟩ := by
  rw [scan_of_isOperatorChar operator, scanOperator,
    show (c :: d :: rest).take 2 = [c, d] from rfl, two,
    show (c :: d :: rest).take 1 = [c] from rfl, one]
  rfl

/-- A blank keeps the operator apart from what follows. -/
theorem scans_operator (op : CompareOp) (rest : List Char) :
    Scans op.symbol.toList (.operator op) (' ' :: rest) := by
  cases op with
  | greater => exact ⟨'>', [], rfl, rfl, scan_one rfl (by decide) (by decide)⟩
  | less => exact ⟨'<', [], rfl, rfl, scan_one rfl (by decide) (by decide)⟩
  | atLeast => exact ⟨'>', ['='], rfl, rfl, scan_two rfl (by decide)⟩
  | atMost => exact ⟨'<', ['='], rfl, rfl, scan_two rfl (by decide)⟩
  | equal => exact ⟨'=', ['='], rfl, rfl, scan_two rfl (by decide)⟩
  | notEqual => exact ⟨'!', ['='], rfl, rfl, scan_two rfl (by decide)⟩

theorem scans_entryLabel (rest : List Char) :
    Scans ['E', 'N', 'T', 'R', 'Y', ':'] .entryLabel rest :=
  ⟨'E', ['N', 'T', 'R', 'Y', ':'], rfl, rfl, rfl⟩

theorem scans_exitLabel (rest : List Char) : Scans ['E', 'X', 'I', 'T', ':'] .exitLabel rest :=
  ⟨'E', ['X', 'I', 'T', ':'], rfl, rfl, rfl⟩

/-! ## Words -/

theorem isOperatorChar_eq_false {p : Char → Bool} {c : Char} (inside : p c = true)
    (outside : p '>' = false ∧ p '<' = false ∧ p '=' = false ∧ p '!' = false) :
    isOperatorChar c = false := by
  obtain ⟨greater, less, equal, mark⟩ := outside
  simp only [isOperatorChar, Bool.or_eq_false_iff, beq_eq_false_iff_ne]
  exact ⟨⟨⟨ne_of_class inside greater, ne_of_class inside less⟩, ne_of_class inside equal⟩,
    ne_of_class inside mark⟩

/-- Does the character begin a word? -/
def beginsWord (c : Char) : Bool := c.isAlpha || c == '_'

/-- What begins a word begins no number. -/
theorem startsNumber_of_beginsWord {c : Char} (begins : beginsWord c = true) (rest : List Char) :
    startsNumber c rest = false := by
  have noDigit : c.isDigit = false := by
    rw [← Bool.not_eq_true]
    intro digit
    have within : ∀ d ∈ "0123456789".toList, beginsWord d = false := by decide
    exact ne_of_class begins (within c (mem_digits_of_isDigit digit)) rfl
  simp [startsNumber, noDigit, ne_of_class begins (d := '.') rfl,
    ne_of_class begins (d := '-') rfl, ne_of_class begins (d := '+') rfl]

/-- What begins a word is read as a word. -/
theorem scan_of_beginsWord {c : Char} (begins : beginsWord c = true) (rest : List Char) :
    scan c rest = .ok (scanWord (c :: rest)) := by
  have noOperator := isOperatorChar_eq_false begins (by decide)
  have word : (c.isAlpha || c == '_') = true := begins
  rw [scan, if_neg (ne_of_class begins rfl), if_neg (ne_of_class begins rfl),
    if_neg (ne_of_class begins rfl), noOperator, startsNumber_of_beginsWord begins rest, word]
  rfl

end Lexeme

/-- What holds of the four delimiters holds of what follows. -/
theorem Delimited.forall_head {rest : List Char} (delimited : Delimited rest) {p : Char → Prop}
    (all : p ' ' ∧ p '(' ∧ p ')' ∧ p ',') : ∀ c ∈ rest.head?, p c := by
  intro c member
  obtain ⟨blank, leftParen, rightParen, comma⟩ := all
  rcases delimited c member with rfl | rfl | rfl | rfl
  · exact blank
  · exact leftParen
  · exact rightParen
  · exact comma

theorem Delimited.takeWhile_isNameChar {rest : List Char} (delimited : Delimited rest) :
    rest.takeWhile Lexeme.isNameChar = [] := by
  have ends := delimited.forall_head (p := (Lexeme.isNameChar · = false)) (by decide)
  cases rest with
  | nil => rfl
  | cons c cs => rw [List.takeWhile_cons, ends c rfl]; rfl

namespace Lexeme

/-- A word in upper case is cut off before a delimiter. -/
theorem scans_word {c : Char} {cs rest : List Char}
    (upper : ∀ d ∈ c :: cs, d.isUpper = true) (delimited : Delimited rest) :
    Scans (c :: cs) (wordKind (String.ofList (c :: cs))) rest := by
  have first := upper c List.mem_cons_self
  have bounds := toNat_of_isUpper first
  refine ⟨c, cs, rfl, isBlank_eq_false_of_between (by omega) (by omega), ?_⟩
  have raw : (c :: (cs ++ rest)).takeWhile isNameChar = c :: cs := by
    have names : ∀ d ∈ c :: cs, isNameChar d = true := by
      intro d member
      simp [isNameChar, Char.isAlphanum, isAlpha_of_isUpper (upper d member)]
    rw [← List.cons_append, List.takeWhile_append_of_pos names, delimited.takeWhile_isNameChar,
      List.append_nil]
  have unchanged : asciiUpper (c :: cs) = c :: cs :=
    (List.map_congr_left fun d member => toUpper_of_isUpper (upper d member)).trans (List.map_id _)
  have behind : (c :: cs ++ rest).drop (c :: cs).length = rest := List.drop_left
  rw [List.cons_append] at behind
  have noColon : (rest.head? == some ':') = false := by
    have ends := delimited.forall_head (p := (· ≠ ':')) (by decide)
    cases rest with
    | nil => rfl
    | cons d ds => simpa using ends d rfl
  have begins : beginsWord c = true := by simp [beginsWord, isAlpha_of_isUpper first]
  rw [scan_of_beginsWord begins, scanWord, raw, unchanged, behind, noColon]
  rfl

/-- A name in capitals is read as one token, of the kind that the name has. -/
theorem scans_name (word : String) {rest : List Char} (nonempty : word.toList ≠ [])
    (upper : word.toList.all Char.isUpper = true) (delimited : Delimited rest) :
    Scans word.toList (wordKind word) rest := by
  obtain ⟨c, cs, begins⟩ := List.exists_cons_of_ne_nil nonempty
  rw [begins] at upper
  have scans := scans_word (List.all_eq_true.mp upper) delimited
  rwa [← begins, String.ofList_toList] at scans

/-! ## Numbers -/

theorem scan_of_isDigit {c : Char} (digit : c.isDigit = true) (rest : List Char) :
    scan c rest = scanNumber (c :: rest) := by
  have noOperator := isOperatorChar_eq_false digit (by decide)
  have number : startsNumber c rest = true := by simp [startsNumber, digit]
  rw [scan, if_neg (ne_of_class digit rfl), if_neg (ne_of_class digit rfl),
    if_neg (ne_of_class digit rfl), noOperator, number]
  rfl

/-- A minus in front of a digit begins a number. -/
theorem scan_minus {c : Char} (digit : c.isDigit = true) (rest : List Char) :
    scan '-' (c :: rest) = scanNumber ('-' :: c :: rest) := by
  have number : startsNumber '-' (c :: rest) = true := by simp [startsNumber, digit]
  rw [scan, number]
  rfl

theorem signLength_sign_append (negative : Bool) {c : Char} (digit : c.isDigit = true)
    (cs : List Char) :
    signLength (Binary64.sign negative ++ c :: cs) = (Binary64.sign negative).length := by
  cases negative with
  | true => rfl
  | false =>
    show (if c = '-' ∨ c = '+' then 1 else 0) = 0
    rw [if_neg]
    rintro (rfl | rfl) <;> cases digit

theorem exponentLength_of_delimited {rest : List Char} (delimited : Delimited rest) :
    exponentLength rest = 0 := by
  have ends := delimited.forall_head (p := fun c => ¬ (c = 'e' ∨ c = 'E')) (by decide)
  cases rest with
  | nil => rfl
  | cons c cs =>
    rw [exponentLength]
    exact if_neg fun exponent => ends c rfl exponent.1

/-- A plain numeral with a sign is cut off before a delimiter. -/
theorem scanNumber_plain (negative : Bool) (p : PlainNumeral) {rest : List Char}
    (delimited : Delimited rest) :
    scanNumber (Binary64.sign negative ++ p.chars ++ rest) =
      .ok ⟨.number, Binary64.sign negative ++ p.chars,
        (Binary64.sign negative ++ p.chars).length - 1⟩ := by
  obtain ⟨c, cs, begins, digit⟩ := p.exists_chars_eq_cons
  have sign : signLength (Binary64.sign negative ++ p.chars ++ rest) =
      (Binary64.sign negative).length := by
    rw [begins, List.append_assoc, List.cons_append]
    exact signLength_sign_append negative digit _
  have body : (Binary64.sign negative ++ p.chars ++ rest).drop (Binary64.sign negative).length =
      p.chars ++ rest := by
    rw [List.append_assoc, List.drop_left]
  have cut := p.splitMantissa_chars
    (delimited.forall_head (p := fun c => c.isDigit = false ∧ c ≠ '.') (by decide))
  have length : numberLength (Binary64.sign negative ++ p.chars ++ rest) =
      (Binary64.sign negative ++ p.chars).length := by
    rw [numberLength, sign, body, cut]
    simp [p.whole_ne_nil, exponentLength_of_delimited delimited]
  have digits : hasDigits (Binary64.sign negative ++ p.chars ++ rest) = true := by
    rw [hasDigits, sign, body, cut]
    simp [p.whole_ne_nil]
  rw [scanNumber, length, digits, List.take_left, List.drop_left, delimited.takeWhile_isNameChar]
  rfl

/-- A signed numeral is read as one token. -/
theorem scans_number (negative : Bool) (p : PlainNumeral) {rest : List Char}
    (delimited : Delimited rest) :
    Scans (Binary64.sign negative ++ p.chars) .number rest := by
  have scanned := scanNumber_plain negative p delimited
  obtain ⟨c, cs, begins, digit⟩ := p.exists_chars_eq_cons
  have bounds := toNat_of_isDigit digit
  rw [begins] at scanned ⊢
  cases negative with
  | true => exact ⟨'-', c :: cs, rfl, by decide, (scan_minus digit _).trans scanned⟩
  | false =>
    exact ⟨c, cs, rfl, isBlank_eq_false_of_between (by omega) (by omega),
      (scan_of_isDigit digit _).trans scanned⟩

end Lexeme

end MarketRules
