import MarketRules.Proofs.Language.Locality

/-!
# Numbers as they are written

A number of the rule language has a sign, digits with a point before, between or behind
them, and an exponent, and each of these but the digits can be missing.  `NumberText` is
such a text cut into its parts.  It is read as one token, every token that is a number has
such parts, and its value depends neither on the letter case of the exponent nor on a point
with no digit behind it.
-/

namespace MarketRules

/-! ## The parts -/

/-- A sign, or none. -/
inductive SignText where
  | none
  | plus
  | minus

/-- The characters of the sign. -/
def SignText.chars : SignText → List Char
  | none => []
  | plus => ['+']
  | minus => ['-']

/-- Is it a minus? -/
def SignText.isMinus : SignText → Bool
  | minus => true
  | _ => false

/-- An exponent. -/
structure ExponentText where
  /-- The letter is a capital one. -/
  capital : Bool
  sign : SignText
  digits : List Char
  ne_nil : digits ≠ []
  isDigit : ∀ c ∈ digits, c.isDigit = true

/-- The letter in front of an exponent. -/
def ExponentText.mark (capital : Bool) : Char := if capital then 'E' else 'e'

theorem ExponentText.mark_eq (capital : Bool) : mark capital = 'e' ∨ mark capital = 'E' := by
  cases capital with
  | false => exact .inl rfl
  | true => exact .inr rfl

/-- The characters of an exponent that may be missing. -/
def exponentChars : Option ExponentText → List Char
  | none => []
  | some e => ExponentText.mark e.capital :: (e.sign.chars ++ e.digits)

/-- The number of an exponent, zero if it is missing. -/
def exponentValue : Option ExponentText → Int
  | none => 0
  | some e => if e.sign.isMinus then -(ofDigits e.digits : Int) else ofDigits e.digits

/-- The characters of a point and the digits behind it, both of which may be missing. -/
def pointChars : Option (List Char) → List Char
  | none => []
  | some ds => '.' :: ds

/-- A number as it is written. -/
structure NumberText where
  sign : SignText
  /-- The digits before the point. -/
  whole : List Char
  /-- The digits behind the point, if there is one. -/
  fraction : Option (List Char)
  exponent : Option ExponentText
  isDigit_whole : ∀ c ∈ whole, c.isDigit = true
  isDigit_fraction : ∀ c ∈ fraction.getD [], c.isDigit = true
  /-- There is a digit before the point or behind it. -/
  hasDigit : whole ≠ [] ∨ fraction.getD [] ≠ []

namespace NumberText

variable (n : NumberText)

/-- The characters behind the sign. -/
def body : List Char := n.whole ++ (pointChars n.fraction ++ exponentChars n.exponent)

/-- The characters of the number. -/
def chars : List Char := n.sign.chars ++ n.body

/-- The number that it stands for. -/
def value : Binary64 :=
  .ofDecimal n.sign.isMinus (ofDigits (n.whole ++ n.fraction.getD []))
    (exponentValue n.exponent - (n.fraction.getD []).length)

/-- A number has a digit on one side of its point. -/
theorem not_digitless : ¬ (n.whole = [] ∧ n.fraction.getD [] = []) := by
  rintro ⟨noWhole, noFraction⟩
  rcases n.hasDigit with digit | digit
  · exact digit noWhole
  · exact digit noFraction

/-! ## The first character -/

/-- The sign is followed by a digit or a point. -/
theorem exists_body_eq_cons : ∃ c cs, n.body = c :: cs ∧ (c.isDigit = true ∨ c = '.') := by
  rw [body]
  cases whole : n.whole with
  | cons c cs => exact ⟨c, _, rfl, .inl (n.isDigit_whole c (whole ▸ List.mem_cons_self))⟩
  | nil =>
    cases fraction : n.fraction with
    | some ds => exact ⟨'.', _, rfl, .inr rfl⟩
    | none =>
      have digit := n.hasDigit
      rw [whole, fraction] at digit
      rcases digit with none | none <;> exact absurd rfl none

theorem chars_ne_nil : n.chars ≠ [] := by
  obtain ⟨c, cs, begins, -⟩ := n.exists_body_eq_cons
  rw [chars, begins]
  exact List.append_ne_nil_of_right_ne_nil _ (List.cons_ne_nil c cs)

/-- An exponent begins with no digit and no point. -/
theorem head?_exponentChars (e : Option ExponentText) :
    ∀ c ∈ (exponentChars e).head?, c.isDigit = false ∧ c ≠ '.' := by
  cases e with
  | none => rintro c ⟨⟩
  | some e =>
    rintro c ⟨⟩
    cases e.capital <;> decide

/-- Behind the sign a number is split into its digits and its exponent. -/
theorem splitMantissa_body :
    splitMantissa n.body = (n.whole, n.fraction.getD [], exponentChars n.exponent) := by
  have stops := head?_exponentChars n.exponent
  have noDigit : ∀ c ∈ (exponentChars n.exponent).head?, c.isDigit = false :=
    fun c member => (stops c member).1
  have fraction := n.isDigit_fraction
  rw [body, splitMantissa]
  cases point : n.fraction with
  | none =>
    rw [pointChars, List.nil_append, takeWhile_run_append n.isDigit_whole noDigit,
      dropWhile_run_append n.isDigit_whole noDigit]
    split
    · next point => exact absurd rfl (stops '.' (by rw [point]; rfl)).2
    · rfl
  | some ds =>
    have atPoint : ∀ c ∈ ('.' :: (ds ++ exponentChars n.exponent)).head?, c.isDigit = false := by
      rintro c ⟨⟩
      rfl
    rw [point] at fraction
    change ∀ c ∈ ds, c.isDigit = true at fraction
    rw [pointChars, List.cons_append, takeWhile_run_append n.isDigit_whole atPoint,
      dropWhile_run_append n.isDigit_whole atPoint]
    show (_, (ds ++ exponentChars n.exponent).takeWhile Char.isDigit,
      (ds ++ exponentChars n.exponent).dropWhile Char.isDigit) = _
    rw [takeWhile_run_append fraction noDigit, dropWhile_run_append fraction noDigit]
    rfl

/-! ## The value -/

theorem splitSign_append (sign : SignText) {c : Char} (cs : List Char)
    (shape : c.isDigit = true ∨ c = '.') :
    splitSign (sign.chars ++ c :: cs) = (sign.isMinus, c :: cs) := by
  cases sign with
  | plus => rfl
  | minus => rfl
  | none =>
    show splitSign (c :: cs) = _
    unfold splitSign
    split
    · next begins =>
      cases begins
      rcases shape with digit | point <;> contradiction
    · next begins =>
      cases begins
      rcases shape with digit | point <;> contradiction
    · rfl

theorem splitSign_chars : splitSign n.chars = (n.sign.isMinus, n.body) := by
  obtain ⟨c, cs, begins, shape⟩ := n.exists_body_eq_cons
  rw [chars, begins]
  exact splitSign_append n.sign cs shape

theorem readExponent?_chars (e : Option ExponentText) :
    readExponent? (exponentChars e) = some (exponentValue e) := by
  cases e with
  | none => rfl
  | some e =>
    obtain ⟨c, cs, begins⟩ := List.exists_cons_of_ne_nil e.ne_nil
    have first : c.isDigit = true := e.isDigit c (begins ▸ List.mem_cons_self)
    have split : splitSign (e.sign.chars ++ e.digits) = (e.sign.isMinus, e.digits) := by
      rw [begins]
      exact splitSign_append e.sign cs (.inl first)
    have digits : readDigits? e.digits = some (ofDigits e.digits) :=
      if_pos ⟨e.ne_nil, List.all_eq_true.mpr e.isDigit⟩
    rw [exponentChars, readExponent?, if_pos (ExponentText.mark_eq _), readInt?, split]
    dsimp only
    rw [digits]
    rfl

/-- A number is read as what it stands for. -/
theorem readNumeral?_chars : readNumeral? n.chars = some n.value := by
  obtain ⟨c, cs, begins, shape⟩ := n.exists_body_eq_cons
  have cut := n.splitMantissa_body
  have noName {d : Char} {ds : List Char} (letter : d.isDigit = false ∧ d ≠ '.') :
      n.body.map Char.toLower ≠ d :: ds := by
    rw [begins]
    rcases shape with digit | rfl
    · exact map_toLower_ne_cons digit letter.1
    · exact fun same => letter.2 (List.cons.inj same).1.symm
  have notInf : n.body.map Char.toLower ≠ "inf".toList := noName (d := 'i') (by decide)
  have notInfinity : n.body.map Char.toLower ≠ "infinity".toList := noName (d := 'i') (by decide)
  have notNan : n.body.map Char.toLower ≠ "nan".toList := noName (d := 'n') (by decide)
  rw [readNumeral?, readNumeral, if_neg n.chars_ne_nil, n.splitSign_chars, readMagnitude?]
  simp only [notInf, notInfinity, notNan, cut, n.not_digitless, or_self, if_false,
    readExponent?_chars, Option.map_some]
  rfl

/-! ## Characters -/

/-- The characters of a number that are no letters. -/
def signDigitPoint : List Char := "0123456789.+-".toList

theorem mem_signDigitPoint_of_isDigit {c : Char} (digit : c.isDigit = true) :
    c ∈ signDigitPoint :=
  List.mem_append_left ['.', '+', '-'] (mem_digits_of_isDigit digit)

theorem mem_signDigitPoint_of_sign (sign : SignText) : ∀ c ∈ sign.chars, c ∈ signDigitPoint := by
  cases sign <;> decide

theorem mem_signDigitPoint_of_point {point : Option (List Char)}
    (digits : ∀ c ∈ point.getD [], c.isDigit = true) :
    ∀ c ∈ pointChars point, c ∈ signDigitPoint := by
  cases point with
  | none => exact fun c member => absurd member List.not_mem_nil
  | some ds =>
    exact List.forall_mem_cons.mpr
      ⟨by decide, fun c member => mem_signDigitPoint_of_isDigit (digits c member)⟩

/-- The characters in front of the exponent. -/
theorem mem_signDigitPoint_of_mantissa :
    ∀ c ∈ n.sign.chars ++ (n.whole ++ pointChars n.fraction), c ∈ signDigitPoint :=
  List.forall_mem_append.mpr ⟨mem_signDigitPoint_of_sign n.sign, List.forall_mem_append.mpr
    ⟨fun c member => mem_signDigitPoint_of_isDigit (n.isDigit_whole c member),
      mem_signDigitPoint_of_point n.isDigit_fraction⟩⟩

/-- The characters behind the letter of an exponent. -/
theorem mem_signDigitPoint_of_exponent (e : ExponentText) :
    ∀ c ∈ e.sign.chars ++ e.digits, c ∈ signDigitPoint :=
  List.forall_mem_append.mpr ⟨mem_signDigitPoint_of_sign e.sign,
    fun c member => mem_signDigitPoint_of_isDigit (e.isDigit c member)⟩

theorem chars_eq_append : n.chars =
    n.sign.chars ++ (n.whole ++ pointChars n.fraction) ++ exponentChars n.exponent := by
  simp [chars, body]

/-- The number with a small letter in front of its exponent, or a capital one. -/
def withLetter (capital : Bool) : NumberText :=
  { n with exponent := n.exponent.map ({ · with capital }) }

theorem withLetter_withLetter (capital capital' : Bool) :
    (n.withLetter capital).withLetter capital' = n.withLetter capital' := by
  simp [withLetter, Function.comp_def]

/-- The letter does not matter. -/
theorem value_withLetter (capital : Bool) : (n.withLetter capital).value = n.value := by
  have same : exponentValue (n.exponent.map ({ · with capital })) = exponentValue n.exponent := by
    cases n.exponent <;> rfl
  rw [value, withLetter, same]
  rfl

theorem capital_of_mem_withLetter {capital : Bool} {e : ExponentText}
    (member : e ∈ (n.withLetter capital).exponent) : e.capital = capital := by
  obtain ⟨e, -, rfl⟩ := Option.map_eq_some_iff.mp member
  rfl

/-- A number has no characters but these and the letter. -/
theorem forall_mem_chars {P : Char → Prop} (others : ∀ c ∈ signDigitPoint, P c)
    (letter : ∀ e ∈ n.exponent, P (ExponentText.mark e.capital)) : ∀ c ∈ n.chars, P c := by
  rw [chars_eq_append]
  refine List.forall_mem_append.mpr
    ⟨fun c member => others c (n.mem_signDigitPoint_of_mantissa c member), ?_⟩
  cases exponent : n.exponent with
  | none => exact fun c member => absurd member List.not_mem_nil
  | some e =>
    exact List.forall_mem_cons.mpr ⟨letter e exponent,
      fun c member => others c (mem_signDigitPoint_of_exponent e c member)⟩

/-- A number is ASCII. -/
theorem ascii_chars : ∀ c ∈ n.chars, c.toNat < 128 := by
  have others : ∀ c ∈ signDigitPoint, c.toNat < 128 := by decide
  refine n.forall_mem_chars others fun e _ => ?_
  cases e.capital <;> decide

/-- A mapping of the characters that changes the letter alone. -/
theorem map_chars {f : Char → Char} {capital : Bool} (others : ∀ c ∈ signDigitPoint, f c = c)
    (letter : ∀ b, f (ExponentText.mark b) = ExponentText.mark capital) :
    n.chars.map f = (n.withLetter capital).chars := by
  have same {cs : List Char} (plain : ∀ c ∈ cs, c ∈ signDigitPoint) : cs.map f = cs := by
    rw [List.map_congr_left fun c member => others c (plain c member)]
    exact List.map_id cs
  have exponent : (exponentChars n.exponent).map f =
      exponentChars (n.exponent.map ({ · with capital })) := by
    cases n.exponent with
    | none => rfl
    | some e =>
      rw [exponentChars, List.map_cons, letter, same (mem_signDigitPoint_of_exponent e)]
      rfl
  rw [chars_eq_append, List.map_append, same n.mem_signDigitPoint_of_mantissa, exponent,
    chars_eq_append]
  rfl

/-! ## Reading the number as a token -/

open Lexeme (signLength exponentLength numberLength hasDigits scanNumber scan startsNumber
  isOperatorChar)

theorem signLength_append (sign : SignText) {c : Char} (cs : List Char)
    (shape : c.isDigit = true ∨ c = '.') :
    signLength (sign.chars ++ c :: cs) = sign.chars.length := by
  cases sign with
  | plus => rfl
  | minus => rfl
  | none =>
    refine if_neg ?_
    rintro (rfl | rfl) <;> rcases shape with digit | point <;> contradiction

/-- An exponent is found in its full length. -/
theorem exponentLength_chars (e : Option ExponentText) :
    exponentLength (exponentChars e) = (exponentChars e).length := by
  cases e with
  | none => rfl
  | some e =>
    obtain ⟨c, cs, begins⟩ := List.exists_cons_of_ne_nil e.ne_nil
    have first : c.isDigit = true := e.isDigit c (begins ▸ List.mem_cons_self)
    have sign : signLength (e.sign.chars ++ e.digits) = e.sign.chars.length := by
      rw [begins]
      exact signLength_append e.sign cs (.inl first)
    have digits : (e.digits ++ []).takeWhile Char.isDigit = e.digits :=
      takeWhile_run_append e.isDigit (by simp)
    rw [List.append_nil] at digits
    simp only [exponentChars, exponentLength, sign, List.drop_left, digits,
      if_pos (And.intro (ExponentText.mark_eq e.capital) e.ne_nil), List.length_cons,
      List.length_append]
    omega

/-- A number that stands alone is one token. -/
theorem scanNumber_chars :
    scanNumber n.chars = .ok ⟨.number, n.chars, n.chars.length - 1⟩ := by
  obtain ⟨c, cs, begins, shape⟩ := n.exists_body_eq_cons
  have sign : signLength n.chars = n.sign.chars.length := by
    rw [chars, begins]
    exact signLength_append n.sign cs shape
  have body : n.chars.drop n.sign.chars.length = n.body := List.drop_left
  have length : numberLength n.chars = n.chars.length := by
    rw [numberLength, sign, body, n.splitMantissa_body]
    simp only [n.not_digitless, if_false, exponentLength_chars]
    simp only [chars, NumberText.body, List.length_append]
    omega
  have digits : hasDigits n.chars = true := by
    rw [hasDigits, sign, body, n.splitMantissa_body]
    simp only [Bool.or_eq_true, decide_eq_true_eq]
    exact n.hasDigit
  rw [scanNumber, length, digits, List.take_length, List.drop_length]
  rfl

theorem startsNumber_of_shape {c : Char} (shape : c.isDigit = true ∨ c = '.')
    (rest : List Char) : startsNumber c rest = true := by
  rcases shape with digit | rfl
  · simp [startsNumber, digit]
  · rfl

theorem scan_eq_scanNumber {c : Char} {rest : List Char}
    (others : c ≠ '(' ∧ c ≠ ')' ∧ c ≠ ',' ∧ isOperatorChar c = false)
    (starts : startsNumber c rest = true) : scan c rest = scanNumber (c :: rest) := by
  obtain ⟨opening, closing, comma, operator⟩ := others
  rw [scan, if_neg opening, if_neg closing, if_neg comma, operator, starts]
  rfl

/-- The number is read as one token. -/
theorem scans : Lexeme.Scans n.chars .number [] := by
  have scanned := n.scanNumber_chars
  obtain ⟨c, cs, begins, shape⟩ := n.exists_body_eq_cons
  have behindSign : startsNumber '+' (c :: cs) = true ∧ startsNumber '-' (c :: cs) = true := by
    rcases shape with digit | rfl
    · simp [startsNumber, digit]
    · exact ⟨rfl, rfl⟩
  rw [chars, begins] at scanned ⊢
  generalize n.sign = sign at scanned ⊢
  cases sign with
  | none =>
    have others : c ≠ '(' ∧ c ≠ ')' ∧ c ≠ ',' ∧ isOperatorChar c = false := by
      rcases shape with digit | rfl
      · exact ⟨ne_of_class digit rfl, ne_of_class digit rfl, ne_of_class digit rfl,
          Lexeme.isOperatorChar_eq_false digit (by decide)⟩
      · decide
    refine ⟨c, cs, rfl, ?_, ?_⟩
    · rcases shape with digit | rfl
      · exact isBlank_eq_false_of_isDigit digit
      · decide
    · rw [List.append_nil, scan_eq_scanNumber others (startsNumber_of_shape shape cs)]
      exact scanned
  | plus =>
    refine ⟨'+', c :: cs, rfl, by decide, ?_⟩
    rw [List.append_nil, scan_eq_scanNumber (by decide) behindSign.1]
    exact scanned
  | minus =>
    refine ⟨'-', c :: cs, rfl, by decide, ?_⟩
    rw [List.append_nil, scan_eq_scanNumber (by decide) behindSign.2]
    exact scanned

/-- A text that is a number has one word. -/
theorem words?_chars :
    words? (String.ofList n.chars) = some [(.number, String.ofList n.chars)] := by
  obtain ⟨t, stop, kind, text, reads⟩ := n.scans.reads 0
  refine words?_eq_some_iff.mpr ⟨⟨[t], stop⟩, ?_, ?_⟩
  · rw [TokenStream.Reads, List.append_nil] at reads
    rw [TokenStream.ofText, String.toList_ofList, reads]
    rfl
  · rw [List.map_singleton, Token.word, kind, text]

/-! ## Every number has such parts -/

/-- What is skipped as a sign is a sign or nothing. -/
theorem exists_sign (cs : List Char) : ∃ (sign : SignText) (rest : List Char),
    cs = sign.chars ++ rest ∧ sign.chars.length = signLength cs := by
  cases cs with
  | nil => exact ⟨.none, [], rfl, rfl⟩
  | cons c cs =>
    by_cases minus : c = '-'
    · subst minus
      exact ⟨.minus, cs, rfl, rfl⟩
    · by_cases plus : c = '+'
      · subst plus
        exact ⟨.plus, cs, rfl, rfl⟩
      · refine ⟨.none, c :: cs, rfl, (if_neg ?_).symm⟩
        rintro (same | same)
        · exact minus same
        · exact plus same

theorem isDigit_of_mem_takeWhile {cs : List Char} :
    ∀ c ∈ cs.takeWhile Char.isDigit, c.isDigit = true :=
  List.all_eq_true.mp List.all_takeWhile

/-- What is split as a mantissa is digits with a point among them or not. -/
theorem exists_point {cs whole fraction rest : List Char}
    (split : splitMantissa cs = (whole, fraction, rest)) :
    ∃ point : Option (List Char), point.getD [] = fraction ∧
      cs = whole ++ (pointChars point ++ rest) ∧ (∀ c ∈ whole, c.isDigit = true) ∧
        ∀ c ∈ fraction, c.isDigit = true := by
  have whole_append := List.takeWhile_append_dropWhile (p := Char.isDigit) (l := cs)
  unfold splitMantissa at split
  split at split
  · next behindPoint begins =>
    cases split
    have fraction_append :=
      List.takeWhile_append_dropWhile (p := Char.isDigit) (l := behindPoint)
    refine ⟨some (behindPoint.takeWhile Char.isDigit), rfl, ?_, isDigit_of_mem_takeWhile,
      isDigit_of_mem_takeWhile⟩
    rw [pointChars, List.cons_append, fraction_append, ← begins, whole_append]
  · cases split
    refine ⟨none, rfl, ?_, isDigit_of_mem_takeWhile, fun c member => absurd member List.not_mem_nil⟩
    rw [pointChars, List.nil_append, whole_append]

/-- What is skipped as an exponent is an exponent or nothing. -/
theorem exists_exponent (cs : List Char) : ∃ (e : Option ExponentText) (rest : List Char),
    cs = exponentChars e ++ rest ∧ (exponentChars e).length = exponentLength cs := by
  cases cs with
  | nil => exact ⟨none, [], rfl, rfl⟩
  | cons c cs =>
    obtain ⟨sign, behind, shape, length⟩ := exists_sign cs
    have digits_append := List.takeWhile_append_dropWhile (p := Char.isDigit) (l := behind)
    have drop : cs.drop (signLength cs) = behind := by
      rw [← length]
      conv => lhs; rw [shape]
      exact List.drop_left
    by_cases exponent : (c = 'e' ∨ c = 'E') ∧ behind.takeWhile Char.isDigit ≠ []
    · obtain ⟨capital, rfl⟩ : ∃ capital, c = ExponentText.mark capital := by
        rcases exponent.1 with rfl | rfl
        · exact ⟨false, rfl⟩
        · exact ⟨true, rfl⟩
      refine ⟨some ⟨capital, sign, behind.takeWhile Char.isDigit, exponent.2,
        isDigit_of_mem_takeWhile⟩, behind.dropWhile Char.isDigit, ?_, ?_⟩
      · rw [exponentChars, List.cons_append, List.append_assoc, digits_append, ← shape]
      · rw [exponentLength, drop]
        simp only [exponentChars, if_pos exponent, List.length_cons, List.length_append, length]
        omega
    · refine ⟨none, c :: cs, rfl, ?_⟩
      rw [exponentLength, drop]
      exact (if_neg exponent).symm

/-- A text with digits where a number has them begins with a number, of the length that is
found. -/
theorem exists_of_hasDigits {cs : List Char} (digits : hasDigits cs = true) :
    ∃ (n : NumberText) (rest : List Char), cs = n.chars ++ rest ∧
      numberLength cs = n.chars.length := by
  obtain ⟨sign, body, shape, signLength⟩ := exists_sign cs
  have drop : cs.drop (Lexeme.signLength cs) = body := by
    rw [← signLength]
    conv => lhs; rw [shape]
    exact List.drop_left
  cases split : splitMantissa body with
  | mk whole parts =>
    obtain ⟨fraction, behind⟩ := parts
    obtain ⟨point, rfl, mantissa, isDigit_whole, isDigit_fraction⟩ := exists_point split
    obtain ⟨exponent, rest, atExponent, exponentLength⟩ := exists_exponent behind
    rw [hasDigits, drop, split] at digits
    have someDigit : whole ≠ [] ∨ point.getD [] ≠ [] := by
      simpa only [Bool.or_eq_true, decide_eq_true_eq] using digits
    let n : NumberText :=
      ⟨sign, whole, point, exponent, isDigit_whole, isDigit_fraction, someDigit⟩
    refine ⟨n, rest, ?_, ?_⟩
    · rw [shape, mantissa, atExponent]
      simp [n, chars, NumberText.body]
    · have none : ¬ (whole = [] ∧ point.getD [] = []) := n.not_digitless
      have mantissaLength := congrArg List.length mantissa
      rw [List.length_append, List.length_append] at mantissaLength
      rw [numberLength, drop, split]
      simp only [none, if_false]
      rw [← signLength, ← exponentLength, mantissaLength]
      simp only [n, chars, NumberText.body, List.length_append]
      omega

/-- What is read as a number has the parts of one. -/
theorem exists_of_scanNumber {cs : List Char} {lexeme : Lexeme}
    (scanned : scanNumber cs = .ok lexeme) : ∃ (n : NumberText) (rest : List Char),
      cs = n.chars ++ rest ∧ lexeme = ⟨.number, n.chars, n.chars.length - 1⟩ := by
  unfold scanNumber at scanned
  split at scanned
  · cases scanned
  · next digits =>
    obtain ⟨n, rest, text, length⟩ := exists_of_hasDigits (by simpa using digits)
    dsimp only at scanned
    split at scanned
    · cases scanned
    · cases scanned
      refine ⟨n, rest, text, ?_⟩
      rw [length]
      conv => lhs; rw [text]
      rw [List.take_left]

end NumberText

/-! ## The only token of a text -/

theorem wordsFrom?_eq_drop (cs : List Char) :
    ∀ skip : Nat, wordsFrom? skip cs = wordsFrom? 0 (cs.drop skip) := by
  induction cs with
  | nil =>
    intro skip
    rw [List.drop_nil]
    rfl
  | cons c cs ih =>
    intro skip
    cases skip with
    | zero => rfl
    | succ skip => exact ih skip

/-- A text without words consists of blanks. -/
theorem isBlank_of_wordsFrom? {cs : List Char} (noWord : wordsFrom? 0 cs = some []) :
    ∀ c ∈ cs, isBlank c = true := by
  induction cs with
  | nil => exact fun c member => absurd member List.not_mem_nil
  | cons c cs ih =>
    rw [wordsFrom?] at noWord
    split at noWord
    · next blank => exact List.forall_mem_cons.mpr ⟨blank, ih noWord⟩
    · split at noWord
      · cases noWord
      · obtain ⟨ws, -, same⟩ := Option.map_eq_some_iff.mp noWord
        cases same

/-- A text with one token consists of blanks and the characters of the token. -/
theorem exists_scan_of_wordsFrom? {cs : List Char} {w : TokenKind × String}
    (oneWord : wordsFrom? 0 cs = some [w]) : ∃ (blanks : List Char) (c : Char) (rest : List Char)
      (lexeme : Lexeme), cs = blanks ++ c :: rest ∧ (∀ b ∈ blanks, isBlank b = true) ∧
        Lexeme.scan c rest = .ok lexeme ∧ w = (lexeme.kind, String.ofList lexeme.text) ∧
          ∀ b ∈ rest.drop lexeme.tail, isBlank b = true := by
  induction cs with
  | nil => cases oneWord
  | cons c cs ih =>
    rw [wordsFrom?] at oneWord
    split at oneWord
    · next blank =>
      obtain ⟨blanks, d, rest, lexeme, rfl, allBlank, scanned, word, behind⟩ := ih oneWord
      exact ⟨c :: blanks, d, rest, lexeme, rfl, List.forall_mem_cons.mpr ⟨blank, allBlank⟩,
        scanned, word, behind⟩
    · split at oneWord
      · cases oneWord
      · next lexeme scanned =>
        obtain ⟨ws, noWord, same⟩ := Option.map_eq_some_iff.mp oneWord
        obtain ⟨rfl, rfl⟩ := List.cons.inj same
        rw [wordsFrom?_eq_drop] at noWord
        exact ⟨[], c, cs, lexeme, rfl, fun b member => absurd member List.not_mem_nil, scanned, rfl,
          isBlank_of_wordsFrom? noWord⟩

/-- No word is a number. -/
theorem Lexeme.wordKind_ne_number (word : String) : wordKind word ≠ .number := by
  unfold wordKind
  split <;> rintro ⟨⟩

/-- Nothing but numbers is a token of this kind. -/
theorem Lexeme.scanNumber_of_kind {c : Char} {rest : List Char} {lexeme : Lexeme}
    (scanned : scan c rest = .ok lexeme) (number : lexeme.kind = .number) :
    scanNumber (c :: rest) = .ok lexeme := by
  have noSymbol {kind : TokenKind} {text : List Char} (other : kind ≠ .number) :
      Except.ok (symbol kind text) ≠ (.ok lexeme : Except Fault Lexeme) := by
    rintro ⟨⟩
    exact other number
  rw [scan] at scanned
  split at scanned
  · exact absurd scanned (noSymbol (by decide))
  split at scanned
  · exact absurd scanned (noSymbol (by decide))
  split at scanned
  · exact absurd scanned (noSymbol (by decide))
  split at scanned
  · rw [scanOperator] at scanned
    split at scanned
    · exact absurd scanned (noSymbol (by rintro ⟨⟩))
    · exact absurd scanned (noSymbol (by rintro ⟨⟩))
    · cases scanned
  split at scanned
  · exact scanned
  split at scanned
  · obtain rfl := Except.ok.inj scanned
    rw [scanWord] at number
    split at number
    · cases number
    · split at number
      · cases number
      · exact absurd number (wordKind_ne_number _)
  · cases scanned

/-- A text whose only token is a number is that number between blanks. -/
theorem NumberText.exists_of_words? {text token : String}
    (oneNumber : words? text = some [(.number, token)]) :
    ∃ (n : NumberText) (before after : List Char), text.toList = before ++ (n.chars ++ after) ∧
      (∀ c ∈ before ++ after, isBlank c = true) ∧ token.toList = n.chars := by
  obtain ⟨before, c, rest, lexeme, shape, blank, scanned, word, behind⟩ :=
    exists_scan_of_wordsFrom? oneNumber
  obtain ⟨kind, characters⟩ := Prod.mk.inj word
  obtain ⟨n, after, cut, rfl⟩ :=
    exists_of_scanNumber (Lexeme.scanNumber_of_kind scanned kind.symm)
  obtain ⟨length, positive⟩ : ∃ length, n.chars.length = length + 1 :=
    Nat.exists_eq_add_one.mpr (List.length_pos_iff.mpr n.chars_ne_nil)
  have atEnd : rest.drop (n.chars.length - 1) = after := by
    have dropped : (c :: rest).drop n.chars.length = after := by
      rw [cut]
      exact List.drop_left
    rw [positive] at dropped ⊢
    exact dropped
  rw [atEnd] at behind
  refine ⟨n, before, after, ?_, List.forall_mem_append.mpr ⟨blank, behind⟩, ?_⟩
  · rw [shape, cut]
  · rw [characters, String.toList_ofList]

end MarketRules
