import MarketRules.Proofs.Language.NumberText

/-!
# A token in a text that is cut off

A token that is read somewhere in a text is read there too if the text is cut off behind the
token.  This goes from the longer text to the shorter one, so nothing is asked of the
character behind the cut, while `Lexeme.scan_append_delimited` goes from the shorter text to
the longer one and needs a delimiter there.
-/

namespace MarketRules

/-! ## Digits -/

section

variable {p : Char → Bool} {xs ys : List Char}

/-- A run that ends in front of the cut is the same in the part. -/
theorem takeWhile_of_length_le (within : ((xs ++ ys).takeWhile p).length ≤ xs.length) :
    (xs ++ ys).takeWhile p = xs.takeWhile p := by
  rw [List.takeWhile_append] at within ⊢
  split
  · next all =>
    have whole : xs.takeWhile p = xs := (List.takeWhile_prefix p).eq_of_length all
    rw [if_pos all, List.length_append] at within
    have none : ys.takeWhile p = [] := List.length_eq_zero_iff.mp (by omega)
    rw [none, List.append_nil, whole]
  · rfl

/-- What follows a run in front of the cut goes on with what was cut off. -/
theorem dropWhile_of_length_le (within : ((xs ++ ys).takeWhile p).length ≤ xs.length) :
    (xs ++ ys).dropWhile p = xs.dropWhile p ++ ys := by
  have whole := List.takeWhile_append_dropWhile (p := p) (l := xs ++ ys)
  have front := List.takeWhile_append_dropWhile (p := p) (l := xs)
  rw [takeWhile_of_length_le within] at whole
  refine (List.append_right_inj (xs.takeWhile p)).mp ?_
  rw [whole, ← List.append_assoc, front]

theorem length_takeWhile_of_dropWhile (long : ys.length ≤ ((xs ++ ys).dropWhile p).length) :
    ((xs ++ ys).takeWhile p).length ≤ xs.length := by
  have whole := congrArg List.length (List.takeWhile_append_dropWhile (p := p) (l := xs ++ ys))
  rw [List.length_append, List.length_append] at whole
  omega

/-- If the digits end before the text is cut off, they are the same.  The point is followed by
what was cut off or more, so it stands in front of the cut. -/
theorem splitMantissa_of_append {whole fraction rest : List Char}
    (split : splitMantissa (xs ++ ys) = (whole, fraction, rest))
    (within : ys.length ≤ rest.length) :
    ∃ rest', rest = rest' ++ ys ∧ splitMantissa xs = (whole, fraction, rest') := by
  unfold splitMantissa at split
  split at split
  · next behind begins =>
    cases split
    have shorter := (List.dropWhile_suffix Char.isDigit (l := behind)).length_le
    have inFront : ((xs ++ ys).takeWhile Char.isDigit).length ≤ xs.length :=
      length_takeWhile_of_dropWhile (by rw [begins, List.length_cons]; omega)
    have cut := dropWhile_of_length_le inFront
    rw [begins] at cut
    cases front : xs.dropWhile Char.isDigit with
    | nil =>
      have long := congrArg List.length cut
      rw [front, List.nil_append, List.length_cons] at long
      omega
    | cons d ds =>
      rw [front, List.cons_append] at cut
      obtain ⟨rfl, rfl⟩ := List.cons.inj cut
      have inFront' := length_takeWhile_of_dropWhile within
      refine ⟨ds.dropWhile Char.isDigit, dropWhile_of_length_le inFront', ?_⟩
      rw [splitMantissa, front, takeWhile_of_length_le inFront, takeWhile_of_length_le inFront']
      rfl
  · next noPoint =>
    cases split
    have inFront := length_takeWhile_of_dropWhile within
    have cut := dropWhile_of_length_le inFront
    refine ⟨xs.dropWhile Char.isDigit, cut, ?_⟩
    rw [splitMantissa, takeWhile_of_length_le inFront]
    split
    · next ds front => exact absurd (cut.trans (congrArg (· ++ ys) front)) (noPoint (ds ++ ys))
    · rfl

end

/-! ## One token -/

namespace Lexeme

section

variable {c : Char} {cs rest : List Char}

/-- If the exponent ends before the text is cut off, it is as long.  A letter right in front
of the cut has no digits and begins none. -/
theorem exponentLength_of_append (within : exponentLength (cs ++ rest) ≤ cs.length) :
    exponentLength (cs ++ rest) = exponentLength cs := by
  cases cs with
  | nil => exact Nat.le_zero.mp within
  | cons c cs =>
    rw [List.cons_append, exponentLength, List.length_cons] at within
    rw [List.cons_append, exponentLength, exponentLength]
    by_cases letter : c = 'e' ∨ c = 'E'
    · cases cs with
      | nil =>
        refine Eq.trans (if_neg fun exponent => ?_) (if_neg fun exponent => exponent.2 rfl).symm
        have some_digit := List.length_pos_iff.mpr exponent.2
        rw [if_pos exponent, List.length_nil] at within
        omega
      | cons d ds =>
        have sign : signLength (d :: ds ++ rest) = signLength (d :: ds) := rfl
        have signed := signLength_le (d :: ds)
        rw [sign, drop_signLength_append] at within ⊢
        have inFront : (((d :: ds).drop (signLength (d :: ds)) ++ rest).takeWhile
            Char.isDigit).length ≤ ((d :: ds).drop (signLength (d :: ds))).length := by
          rw [List.length_drop]
          by_cases digits : ((d :: ds).drop (signLength (d :: ds)) ++ rest).takeWhile
              Char.isDigit = []
          · rw [digits]
            exact Nat.zero_le _
          · rw [if_pos ⟨letter, digits⟩] at within
            omega
        rw [takeWhile_of_length_le inFront]
    · rw [if_neg fun exponent => letter exponent.1, if_neg fun exponent => letter exponent.1]

/-- If the number ends before the text is cut off, its length is the same. -/
theorem numberLength_of_append (digits : hasDigits (c :: cs ++ rest) = true)
    (within : numberLength (c :: cs ++ rest) ≤ (c :: cs).length) :
    hasDigits (c :: cs) = true ∧ numberLength (c :: cs ++ rest) = numberLength (c :: cs) := by
  have sign : signLength (c :: cs ++ rest) = signLength (c :: cs) := rfl
  have signed := signLength_le (c :: cs)
  generalize c :: cs = xs at digits within sign signed ⊢
  rw [hasDigits, sign, drop_signLength_append] at digits
  rw [numberLength, sign, drop_signLength_append] at within ⊢
  cases split : splitMantissa (xs.drop (signLength xs) ++ rest) with
  | mk whole parts =>
    obtain ⟨fraction, behind⟩ := parts
    rw [split] at digits within
    dsimp only at digits within ⊢
    have some_digit : ¬ (whole = [] ∧ fraction = []) := by
      rintro ⟨rfl, rfl⟩
      cases digits
    rw [if_neg some_digit, List.length_append, List.length_drop] at within
    have shorter := splitMantissa_rest_length_le (xs.drop (signLength xs) ++ rest)
    rw [split, List.length_append, List.length_drop] at shorter
    dsimp only at shorter
    obtain ⟨behind', rfl, split'⟩ := splitMantissa_of_append split (by omega)
    rw [List.length_append] at within shorter
    have exponent : exponentLength (behind' ++ rest) = exponentLength behind' :=
      exponentLength_of_append (by omega)
    rw [hasDigits, numberLength, split']
    dsimp only
    refine ⟨digits, ?_⟩
    rw [if_neg some_digit, if_neg some_digit, exponent, List.length_append, List.length_append,
      Nat.add_sub_add_right]

/-- If the number ends before the text is cut off, it is the same. -/
theorem scanNumber_of_append {lexeme : Lexeme}
    (scanned : scanNumber (c :: cs ++ rest) = .ok lexeme) (within : lexeme.tail ≤ cs.length) :
    scanNumber (c :: cs) = .ok lexeme := by
  rw [scanNumber] at scanned
  split at scanned
  · cases scanned
  next digits =>
  replace digits : hasDigits (c :: cs ++ rest) = true := by simpa using digits
  split at scanned
  · cases scanned
  next ends =>
  cases scanned
  have reached := numberLength_le (c :: cs ++ rest)
  dsimp only at within
  rw [List.length_take_of_le reached] at within
  have inFront : numberLength (c :: cs ++ rest) ≤ (c :: cs).length := by
    rw [List.length_cons]
    omega
  obtain ⟨digits', length⟩ := numberLength_of_append digits inFront
  have ends' : ((c :: cs).drop (numberLength (c :: cs ++ rest))).takeWhile isNameChar = [] := by
    rw [Decidable.not_not, List.drop_append_of_le_length inFront] at ends
    have none : (((c :: cs).drop (numberLength (c :: cs ++ rest)) ++ rest).takeWhile
        isNameChar).length ≤ ((c :: cs).drop (numberLength (c :: cs ++ rest))).length := by
      rw [ends]
      exact Nat.zero_le _
    rwa [takeWhile_of_length_le none] at ends
  rw [length] at ends' inFront
  rw [scanNumber, digits', ends', length, List.take_append_of_le_length inFront]
  rfl

/-- If the operator ends before the text is cut off, it is the same.  An operator of two
characters does not end behind the first. -/
theorem scanOperator_of_append {lexeme : Lexeme}
    (scanned : scanOperator (c :: cs ++ rest) = .ok lexeme) (within : lexeme.tail ≤ cs.length) :
    scanOperator (c :: cs) = .ok lexeme := by
  cases cs with
  | cons d ds =>
    rw [scanOperator] at scanned ⊢
    have two : (c :: d :: ds ++ rest).take 2 = (c :: d :: ds).take 2 := rfl
    have one : (c :: d :: ds ++ rest).take 1 = (c :: d :: ds).take 1 := rfl
    rw [two, one] at scanned
    split at scanned
    · exact scanned
    · exact scanned
    · cases scanned
  | nil =>
    cases rest with
    | nil => exact scanned
    | cons d ds =>
      rw [scanOperator] at scanned
      split at scanned
      · cases scanned
        cases within
      · next one =>
        cases scanned
        rw [scanOperator, show [c].take 2 = ([c] ++ d :: ds).take 1 from rfl, one]
      · cases scanned

/-- The token of a word that ends in front of a colon, or in front of something else. -/
def ofWord (raw : List Char) (colon : Bool) : Lexeme :=
  if colon && asciiUpper raw == "ENTRY".toList then
    ⟨.entryLabel, asciiUpper raw ++ [':'], raw.length⟩
  else if colon && asciiUpper raw == "EXIT".toList then
    ⟨.exitLabel, asciiUpper raw ++ [':'], raw.length⟩
  else ⟨wordKind (String.ofList (asciiUpper raw)), asciiUpper raw, raw.length - 1⟩

theorem scanWord_eq_ofWord (xs : List Char) : scanWord xs = ofWord (xs.takeWhile isNameChar)
    ((xs.drop (xs.takeWhile isNameChar).length).head? == some ':') := rfl

/-- A label takes the colon.  Without one the token ends with the word. -/
theorem ofWord_cases (raw : List Char) (colon : Bool) :
    (colon = true ∧ (ofWord raw colon).text = asciiUpper (raw ++ [':']) ∧
      (ofWord raw colon).tail = raw.length) ∨
    ofWord raw colon =
      ⟨wordKind (String.ofList (asciiUpper raw)), asciiUpper raw, raw.length - 1⟩ := by
  have capitals : asciiUpper (raw ++ [':']) = asciiUpper raw ++ [':'] := List.map_append
  rw [ofWord, capitals]
  split
  · next label => exact .inl ⟨(Bool.and_eq_true_iff.mp label).1, rfl, rfl⟩
  · split
    · next label => exact .inl ⟨(Bool.and_eq_true_iff.mp label).1, rfl, rfl⟩
    · exact .inr rfl

/-- If the word ends before the text is cut off, it is the same.  A word up to the cut was no
label, since a label takes its colon. -/
theorem scanWord_of_append (within : (scanWord (c :: cs ++ rest)).tail ≤ cs.length) :
    scanWord (c :: cs) = scanWord (c :: cs ++ rest) := by
  rw [scanWord_eq_ofWord] at within
  rw [scanWord_eq_ofWord, scanWord_eq_ofWord]
  have inFront : ((c :: cs ++ rest).takeWhile isNameChar).length ≤ (c :: cs).length := by
    rcases ofWord_cases ((c :: cs ++ rest).takeWhile isNameChar)
        (((c :: cs ++ rest).drop ((c :: cs ++ rest).takeWhile isNameChar).length).head? == some ':')
      with ⟨-, -, tail⟩ | word
    · rw [tail] at within
      exact Nat.le_succ_of_le within
    · rw [word] at within
      exact Nat.le_succ_of_pred_le within
  have same := takeWhile_of_length_le inFront
  rw [same] at within inFront ⊢
  rw [List.drop_append_of_le_length inFront] at within ⊢
  generalize (c :: cs).takeWhile isNameChar = raw at within inFront ⊢
  cases behind : (c :: cs).drop raw.length with
  | cons d ds => rfl
  | nil =>
    have whole : cs.length < raw.length := List.drop_eq_nil_iff.mp behind
    rw [behind] at within
    rcases ofWord_cases raw (([] ++ rest).head? == some ':') with ⟨-, -, tail⟩ | word
    · omega
    · rw [word]
      rfl

/-- The character that begins a number still does if the text is cut off. -/
theorem startsNumber_append (starts : startsNumber c cs = true) :
    startsNumber c (cs ++ rest) = true := by
  cases cs with
  | cons d ds => exact starts
  | nil =>
    simp only [startsNumber, List.head?_nil, Option.any_none, Bool.and_false, Bool.or_false]
      at starts
    simp [startsNumber, starts]

/-- A token that ends before the text is cut off is the same.  A number of one character has
no sign, so its first character tells that it is one. -/
theorem scan_of_append {lexeme : Lexeme} (scanned : scan c (cs ++ rest) = .ok lexeme)
    (within : lexeme.tail ≤ cs.length) : scan c cs = .ok lexeme := by
  rw [scan] at scanned ⊢
  split at scanned
  · next opening => rw [if_pos opening, scanned]
  next noOpening =>
  split at scanned
  · next closing => rw [if_neg noOpening, if_pos closing, scanned]
  next noClosing =>
  split at scanned
  · next comma => rw [if_neg noOpening, if_neg noClosing, if_pos comma, scanned]
  next noComma =>
  rw [if_neg noOpening, if_neg noClosing, if_neg noComma]
  split at scanned
  · next operator => rw [if_pos operator, scanOperator_of_append scanned within]
  next noOperator =>
  rw [if_neg noOperator]
  split at scanned
  · next number =>
    have starts : startsNumber c cs = true := by
      cases cs with
      | cons d ds => exact number
      | nil =>
        obtain ⟨n, behind, shape, rfl⟩ := NumberText.exists_of_scanNumber scanned
        obtain ⟨d, ds, body, digitOrPoint⟩ := n.exists_body_eq_cons
        rw [NumberText.chars, body] at shape within
        have noSign : n.sign.chars = [] := by
          simp only [List.length_append, List.length_cons, List.length_nil] at within
          exact List.length_eq_zero_iff.mp (by omega)
        rw [noSign] at shape
        obtain rfl := (List.cons.inj shape).1
        exact NumberText.startsNumber_of_shape digitOrPoint []
    rw [if_pos starts, scanNumber_of_append scanned within]
  next noNumber =>
  rw [if_neg fun number => noNumber (startsNumber_append number)]
  split at scanned
  · next word =>
    cases scanned
    rw [if_pos word, scanWord_of_append within]
    rfl
  · cases scanned

end

end Lexeme

end MarketRules
