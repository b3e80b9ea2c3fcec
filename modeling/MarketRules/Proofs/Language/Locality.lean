import MarketRules.Proofs.Language.Spelling

/-!
# A delimiter ends a token

No token reaches over a blank, a parenthesis or a comma.  So a text in front of one of
these is cut into tokens as if it stood alone, and what begins there as if it began a text.
Only the places of the tokens move, and what a token says besides its place is its `word`.
-/

namespace MarketRules

/-! ## One token in front of a delimiter -/

section

variable {p : Char → Bool} {rest : List Char} (cs : List Char)

theorem takeWhile_append_of_stops (stops : ∀ c ∈ rest.head?, p c = false) :
    (cs ++ rest).takeWhile p = cs.takeWhile p := by
  induction cs with
  | nil => exact takeWhile_run_append (fun c member => absurd member List.not_mem_nil) stops
  | cons c cs ih => rw [List.cons_append, List.takeWhile_cons, List.takeWhile_cons, ih]

theorem dropWhile_append_of_stops (stops : ∀ c ∈ rest.head?, p c = false) :
    (cs ++ rest).dropWhile p = cs.dropWhile p ++ rest := by
  induction cs with
  | nil => exact dropWhile_run_append (fun c member => absurd member List.not_mem_nil) stops
  | cons c cs ih =>
    rw [List.cons_append, List.dropWhile_cons, List.dropWhile_cons, ih]
    split <;> rfl

theorem head?_append_any_of_stops (stops : ∀ c ∈ rest.head?, p c = false) :
    (cs ++ rest).head?.any p = cs.head?.any p := by
  cases cs with
  | nil =>
    cases rest with
    | nil => rfl
    | cons c rest => exact stops c rfl
  | cons c cs => rfl

theorem Delimited.not_isDigit (delimited : Delimited rest) :
    ∀ c ∈ rest.head?, c.isDigit = false :=
  delimited.forall_head (by decide)

theorem Delimited.not_isNameChar (delimited : Delimited rest) :
    ∀ c ∈ rest.head?, Lexeme.isNameChar c = false :=
  delimited.forall_head (by decide)

/-- The digits before and behind the point lie in front of the delimiter. -/
theorem splitMantissa_append_delimited (delimited : Delimited rest) :
    splitMantissa (cs ++ rest) =
      ((splitMantissa cs).1, (splitMantissa cs).2.1, (splitMantissa cs).2.2 ++ rest) := by
  have noPoint : ∀ c ∈ rest.head?, c ≠ '.' := delimited.forall_head (by decide)
  have noDigit := delimited.not_isDigit
  rw [splitMantissa, splitMantissa, dropWhile_append_of_stops cs noDigit,
    takeWhile_append_of_stops cs noDigit]
  cases cs.dropWhile Char.isDigit with
  | nil =>
    rw [List.nil_append]
    split
    · next behind => exact absurd rfl (noPoint '.' rfl)
    · rfl
  | cons c ds =>
    by_cases point : c = '.'
    · subst point
      simp only [List.cons_append, takeWhile_append_of_stops ds noDigit,
        dropWhile_append_of_stops ds noDigit]
    · simp [point]

theorem splitMantissa_rest_length_le : (splitMantissa cs).2.2.length ≤ cs.length := by
  have shorter := (List.dropWhile_suffix Char.isDigit (l := cs)).length_le
  rw [splitMantissa]
  split
  · next ds begins =>
    rw [begins, List.length_cons] at shorter
    have behindPoint := (List.dropWhile_suffix Char.isDigit (l := ds)).length_le
    exact Nat.le_trans behindPoint (Nat.le_of_succ_le shorter)
  · exact shorter

end

/-- No comparison is written with a delimiter at its end. -/
theorem CompareOp.ofName?_delimiter (c : Char) {d : Char}
    (delimiter : d ∈ [' ', '(', ')', ',']) : ofName? (String.ofList [c, d]) = none := by
  rw [ofName?, List.find?_eq_none]
  intro op _ named
  rw [Bool.or_eq_true, beq_iff_eq, sameIgnoringAsciiCase, beq_iff_eq, String.toList_ofList] at named
  simp only [List.mem_cons, List.not_mem_nil, or_false] at delimiter
  rcases named with symbol | word
  · have chars := congrArg String.toList symbol
    rw [String.toList_ofList] at chars
    rcases delimiter with rfl | rfl | rfl | rfl <;> cases op <;> simp [CompareOp.symbol] at chars
  · rcases delimiter with rfl | rfl | rfl | rfl <;> cases op <;> simp [CompareOp.word] at word

namespace Lexeme

section

variable {rest : List Char} (cs : List Char)

/-- A sign is the same in front of a delimiter. -/
theorem signLength_append_delimited (delimited : Delimited rest) :
    signLength (cs ++ rest) = signLength cs := by
  cases cs with
  | cons c cs => rfl
  | nil =>
    have noSign := delimited.forall_head (p := fun c => ¬ (c = '-' ∨ c = '+')) (by decide)
    cases rest with
    | nil => rfl
    | cons c rest => exact if_neg (noSign c rfl)

theorem signLength_le : signLength cs ≤ cs.length := by
  cases cs with
  | nil => exact Nat.le_refl 0
  | cons c cs =>
    rw [signLength]
    split
    · exact Nat.succ_le_succ (Nat.zero_le _)
    · exact Nat.zero_le _

theorem drop_signLength_append :
    (cs ++ rest).drop (signLength cs) = cs.drop (signLength cs) ++ rest :=
  List.drop_append_of_le_length (signLength_le cs)

/-- An exponent is the same in front of a delimiter. -/
theorem exponentLength_append_delimited (delimited : Delimited rest) :
    exponentLength (cs ++ rest) = exponentLength cs := by
  cases cs with
  | nil => exact exponentLength_of_delimited delimited
  | cons c cs =>
    rw [List.cons_append, exponentLength, exponentLength, signLength_append_delimited cs delimited,
      drop_signLength_append, takeWhile_append_of_stops _ delimited.not_isDigit]

theorem exponentLength_le : exponentLength cs ≤ cs.length := by
  cases cs with
  | nil => exact Nat.le_refl 0
  | cons c cs =>
    have sign := signLength_le cs
    have digits := (List.takeWhile_prefix Char.isDigit (l := cs.drop (signLength cs))).length_le
    rw [List.length_drop] at digits
    rw [exponentLength, List.length_cons]
    split <;> omega

/-- A number has the same length in front of a delimiter. -/
theorem numberLength_append_delimited (delimited : Delimited rest) :
    numberLength (cs ++ rest) = numberLength cs := by
  simp only [numberLength, signLength_append_delimited cs delimited, drop_signLength_append,
    splitMantissa_append_delimited _ delimited, exponentLength_append_delimited _ delimited,
    List.length_append, Nat.add_sub_add_right]

theorem numberLength_le : numberLength cs ≤ cs.length := by
  have sign := signLength_le cs
  have mantissa := splitMantissa_rest_length_le (cs.drop (signLength cs))
  have exponent := exponentLength_le (splitMantissa (cs.drop (signLength cs))).2.2
  rw [List.length_drop] at mantissa
  rw [numberLength, List.length_drop]
  generalize splitMantissa (cs.drop (signLength cs)) = parts at mantissa exponent ⊢
  obtain ⟨whole, fraction, rest⟩ := parts
  dsimp only at mantissa exponent ⊢
  split <;> omega

theorem hasDigits_append_delimited (delimited : Delimited rest) :
    hasDigits (cs ++ rest) = hasDigits cs := by
  rw [hasDigits, hasDigits, signLength_append_delimited cs delimited, drop_signLength_append,
    splitMantissa_append_delimited _ delimited]

/-- A number is the same token in front of a delimiter. -/
theorem scanNumber_append_delimited (delimited : Delimited rest) :
    scanNumber (cs ++ rest) = scanNumber cs := by
  rw [scanNumber, scanNumber, numberLength_append_delimited cs delimited,
    hasDigits_append_delimited cs delimited, List.take_append_of_le_length (numberLength_le cs),
    List.drop_append_of_le_length (numberLength_le cs),
    takeWhile_append_of_stops _ delimited.not_isNameChar]

/-- An operator is the same in front of a delimiter.  With it one character makes no operator
of two. -/
theorem scanOperator_append_delimited (c : Char) (delimited : Delimited rest) :
    scanOperator (c :: (cs ++ rest)) = scanOperator (c :: cs) := by
  have stops := delimited.forall_head (p := (isOperatorChar · = false)) (by decide)
  have faulty := takeWhile_append_of_stops (c :: cs) stops
  cases cs with
  | cons d ds =>
    rw [scanOperator, scanOperator, ← List.cons_append, faulty]
    rfl
  | nil =>
    cases rest with
    | nil => rfl
    | cons d ds =>
      have noTwo := CompareOp.ofName?_delimiter c
        (delimited.forall_head (p := (· ∈ [' ', '(', ')', ','])) (by decide) d rfl)
      have two : (c :: ([] ++ d :: ds)).take 2 = [c, d] := rfl
      have one : (c :: ([] ++ d :: ds)).take 1 = [c] := rfl
      have aloneTwo : [c].take 2 = [c] := rfl
      have aloneOne : [c].take 1 = [c] := rfl
      rw [scanOperator, scanOperator, two, one, noTwo, aloneTwo, aloneOne]
      cases CompareOp.ofName? (String.ofList [c]) with
      | some op => rfl
      | none => exact congrArg (fun text => Except.error (SyntaxFault.unknownOperator, text)) faulty

/-- A word is the same token in front of a delimiter. -/
theorem scanWord_append_delimited (delimited : Delimited rest) :
    scanWord (cs ++ rest) = scanWord cs := by
  have reached := (List.takeWhile_prefix isNameChar (l := cs)).length_le
  have noColon := delimited.forall_head (p := (· ≠ ':')) (by decide)
  have colon (ds : List Char) : ((ds ++ rest).head? == some ':') = (ds.head? == some ':') := by
    cases ds with
    | cons d ds => rfl
    | nil =>
      cases rest with
      | nil => rfl
      | cons d rest => simpa using noColon d rfl
  rw [scanWord, scanWord, takeWhile_append_of_stops _ delimited.not_isNameChar,
    List.drop_append_of_le_length reached, colon]

/-- A token is the same whether a delimiter or the end of the text follows. -/
theorem scan_append_delimited (c : Char) (delimited : Delimited rest) :
    scan c (cs ++ rest) = scan c cs := by
  have number : startsNumber c (cs ++ rest) = startsNumber c cs := by
    rw [startsNumber, startsNumber, head?_append_any_of_stops]
    exact delimited.forall_head (by decide)
  rw [scan, scan, scanOperator_append_delimited cs c delimited, number, ← List.cons_append,
    scanNumber_append_delimited _ delimited, scanWord_append_delimited _ delimited]

end

/-! ### A token stays within its text -/

section

variable {c : Char} {cs : List Char} {lexeme : Lexeme}

theorem scanOperator_tail_le (scanned : scanOperator (c :: cs) = .ok lexeme) :
    lexeme.tail ≤ cs.length := by
  rw [scanOperator] at scanned
  split at scanned <;> cases scanned
  · have := List.length_take_le 2 (c :: cs)
    have := List.length_take_le' 2 (c :: cs)
    simp only [symbol, List.length_cons] at *
    omega
  · simp [symbol]

theorem scanNumber_tail_le (scanned : scanNumber (c :: cs) = .ok lexeme) :
    lexeme.tail ≤ cs.length := by
  rw [scanNumber] at scanned
  split at scanned
  · cases scanned
  · split at scanned <;> cases scanned
    have := List.length_take_le' (numberLength (c :: cs)) (c :: cs)
    rw [List.length_cons] at this
    dsimp only
    omega

/-- A word with its label ends within the text.  Where a colon follows, the word alone does
not reach the end. -/
theorem scanWord_tail_le (c : Char) (cs : List Char) : (scanWord (c :: cs)).tail ≤ cs.length := by
  let raw := (c :: cs).takeWhile isNameChar
  have reached : raw.length ≤ cs.length + 1 := (List.takeWhile_prefix isNameChar).length_le
  have beforeColon (colon : (((c :: cs).drop raw.length).head? == some ':') = true) :
      raw.length ≤ cs.length := by
    refine Nat.le_of_not_lt fun past => ?_
    have atEnd : (c :: cs).drop raw.length = [] :=
      List.drop_eq_nil_of_le (by rw [List.length_cons]; omega)
    rw [atEnd] at colon
    cases colon
  rw [scanWord]
  split
  · next label => exact beforeColon (Bool.and_eq_true_iff.mp label).1
  · split
    · next label => exact beforeColon (Bool.and_eq_true_iff.mp label).1
    · show raw.length - 1 ≤ cs.length
      omega

/-- A token ends within the text. -/
theorem scan_tail_le (scanned : scan c cs = .ok lexeme) : lexeme.tail ≤ cs.length := by
  rw [scan] at scanned
  split at scanned
  · cases scanned
    exact Nat.zero_le _
  split at scanned
  · cases scanned
    exact Nat.zero_le _
  split at scanned
  · cases scanned
    exact Nat.zero_le _
  split at scanned
  · exact scanOperator_tail_le scanned
  split at scanned
  · exact scanNumber_tail_le scanned
  split at scanned <;> cases scanned
  exact scanWord_tail_le c cs

end

end Lexeme

/-! ## Words -/

/-- What a token says besides its place. -/
def Token.word (t : Token) : TokenKind × String := (t.kind, t.text)

/-- The words of a text of which the first `skip` characters are passed over, if it can
be cut into tokens. -/
def wordsFrom? (skip : Nat) : List Char → Option (List (TokenKind × String))
  | [] => some []
  | c :: cs =>
    match skip with
    | skip + 1 => wordsFrom? skip cs
    | 0 =>
      if isBlank c then wordsFrom? 0 cs
      else
        match Lexeme.scan c cs with
        | .error _ => none
        | .ok lexeme =>
          (wordsFrom? lexeme.tail cs).map ((lexeme.kind, String.ofList lexeme.text) :: ·)
termination_by structural cs => cs

/-- The words of a text. -/
def words? (text : String) : Option (List (TokenKind × String)) := wordsFrom? 0 text.toList

/-- The words do not depend on the place of the text. -/
theorem wordsFrom?_eq_some_iff {cs : List Char} {ws : List (TokenKind × String)} :
    ∀ position skip : Nat, wordsFrom? skip cs = some ws ↔
      ∃ s, TokenStream.lexFrom position skip cs = .ok s ∧ s.tokens.map Token.word = ws := by
  induction cs generalizing ws with
  | nil =>
    intro position skip
    rw [wordsFrom?, TokenStream.lexFrom]
    constructor
    · rintro ⟨⟩
      exact ⟨_, rfl, rfl⟩
    · rintro ⟨s, ⟨⟩, rfl⟩
      rfl
  | cons c cs ih =>
    intro position skip
    cases skip with
    | succ skip => exact ih _ skip
    | zero =>
      rw [wordsFrom?, TokenStream.lexFrom]
      split
      · exact ih _ 0
      · cases scanned : Lexeme.scan c cs with
        | error fault =>
          constructor
          · rintro ⟨⟩
          · rintro ⟨s, ⟨⟩, -⟩
        | ok lexeme =>
          dsimp only
          rw [Option.map_eq_some_iff]
          constructor
          · rintro ⟨ws, found, rfl⟩
            obtain ⟨s, read, rfl⟩ := (ih (position + c.utf8Size) lexeme.tail).mp found
            rw [read]
            exact ⟨_, rfl, rfl⟩
          · rintro ⟨s, mapped, rfl⟩
            cases read : TokenStream.lexFrom (position + c.utf8Size) lexeme.tail cs with
            | error e =>
              rw [read] at mapped
              cases mapped
            | ok s' =>
              rw [read] at mapped
              cases mapped
              exact ⟨_, (ih _ _).mpr ⟨s', read, rfl⟩, rfl⟩

theorem words?_eq_some_iff {text : String} {ws : List (TokenKind × String)} :
    words? text = some ws ↔
      ∃ s, TokenStream.ofText text = .ok s ∧ s.tokens.map Token.word = ws :=
  wordsFrom?_eq_some_iff 0 0

/-- A delimiter splits a text into two that are read on their own. -/
theorem wordsFrom?_append_delimited {cs rest : List Char} (delimited : Delimited rest) :
    ∀ {skip : Nat}, skip ≤ cs.length →
      wordsFrom? skip (cs ++ rest) =
        (wordsFrom? skip cs).bind fun ws => (wordsFrom? 0 rest).map (ws ++ ·) := by
  induction cs with
  | nil =>
    intro skip within
    obtain rfl := Nat.le_zero.mp within
    show wordsFrom? 0 rest = (wordsFrom? 0 rest).map ([] ++ ·)
    simp
  | cons c cs ih =>
    intro skip within
    cases skip with
    | succ skip => exact ih (Nat.le_of_succ_le_succ within)
    | zero =>
      rw [List.cons_append, wordsFrom?, wordsFrom?]
      split
      · exact ih (Nat.zero_le _)
      · rw [Lexeme.scan_append_delimited cs c delimited]
        cases scanned : Lexeme.scan c cs with
        | error fault => rfl
        | ok lexeme =>
          dsimp only
          rw [ih (Lexeme.scan_tail_le scanned)]
          cases wordsFrom? lexeme.tail cs with
          | none => rfl
          | some ws => cases wordsFrom? 0 rest <;> rfl

/-- With a blank between two texts, the words are those of both. -/
theorem words?_append_blank (text rest : String) :
    words? (text ++ " " ++ rest) =
      (words? text).bind fun ws => (words? rest).map (ws ++ ·) := by
  have chars : (text ++ " " ++ rest).toList = text.toList ++ ' ' :: rest.toList := by
    simp
  have passed : wordsFrom? 0 (' ' :: rest.toList) = wordsFrom? 0 rest.toList := rfl
  rw [words?, chars, wordsFrom?_append_delimited (delimited_blank _) (Nat.zero_le _), passed]
  rfl

end MarketRules
