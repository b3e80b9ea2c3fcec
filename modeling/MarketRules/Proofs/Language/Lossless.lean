import MarketRules.Proofs.Language.Cuts
import MarketRules.Proofs.Language.FirstRefused

/-!
# Nothing is lost between characters and tokens

A text that can be cut into tokens is known from them up to blanks and letter case: each
token says where it stands and what is written there, and between two tokens there are
blanks only.  The texts of the tokens with single blanks between them are cut into the same
tokens again, since a token is read the same way when it stands alone and in upper case.

A text that cannot be cut is wrong at a place inside it, and the error quotes what is
written there.
-/

namespace MarketRules

/-! ## Letter case -/

namespace Lexeme

theorem isNameChar_toUpper (c : Char) : isNameChar c.toUpper = isNameChar c :=
  of_toUpper (P := fun c d => isNameChar d = isNameChar c) (by decide +kernel) (fun _ => rfl) c

theorem beginsWord_toUpper (c : Char) : beginsWord c.toUpper = beginsWord c :=
  of_toUpper (P := fun c d => beginsWord d = beginsWord c) (by decide +kernel) (fun _ => rfl) c

theorem isBlank_toUpper (c : Char) : isBlank c.toUpper = isBlank c :=
  of_toUpper (P := fun c d => isBlank d = isBlank c) (by decide +kernel) (fun _ => rfl) c

theorem toUpper_toUpper (c : Char) : c.toUpper.toUpper = c.toUpper :=
  of_toUpper (P := fun c d => d.toUpper = c.toUpper) (by decide +kernel) (fun _ => rfl) c

theorem toUpper_eq_colon (c : Char) : (c.toUpper == ':') = (c == ':') :=
  of_toUpper (P := fun c d => (d == ':') = (c == ':')) (by decide +kernel) (fun _ => rfl) c

theorem asciiUpper_asciiUpper (cs : List Char) : asciiUpper (asciiUpper cs) = asciiUpper cs := by
  rw [asciiUpper, asciiUpper, List.map_map]
  exact List.map_congr_left fun c _ => toUpper_toUpper c

/-- What a word is does not depend on its letter case. -/
theorem ofWord_asciiUpper (raw : List Char) (colon : Bool) :
    ofWord (asciiUpper raw) colon = ofWord raw colon := by
  have length : (asciiUpper raw).length = raw.length := List.length_map _
  rw [ofWord, ofWord, asciiUpper_asciiUpper, length]

/-- A word is the same token in any letter case. -/
theorem scanWord_asciiUpper (cs : List Char) : scanWord (asciiUpper cs) = scanWord cs := by
  have name : isNameChar ∘ Char.toUpper = isNameChar := funext isNameChar_toUpper
  have word : (asciiUpper cs).takeWhile isNameChar = asciiUpper (cs.takeWhile isNameChar) := by
    rw [asciiUpper, List.takeWhile_map, name]
    rfl
  have length : (asciiUpper (cs.takeWhile isNameChar)).length =
      (cs.takeWhile isNameChar).length := List.length_map _
  have colon : ∀ ds : List Char, ((asciiUpper ds).head? == some ':') = (ds.head? == some ':') := by
    rintro (_ | ⟨d, ds⟩)
    · rfl
    · exact toUpper_eq_colon d
  have behind (n : Nat) : (asciiUpper cs).drop n = asciiUpper (cs.drop n) := List.map_drop.symm
  rw [scanWord_eq_ofWord, scanWord_eq_ofWord, word, length, behind, colon, ofWord_asciiUpper]

/-! ## One token again -/

variable {lexeme : Lexeme} {raw : List Char}

/-- A token that stands alone is read from its text. -/
theorem Takes.text (takes : lexeme.Takes raw []) : lexeme.Takes lexeme.text [] := by
  rw [takes.text_eq]
  obtain ⟨c, cs, rfl, notBlank, scanned, tail⟩ := takes
  by_cases begins : beginsWord c = true
  · rw [textOf_of_beginsWord begins]
    refine ⟨c.toUpper, asciiUpper cs, rfl, ?_, ?_, ?_⟩
    · rw [isBlank_toUpper, notBlank]
    · rw [List.append_nil] at scanned ⊢
      rw [scan_of_beginsWord begins] at scanned
      rw [scan_of_beginsWord (by rw [beginsWord_toUpper, begins])]
      exact (congrArg Except.ok (scanWord_asciiUpper (c :: cs))).trans scanned
    · rw [tail]
      exact (List.length_map _).symm
  · rw [textOf_of_not_beginsWord (by simpa using begins)]
    exact ⟨c, cs, rfl, notBlank, scanned, tail⟩

/-- The text of a token that stands alone is read as the token. -/
theorem Takes.words?_text (takes : lexeme.Takes raw []) :
    words? (String.ofList lexeme.text) = some [lexeme.word] := by
  have words := takes.text.words
  rw [List.append_nil] at words
  rw [words?, String.toList_ofList, words]
  rfl

/-! ## Characters that are no token -/

section

variable {c : Char} {cs : List Char} {fault : Fault}

/-- The piece of a text that is quoted in front of `behind`.  It is all of the operator
characters that stand side by side; or the number that is read there with all the characters
of a word behind it, and a sign and a point alone if there are no digits; or one character. -/
def QuotedPiece (piece behind : List Char) : SyntaxFault → Prop
  | .unknownOperator =>
    piece ≠ [] ∧ (∀ c ∈ piece, isOperatorChar c = true) ∧
      ∀ c ∈ behind.head?, isOperatorChar c = false
  | .invalidNumber =>
    (∃ (n : NumberText) (tail : List Char), piece = n.chars ++ tail ∧ tail ≠ [] ∧
      n.chars.length = numberLength (piece ++ behind) ∧
      (∀ c ∈ tail, isNameChar c = true) ∧ ∀ c ∈ behind.head?, isNameChar c = false) ∨
    ∃ sign : SignText, piece = sign.chars ++ ['.'] ∧ ∀ c ∈ behind.head?, c.isDigit = false
  | .unexpectedCharacter => ∃ c, piece = [c]
  | _ => False

/-- Something is quoted in any case. -/
theorem QuotedPiece.ne_nil {piece behind : List Char} {fault : SyntaxFault}
    (quoted : QuotedPiece piece behind fault) : piece ≠ [] := by
  cases fault with
  | unknownOperator => exact quoted.1
  | invalidNumber =>
    rcases quoted with ⟨n, tail, rfl, goesOn, -⟩ | ⟨sign, rfl, -⟩
    · exact List.append_ne_nil_of_right_ne_nil _ goesOn
    · exact List.append_ne_nil_of_right_ne_nil _ (List.cons_ne_nil '.' [])
  | unexpectedCharacter =>
    obtain ⟨c, rfl⟩ := quoted
    exact List.cons_ne_nil c []
  | expected | trailing | tooDeep | tooLong => exact quoted.elim

/-- What follows the longest run of a class of characters is not of the class. -/
theorem stops_dropWhile (p : Char → Bool) (cs : List Char) :
    ∀ d ∈ (cs.dropWhile p).head?, p d = false := by
  intro d first
  have stops := List.head?_dropWhile_not p cs
  rwa [first] at stops

/-- What begins a number is a sign, which may be missing, in front of a digit or a point. -/
theorem exists_sign_of_startsNumber (starts : startsNumber c cs = true) :
    ∃ (sign : SignText) (d : Char) (ds : List Char), c :: cs = sign.chars ++ d :: ds ∧
      sign.chars.length = signLength (c :: cs) ∧ (d.isDigit = true ∨ d = '.') := by
  by_cases signed : c = '-' ∨ c = '+'
  · have next : ∃ d ∈ cs.head?, d.isDigit = true ∨ d = '.' := by
      rcases signed with rfl | rfl
      · simpa [startsNumber, Option.any_eq_true] using starts
      · simpa [startsNumber, Option.any_eq_true] using starts
    obtain ⟨d, first, shape⟩ := next
    obtain ⟨ds, rfl⟩ := List.head?_eq_some_iff.mp first
    rcases signed with rfl | rfl
    · exact ⟨.minus, d, ds, rfl, rfl, shape⟩
    · exact ⟨.plus, d, ds, rfl, rfl, shape⟩
  · have shape : c.isDigit = true ∨ c = '.' := by
      simp only [not_or] at signed
      simpa [startsNumber, signed.1, signed.2] using starts
    exact ⟨.none, c, cs, rfl, (if_neg signed).symm, shape⟩

/-- Where a number begins but has no digits, there is nothing of it but the sign and the
point. -/
theorem exists_point_of_digitless (starts : startsNumber c cs = true)
    (digitless : hasDigits (c :: cs) = false) : ∃ (sign : SignText) (behind : List Char),
      c :: cs = (sign.chars ++ ['.']) ++ behind ∧
        numberLength (c :: cs) = (sign.chars ++ ['.']).length ∧
        ∀ d ∈ behind.head?, d.isDigit = false := by
  obtain ⟨sign, d, behind, shape, length, first⟩ := exists_sign_of_startsNumber starts
  have body : (c :: cs).drop (signLength (c :: cs)) = d :: behind := by
    rw [← length, shape]
    exact List.drop_left
  have noDigit : ¬ d.isDigit = true := by
    intro digit
    have whole : (splitMantissa (d :: behind)).1 = d :: behind.takeWhile Char.isDigit := by
      unfold splitMantissa
      split <;> exact List.takeWhile_cons_of_pos digit
    rw [hasDigits, body] at digitless
    simp [whole] at digitless
  obtain rfl : d = '.' := first.resolve_left noDigit
  have split : splitMantissa ('.' :: behind) =
      ([], behind.takeWhile Char.isDigit, behind.dropWhile Char.isDigit) := rfl
  have noFraction : behind.takeWhile Char.isDigit = [] := by
    rw [hasDigits, body, split] at digitless
    simpa using digitless
  have whole : behind.dropWhile Char.isDigit = behind := by
    conv => rhs; rw [← List.takeWhile_append_dropWhile (p := Char.isDigit) (l := behind),
      noFraction, List.nil_append]
  refine ⟨sign, behind, by rw [shape, List.append_assoc]; rfl, ?_, ?_⟩
  · rw [numberLength, body, split, noFraction, whole]
    simp [← length]
  · rw [← whole]
    exact stops_dropWhile Char.isDigit behind

/-- Operator characters that are no operator are quoted together. -/
theorem quotedPiece_of_scanOperator_error (operator : isOperatorChar c = true)
    (refused : scanOperator (c :: cs) = .error fault) :
    ∃ behind, c :: cs = fault.2 ++ behind ∧ QuotedPiece fault.2 behind fault.1 := by
  rw [scanOperator] at refused
  split at refused
  · cases refused
  · cases refused
  · cases refused
    refine ⟨_, List.takeWhile_append_dropWhile.symm, ?_, ?_, stops_dropWhile isOperatorChar _⟩
    · rw [List.takeWhile_cons_of_pos operator]
      exact List.cons_ne_nil _ _
    · exact List.all_eq_true.mp List.all_takeWhile

/-- A number is quoted with the name characters behind it, or it is a point alone. -/
theorem quotedPiece_of_scanNumber_error (starts : startsNumber c cs = true)
    (refused : scanNumber (c :: cs) = .error fault) :
    ∃ behind, c :: cs = fault.2 ++ behind ∧ QuotedPiece fault.2 behind fault.1 := by
  rw [scanNumber] at refused
  split at refused
  · next digitless =>
    cases refused
    obtain ⟨sign, behind, shape, length, stops⟩ :=
      exists_point_of_digitless starts (by simpa using digitless)
    have quoted : (c :: cs).take (numberLength (c :: cs)) = sign.chars ++ ['.'] := by
      rw [length, shape]
      exact List.take_left
    refine ⟨behind, ?_, .inr ⟨sign, quoted, stops⟩⟩
    rw [quoted, ← shape]
  · next digits =>
    obtain ⟨n, rest, shape, length⟩ := NumberText.exists_of_hasDigits (by simpa using digits)
    have number : (c :: cs).take (numberLength (c :: cs)) = n.chars := by
      rw [length, shape]
      exact List.take_left
    have behind : (c :: cs).drop (numberLength (c :: cs)) = rest := by
      rw [length, shape]
      exact List.drop_left
    split at refused
    · next goesOn =>
      cases refused
      rw [behind] at goesOn
      have text : c :: cs = (n.chars ++ rest.takeWhile isNameChar) ++
          rest.dropWhile isNameChar := by
        rw [List.append_assoc, List.takeWhile_append_dropWhile, shape]
      refine ⟨rest.dropWhile isNameChar, ?_, .inl ⟨n, rest.takeWhile isNameChar, ?_, goesOn,
        ?_, List.all_eq_true.mp List.all_takeWhile, stops_dropWhile isNameChar rest⟩⟩
      · rw [number, behind, ← text]
      · rw [number, behind]
      · rw [number, behind, ← text, length]
    · cases refused

/-- The error quotes a piece of the text that begins where no token does. -/
theorem quotedPiece_of_scan_error (refused : scan c cs = .error fault) :
    ∃ behind, c :: cs = fault.2 ++ behind ∧ QuotedPiece fault.2 behind fault.1 := by
  rw [scan] at refused
  split at refused
  · cases refused
  split at refused
  · cases refused
  split at refused
  · cases refused
  split at refused
  · next operator => exact quotedPiece_of_scanOperator_error operator refused
  split at refused
  · next starts => exact quotedPiece_of_scanNumber_error starts refused
  split at refused
  · cases refused
  · cases refused
    exact ⟨cs, rfl, c, rfl⟩

end

end Lexeme

/-! ## The tokens of a text -/

namespace TokenStream

namespace Cut

variable {position : Nat} {cs : List Char} {ts : List Token}

/-- The tokens stand one behind the other, and the text ends behind the last. -/
theorem ordered (cut : Cut position cs ts) :
    (ts.map Token.position ++ [position + byteLength cs]).Pairwise (· < ·) ∧
      ∀ t ∈ ts, position ≤ t.position := by
  induction cut with
  | blanks blank => exact ⟨List.pairwise_singleton .., by simp⟩
  | @token position gap raw rest lexeme ts blank takes behind ih =>
    obtain ⟨sorted, after⟩ := ih
    have length : position + byteLength (gap ++ (raw ++ rest)) =
        position + byteLength gap + byteLength raw + byteLength rest := by
      rw [byteLength_append, byteLength_append, ← Nat.add_assoc, ← Nat.add_assoc]
    have positive := byteLength_pos takes.ne_nil
    rw [length]
    constructor
    · refine List.pairwise_cons.mpr ⟨fun p member => ?_, sorted⟩
      show position + byteLength gap < p
      rcases List.mem_append.mp member with token | stop
      · obtain ⟨t, inside, rfl⟩ := List.mem_map.mp token
        have later := after t inside
        omega
      · obtain rfl := List.mem_singleton.mp stop
        omega
    · refine List.forall_mem_cons.mpr ⟨Nat.le_add_right _ _, fun t inside => ?_⟩
      have later := after t inside
      omega

/-- Where a token stands, its characters are in the text, and in front of it are blanks up
to the token before.  Behind the last token are blanks up to the end. -/
theorem exists_characters (cut : Cut position cs ts) : ∀ {front : List Token} {t : Token}
    {back : List Token}, ts ++ [.endAt (position + byteLength cs)] = front ++ t :: back →
      ∃ before gap raw behind, cs = before ++ gap ++ raw ++ behind ∧
        (∀ c ∈ gap, isBlank c = true) ∧
        position + byteLength before = (front.getLast?.map Token.stop).getD position ∧
        position + byteLength (before ++ gap) = t.position ∧
        t.text = String.ofList (Lexeme.textOf raw) := by
  intro front t back shape
  rcases List.eq_nil_or_concat back with rfl | ⟨back, last, rfl⟩
  · obtain ⟨rfl, rfl⟩ : ts = front ∧ Token.endAt (position + byteLength cs) = t := by
      simpa using List.append_inj' shape rfl
    obtain ⟨before, gap, behind, rfl, blank, -, -, -, stop, -, last⟩ :=
      cut.exists_split (List.append_nil ts).symm
    obtain rfl := last rfl
    exact ⟨before, gap, [], [], by simp, blank, stop, by simp [Token.endAt], rfl⟩
  · have regrouped :
        ts ++ [.endAt (position + byteLength cs)] = (front ++ t :: back) ++ [last] := by
      simpa using shape
    obtain ⟨rfl, -⟩ := List.append_inj' regrouped rfl
    obtain ⟨before, gap, behind, rfl, blank, -, -, after, stop, start, -⟩ :=
      cut.exists_split rfl
    have place : t.position = position + byteLength before + byteLength gap := start t rfl
    rw [← place] at after
    obtain ⟨lexeme, raw, rest, rfl, takes, same⟩ := after.begins
    refine ⟨before, gap, raw, rest, by simp, blank, stop, ?_, ?_⟩
    · rw [byteLength_append, ← Nat.add_assoc, place]
    · rw [same]
      exact congrArg String.ofList takes.text_eq

/-- The text of a token is cut into this token alone. -/
theorem words?_text (cut : Cut position cs ts) : ∀ t ∈ ts, words? t.text = some [t.word] := by
  induction cut with
  | blanks blank => simp
  | @token position gap raw rest lexeme ts blank takes behind ih =>
    have inFront : lexeme.Takes raw ([] ++ rest) := takes
    exact List.forall_mem_cons.mpr ⟨inFront.cut_off.words?_text, ih⟩

end Cut

/-- Texts with blanks between them are cut one after the other. -/
theorem words?_intercalate {w : Token → List (TokenKind × String)} : ∀ {ts : List Token},
    (∀ t ∈ ts, words? t.text = some (w t)) →
      words? (" ".intercalate (ts.map Token.text)) = some (ts.flatMap w)
  | [], _ => rfl
  | [t], all => by simpa using all
  | t :: t' :: ts, all => by
    obtain ⟨first, later⟩ := List.forall_mem_cons.mp all
    have joined := words?_intercalate later
    rw [List.map_cons] at joined
    rw [List.map_cons, List.map_cons, String.intercalate_cons_cons, words?_append_blank, first,
      joined]
    rfl

/-- The text has the characters of `t`, of which words and labels are put in upper case, at
the place of `t`, and there are only blanks between them and the token `previous`. -/
def Quotes (text : String) (previous : Option Token) (t : Token) : Prop :=
  ∃ before gap raw behind : String, text = before ++ gap ++ raw ++ behind ∧
    (∀ c ∈ gap.toList, isBlank c = true) ∧
    before.utf8ByteSize = (previous.map Token.stop).getD 0 ∧
    (before ++ gap).utf8ByteSize = t.position ∧
    t.text = String.ofList (Lexeme.textOf raw.toList)

section

variable {text : String} {s : TokenStream}

theorem withEnd_of_ofText (tokenized : ofText text = .ok s) :
    s.withEnd = s.tokens ++ [.endAt text.utf8ByteSize] := by
  rw [withEnd, (cut_of_ofText tokenized).2]

/-- Every token quotes the text behind the blanks that follow the token before it. -/
theorem quotes_of_ofText (tokenized : ofText text = .ok s) {front : List Token} {t : Token}
    {back : List Token} (shape : s.withEnd = front ++ t :: back) :
    Quotes text front.getLast? t := by
  rw [withEnd_of_ofText tokenized, ← byteLength_toList, ← Nat.zero_add (byteLength _)] at shape
  obtain ⟨before, gap, raw, behind, chars, blank, stop, place, words⟩ :=
    (cut_of_ofText tokenized).1.exists_characters shape
  rw [Nat.zero_add] at stop place
  refine ⟨.ofList before, .ofList gap, .ofList raw, .ofList behind, ?_, ?_, ?_, ?_, ?_⟩
  · rw [← String.ofList_append, ← String.ofList_append, ← String.ofList_append, ← chars,
      String.ofList_toList]
  · rwa [String.toList_ofList]
  · rw [← byteLength_eq_utf8ByteSize, stop]
  · rw [← String.ofList_append, ← byteLength_eq_utf8ByteSize, place]
  · rwa [String.toList_ofList]

/-- The texts of the tokens can be read in place of the text, and an empty text at the end
says nothing. -/
theorem ofText_intercalate (tokenized : ofText text = .ok s) {ts : List Token}
    (listed : ts ∈ [s.tokens, s.withEnd]) :
    ∃ s', ofText (" ".intercalate (ts.map Token.text)) = .ok s' ∧
      s'.tokens.map Token.word = s.tokens.map Token.word := by
  let w (t : Token) := if t.kind = .endOfInput then [] else [t.word]
  have alone : ∀ t ∈ s.tokens, w t = [t.word] :=
    fun t inside => if_neg (kind_ne_endOfInput tokenized t inside)
  have read : ∀ t ∈ s.tokens, words? t.text = some (w t) := by
    intro t inside
    rw [alone t inside]
    exact (cut_of_ofText tokenized).1.words?_text t inside
  have words : s.tokens.flatMap w = s.tokens.map Token.word := by
    rw [List.map_eq_flatMap, List.flatMap_def, List.flatMap_def, List.map_congr_left alone]
  simp only [List.mem_cons, List.not_mem_nil, or_false] at listed
  rcases listed with rfl | rfl
  · exact words?_eq_some_iff.mp (words ▸ words?_intercalate read)
  · have readEnd : ∀ t ∈ s.withEnd, words? t.text = some (w t) :=
      List.forall_mem_append.mpr ⟨read, by rintro t ⟨⟩ <;> trivial⟩
    have whole : s.withEnd.flatMap w = s.tokens.map Token.word := by
      rw [withEnd, List.flatMap_append, words]
      exact List.append_nil _
    exact words?_eq_some_iff.mp (whole ▸ words?_intercalate readEnd)

end

/-- A text that cannot be cut has tokens up to a character that begins none. -/
theorem cut_of_lexFrom_error {e : SyntaxError} {cs : List Char} : ∀ {position skip : Nat},
    lexFrom position skip cs = .error e → skip ≤ cs.length →
      ∃ before ts c rest raw, cs.drop skip = before ++ c :: rest ∧
        Cut (position + byteLength (cs.take skip)) before ts ∧
        Lexeme.scan c rest = .error (e.fault, raw) ∧ e.token = String.ofList raw ∧
        e.position = position + byteLength (cs.take skip) + byteLength before := by
  induction cs with
  | nil =>
    intro position skip refused
    cases refused
  | cons c cs ih =>
    intro position skip refused within
    cases skip with
    | succ skip =>
      obtain ⟨before, ts, d, rest, raw, shape, cut, scanned, quoted, place⟩ :=
        ih refused (Nat.le_of_succ_le_succ within)
      rw [Nat.add_assoc position] at cut place
      exact ⟨before, ts, d, rest, raw, shape, cut, scanned, quoted, place⟩
    | zero =>
      rw [lexFrom] at refused
      split at refused
      · next blank =>
        obtain ⟨before, ts, d, rest, raw, shape, cut, scanned, quoted, place⟩ :=
          ih refused (Nat.zero_le _)
        have single : ∀ d ∈ [c], isBlank d = true := by simpa using blank
        refine ⟨c :: before, ts, d, rest, raw, congrArg (c :: ·) shape, cut.behind_blanks single,
          scanned, quoted, ?_⟩
        rw [place]
        exact Nat.add_assoc position c.utf8Size _
      next notBlank =>
      cases scanned : Lexeme.scan c cs with
      | error fault =>
        rw [scanned] at refused
        cases refused
        exact ⟨[], [], c, cs, fault.2, rfl, .blanks (List.forall_mem_nil _), scanned, rfl, rfl⟩
      | ok lexeme =>
        rw [scanned] at refused
        dsimp only at refused
        cases read : lexFrom (position + c.utf8Size) lexeme.tail cs with
        | ok s =>
          rw [read] at refused
          cases refused
        | error e' =>
          rw [read] at refused
          cases refused
          obtain ⟨before, ts, d, rest, raw, shape, cut, later, quoted, place⟩ :=
            ih read (Lexeme.scan_tail_le scanned)
          have takes := Lexeme.Takes.of_scan (Bool.not_eq_true _ ▸ notBlank) scanned
          rw [shape] at takes
          have whole : c :: cs = c :: cs.take lexeme.tail ++ before ++ d :: rest := by
            rw [List.append_assoc, ← shape, List.cons_append, List.take_append_drop]
          refine ⟨_, _, d, rest, raw, whole, .behind_token takes.cut_off cut, later, quoted, ?_⟩
          rw [place, byteLength_append, Nat.add_assoc position, Nat.add_assoc position]
          rfl

/-- A text that cannot be cut is cut up to a character where no token is found. -/
theorem cut_of_ofText_error {text : String} {e : SyntaxError} (refused : ofText text = .error e) :
    ∃ before ts c rest raw, text.toList = before ++ c :: rest ∧ Cut 0 before ts ∧
      Lexeme.scan c rest = .error (e.fault, raw) ∧ e.token = String.ofList raw ∧
      e.position = byteLength before := by
  obtain ⟨before, ts, c, rest, raw, shape, cut, scanned, quoted, place⟩ :=
    cut_of_lexFrom_error refused (Nat.zero_le _)
  exact ⟨before, ts, c, rest, raw, shape, cut, scanned, quoted, place.trans (Nat.zero_add _)⟩

/-- A text that cannot be cut is wrong in front of its end, and the error quotes it. -/
theorem quotes_of_ofText_error {text : String} {e : SyntaxError}
    (refused : ofText text = .error e) :
    ∃ before behind : String, text = before ++ e.token ++ behind ∧
      before.utf8ByteSize = e.position ∧ e.position < text.utf8ByteSize ∧
      Lexeme.QuotedPiece e.token.toList behind.toList e.fault := by
  obtain ⟨before, ts, c, cs, raw, chars, -, scanned, quoted, place⟩ := cut_of_ofText_error refused
  obtain ⟨rest, whole, piece⟩ := Lexeme.quotedPiece_of_scan_error scanned
  have shape : text = .ofList before ++ e.token ++ .ofList rest := by
    rw [← String.toList_inj, chars, whole, quoted]
    simp
  rw [byteLength_eq_utf8ByteSize] at place
  have positive := byteLength_pos piece.ne_nil
  rw [byteLength_eq_utf8ByteSize, ← quoted] at positive
  refine ⟨.ofList before, .ofList rest, shape, place.symm, ?_, ?_⟩
  · rw [shape, String.utf8ByteSize_append, String.utf8ByteSize_append, place]
    omega
  · rwa [quoted, String.toList_ofList, String.toList_ofList]

/-- The tokens of a text stand one behind the other and quote all of it but blanks, one end
stands behind them, and their texts with single blanks between them are cut into the same
tokens.  A text that cannot be cut is wrong in front of its end, and the error quotes the
piece that begins there and makes up the fault. -/
theorem ofText_keeps_characters (text : String) :
    (∀ s, ofText text = .ok s →
      (∀ t ∈ s.tokens, t.kind ≠ .endOfInput) ∧
      s.withEnd = s.tokens ++ [.endAt text.utf8ByteSize] ∧
      (s.withEnd.map Token.position).Pairwise (· < ·) ∧
      (∀ front t back, s.withEnd = front ++ t :: back → Quotes text front.getLast? t) ∧
      ∀ ts ∈ [s.tokens, s.withEnd], ∃ s', ofText (" ".intercalate (ts.map Token.text)) = .ok s' ∧
        s'.withEnd.map Token.word = s.withEnd.map Token.word) ∧
    ∀ e, ofText text = .error e →
      ∃ before behind : String, text = before ++ e.token ++ behind ∧
        before.utf8ByteSize = e.position ∧ e.position < text.utf8ByteSize ∧ e.token ≠ "" ∧
        Lexeme.QuotedPiece e.token.toList behind.toList e.fault := by
  constructor
  · intro s tokenized
    refine ⟨kind_ne_endOfInput tokenized, withEnd_of_ofText tokenized, ?_,
      fun front t back shape => quotes_of_ofText tokenized shape, ?_⟩
    · have sorted := (cut_of_ofText tokenized).1.ordered.1
      rw [Nat.zero_add, byteLength_toList] at sorted
      rwa [withEnd_of_ofText tokenized, List.map_append]
    · intro ts listed
      obtain ⟨s', read, words⟩ := ofText_intercalate tokenized listed
      refine ⟨s', read, ?_⟩
      rw [withEnd, withEnd, List.map_append, List.map_append, words]
      rfl
  · intro e refused
    obtain ⟨before, behind, shape, place, inside, piece⟩ := quotes_of_ofText_error refused
    refine ⟨before, behind, shape, place, inside, fun empty => piece.ne_nil ?_, piece⟩
    rw [empty, String.toList_empty]

/-- A blank of three bytes is passed over, and a mark that is no operator is quoted. -/
theorem wide_blank_passed_lone_mark_quoted :
    (∃ s, ofText "Entry:\u3000close>=1E2" = .ok s ∧
      Quotes "Entry:\u3000close>=1E2" (some ⟨.entryLabel, "ENTRY:", 0⟩)
        ⟨.field .closing, "CLOSE", 9⟩ ∧
      ∃ s', ofText "ENTRY: CLOSE >= 1E2" = .ok s' ∧
        s'.withEnd.map Token.word = s.withEnd.map Token.word) ∧
      ∃ e, ofText "close\u00a0! 1" = .error e ∧ e.position < 10 ∧
        ∃ before behind, "close\u00a0! 1" = before ++ e.token ++ behind := by
  constructor
  · let label : Token := ⟨.entryLabel, "ENTRY:", 0⟩
    let later : List Token :=
      [⟨.field .closing, "CLOSE", 9⟩, ⟨.operator .atLeast, ">=", 14⟩, ⟨.number, "1E2", 16⟩]
    have tokenized : ofText "Entry:\u3000close>=1E2" = .ok ⟨label :: later, 19⟩ := by rfl
    obtain ⟨-, -, -, quotes, again⟩ := (ofText_keeps_characters _).1 _ tokenized
    exact ⟨_, tokenized, quotes [label] _ _ rfl, again (label :: later) (List.mem_cons_self ..)⟩
  · have refused : ofText "close\u00a0! 1" = .error ⟨.unknownOperator, "!", 7⟩ := by rfl
    obtain ⟨before, behind, shape, -⟩ := (ofText_keeps_characters _).2 _ refused
    exact ⟨_, refused, by decide, before, behind, shape⟩

end TokenStream

end MarketRules
