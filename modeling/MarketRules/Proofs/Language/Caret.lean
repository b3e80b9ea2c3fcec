import MarketRules.Proofs.Language.Lossless
import MarketRules.Proofs.Language.FirstRefused

/-!
# The caret under a syntax error

A text that is refused is cut into tokens up to the place of the error
(`StrategyTree.arises_of_refused`).  Places are counted in bytes, and the caret stands
behind as many spaces.  The characters of a token have one byte each, so the caret is in
the column of the error unless there is a blank of several bytes in front of it; then it is
too far to the right (`StrategyTree.caret_stands_at_byte`).
-/

namespace MarketRules

/-! ## Characters of several bytes -/

/-- The ASCII characters are those of one byte. -/
theorem utf8Size_eq_one_iff {c : Char} : c.utf8Size = 1 ↔ c.toNat < 128 := by
  rw [Char.utf8Size_eq_one_iff, UInt32.le_iff_toNat_le]
  exact Nat.lt_succ_iff.symm

theorem length_le_byteLength (cs : List Char) : cs.length ≤ byteLength cs := by
  induction cs with
  | nil => exact Nat.le_refl _
  | cons c cs ih =>
    have positive := c.utf8Size_pos
    show cs.length + 1 ≤ c.utf8Size + byteLength cs
    omega

/-- A text has as many bytes as characters exactly if it is ASCII. -/
theorem byteLength_eq_length_iff {cs : List Char} :
    byteLength cs = cs.length ↔ ∀ c ∈ cs, c.toNat < 128 := by
  induction cs with
  | nil => exact ⟨fun _ => List.forall_mem_nil _, fun _ => rfl⟩
  | cons c cs ih =>
    have positive := c.utf8Size_pos
    have enough := length_le_byteLength cs
    rw [List.forall_mem_cons, ← ih, ← utf8Size_eq_one_iff]
    show c.utf8Size + byteLength cs = cs.length + 1 ↔ _
    omega

/-- The names of operators are ASCII. -/
theorem CompareOp.ascii_of_ofName? {s : String} {op : CompareOp} (named : ofName? s = some op) :
    ∀ c ∈ s.toList, c.toNat < 128 := by
  have said := List.find?_some named
  rw [Bool.or_eq_true, beq_iff_eq, sameIgnoringAsciiCase, beq_iff_eq] at said
  rcases said with rfl | word
  · cases op <;> decide
  · intro c member
    have letters : ∀ d ∈ op.word.toList.map Char.toLower, d.toNat < 128 := by cases op <;> decide
    exact toNat_lt_of_toLower (letters _ (word ▸ List.mem_map_of_mem member))

namespace Lexeme

variable {c : Char} {cs raw rest : List Char} {lexeme : Lexeme}

theorem ascii_of_isNameChar (name : isNameChar c = true) : c.toNat < 128 := by
  change (((c.isUpper || c.isLower) || c.isDigit) || c == '_') = true at name
  rw [Bool.or_eq_true, Bool.or_eq_true, Bool.or_eq_true, beq_iff_eq] at name
  rcases name with ((upper | lower) | digit) | rfl
  · exact Nat.lt_of_le_of_lt (toNat_of_isUpper upper).2 (by decide)
  · exact Nat.lt_of_le_of_lt (toNat_of_isLower lower).2 (by decide)
  · exact Nat.lt_of_le_of_lt (toNat_of_isDigit digit).2 (by decide)
  · decide

theorem ascii_asciiUpper_iff : (∀ c ∈ asciiUpper cs, c.toNat < 128) ↔ ∀ c ∈ cs, c.toNat < 128 := by
  rw [← byteLength_eq_length_iff, ← byteLength_eq_length_iff, byteLength_asciiUpper, asciiUpper,
    List.length_map]

theorem ascii_textOf_iff : (∀ c ∈ textOf raw, c.toNat < 128) ↔ ∀ c ∈ raw, c.toNat < 128 := by
  rw [textOf]
  split
  · exact ascii_asciiUpper_iff
  · exact Iff.rfl

/-- The text of a token has as many characters as are written. -/
theorem length_textOf (raw : List Char) : (textOf raw).length = raw.length := by
  rw [textOf]
  split
  · exact List.length_map _
  · rfl

theorem ascii_scanWord (cs : List Char) : ∀ c ∈ (scanWord cs).text, c.toNat < 128 := by
  have word : ∀ c ∈ cs.takeWhile isNameChar, c.toNat < 128 :=
    fun c member => ascii_of_isNameChar (List.all_eq_true.mp List.all_takeWhile c member)
  rw [scanWord_eq_ofWord]
  rcases ofWord_cases (cs.takeWhile isNameChar)
      ((cs.drop (cs.takeWhile isNameChar).length).head? == some ':') with ⟨-, text, -⟩ | same
  · rw [text, ascii_asciiUpper_iff]
    exact List.forall_mem_append.mpr ⟨word, by decide⟩
  · rw [same, ascii_asciiUpper_iff]
    exact word

/-- Every token is ASCII. -/
theorem ascii_of_scan (scanned : scan c cs = .ok lexeme) : ∀ d ∈ lexeme.text, d.toNat < 128 := by
  rw [scan] at scanned
  split at scanned
  · cases scanned
    decide
  split at scanned
  · cases scanned
    decide
  split at scanned
  · cases scanned
    decide
  split at scanned
  · rw [scanOperator] at scanned
    split at scanned
    · next two =>
      cases scanned
      have ascii := CompareOp.ascii_of_ofName? two
      rwa [String.toList_ofList] at ascii
    · next one =>
      cases scanned
      have ascii := CompareOp.ascii_of_ofName? one
      rwa [String.toList_ofList] at ascii
    · cases scanned
  split at scanned
  · obtain ⟨n, -, -, rfl⟩ := NumberText.exists_of_scanNumber scanned
    exact n.ascii_chars
  split at scanned
  · cases scanned
    exact ascii_scanWord _
  · cases scanned

/-- Only ASCII characters are taken for a token. -/
theorem Takes.ascii (takes : lexeme.Takes raw rest) : ∀ c ∈ raw, c.toNat < 128 := by
  rw [← ascii_textOf_iff, ← takes.text_eq]
  obtain ⟨c, cs, -, -, scanned, -⟩ := takes
  exact ascii_of_scan scanned

end Lexeme

theorem Token.describe_of_ne_endOfInput {t : Token} (notEnd : t.kind ≠ .endOfInput) :
    t.describe = t.text := by
  rw [Token.describe]
  split
  · next atEnd => exact absurd atEnd notEnd
  · rfl

/-- All other characters of a text that can be cut are blanks. -/
theorem TokenStream.Cut.ascii_or_blank {position : Nat} {cs : List Char} {ts : List Token}
    (cut : Cut position cs ts) : ∀ c ∈ cs, c.toNat < 128 ∨ isBlank c = true := by
  induction cut with
  | blanks blank => exact fun c member => .inr (blank c member)
  | token blank takes _ ih =>
    exact List.forall_mem_append.mpr ⟨fun c member => .inr (blank c member),
      List.forall_mem_append.mpr ⟨fun c member => .inl (takes.ascii c member), ih⟩⟩

/-! ## Where an error arises -/

/-- The error is about what `behind` begins with, and in front of it there are the tokens of
`before`. -/
inductive SyntaxError.ArisesBetween (e : SyntaxError) : List Char → List Char → Prop
  /-- The first characters are no token. -/
  | characters {before rest raw : List Char} {c : Char} {front : List Token} :
    TokenStream.Cut 0 before front → Lexeme.scan c rest = .error (e.fault, raw) →
    e.token = String.ofList raw → e.ArisesBetween before (c :: rest)
  /-- The first token cannot stand behind the tokens in front. -/
  | token {before raw rest : List Char} {front : List Token} {state : ParseState}
    {lexeme : Lexeme} {position : Nat} :
    TokenStream.Cut 0 before front → front.foldlM ParseState.step .start = .ok state →
    lexeme.Takes raw rest → state.step (lexeme.at position) = .error e →
    e.ArisesBetween before (raw ++ rest)
  /-- The text cannot end behind the tokens in front. -/
  | ending {before : List Char} {front : List Token} {state : ParseState} {length : Nat} :
    TokenStream.Cut 0 before front → front.foldlM ParseState.step .start = .ok state →
    state.finish (.endAt length) = .error e → e.ArisesBetween before []

namespace SyntaxError.ArisesBetween

variable {e : SyntaxError} {before behind : List Char}

/-- In front of an error the text is cut into tokens. -/
theorem exists_cut (arises : e.ArisesBetween before behind) :
    ∃ front, TokenStream.Cut 0 before front := by
  cases arises with
  | characters cut => exact ⟨_, cut⟩
  | token cut => exact ⟨_, cut⟩
  | ending cut => exact ⟨_, cut⟩

/-- What the error names is written at the beginning of `behind`, and so it is not longer,
unless it is the end of the text. -/
theorem length_token_le (arises : e.ArisesBetween before behind) (inside : behind ≠ []) :
    e.token.toList.length ≤ behind.length := by
  cases arises with
  | characters _ scanned quoted =>
    obtain ⟨behind, whole, -⟩ := Lexeme.quotedPiece_of_scan_error scanned
    rw [quoted, String.toList_ofList, whole, List.length_append]
    exact Nat.le_add_right _ _
  | @token raw rest _ state lexeme position _ _ takes refused =>
    have notEnd : lexeme.kind ≠ .endOfInput := by
      obtain ⟨c, cs, -, -, scanned, -⟩ := takes
      exact Lexeme.scan_kind scanned
    have named : e.token = String.ofList lexeme.text := by
      rw [ParseState.eq_refuse_of_step refused]
      exact Token.describe_of_ne_endOfInput notEnd
    rw [named, String.toList_ofList, takes.text_eq, Lexeme.length_textOf, List.length_append]
    exact Nat.le_add_right _ _
  | ending => exact absurd rfl inside

end SyntaxError.ArisesBetween

/-- The caret tells the places apart. -/
theorem SyntaxError.underCaret_inj {input line : String} {n k : Nat}
    (same : underCaret input n line = underCaret input k line) : n = k := by
  have length := congrArg String.length same
  simp only [underCaret, String.length_append, String.length_ofList,
    List.length_replicate] at length
  omega

namespace StrategyTree

variable {text : String} {e : SyntaxError}

/-- A text that is refused has tokens up to the place of the error. -/
theorem arises_of_refused (refused : ofText text = .error e) :
    ∃ before behind, text.toList = before ++ behind ∧ e.ArisesBetween before behind ∧
      e.position = byteLength before := by
  cases tokenized : TokenStream.ofText text with
  | error e' =>
    rw [ofText, tokenized] at refused
    cases refused
    obtain ⟨before, ts, c, rest, raw, shape, cut, scanned, quoted, place⟩ :=
      TokenStream.cut_of_ofText_error tokenized
    exact ⟨before, c :: rest, shape, .characters cut scanned quoted, place⟩
  | ok s =>
    rw [ofText_eq_ofTokens tokenized] at refused
    obtain ⟨cut, length⟩ := TokenStream.cut_of_ofText tokenized
    rw [← byteLength_toList] at length
    obtain ⟨front, t, back, state, listed, read, last, unfinished⟩ :=
      exists_refused_of_ofTokens (TokenStream.kind_ne_endOfInput tokenized) refused
    have place : e.position = t.position :=
      congrArg SyntaxError.position (ParseState.eq_refuse_of_step last)
    rw [place]
    rcases List.eq_nil_or_concat back with rfl | ⟨back, stop, rfl⟩
    · obtain ⟨rfl, rfl⟩ : s.tokens = front ∧ Token.endAt s.length = t := by
        simpa [TokenStream.withEnd] using List.append_inj' listed rfl
      have atEnd : state.finish (.endAt s.length) = .error e := by
        rw [ParseState.finish, unfinished rfl, ParseState.eq_refuse_of_step last]
      exact ⟨text.toList, [], (List.append_nil _).symm, .ending cut read atEnd, length⟩
    · have regrouped : s.tokens ++ [.endAt s.length] = (front ++ t :: back) ++ [stop] := by
        simpa [TokenStream.withEnd] using listed
      have tokens := (List.append_inj' regrouped rfl).1
      obtain ⟨before, gap, behind, shape, -, -, inFront, after, -, start, -⟩ :=
        cut.exists_split tokens
      have placed := start t rfl
      rw [← placed] at after
      obtain ⟨lexeme, raw, rest, rfl, takes, same⟩ := after.begins
      rw [same] at last
      refine ⟨before ++ gap, raw ++ rest, ?_, .token inFront read takes last, ?_⟩
      · rw [shape, List.append_assoc]
      · rw [placed, byteLength_append, Nat.zero_add]

/-- The caret stands behind as many spaces as there are bytes in front of what the error is
about.  This is its column exactly if there is no blank of several bytes in front of it, and
else a place further to the right. -/
theorem caret_stands_at_byte (refused : ofText text = .error e) :
    ∃ before behind : String, text = before ++ behind ∧
      e.ArisesBetween before.toList behind.toList ∧ e.position = before.utf8ByteSize ∧
      e.inContext text = text ++ "\n" ++
        String.ofList (List.replicate before.utf8ByteSize ' ') ++ "^\n" ++ e.text ∧
      before.length ≤ before.utf8ByteSize ∧
      (before.utf8ByteSize = before.length ↔
        ∀ c ∈ before.toList, isBlank c = true → c.toNat < 128) := by
  obtain ⟨before, behind, shape, arises, place⟩ := arises_of_refused refused
  obtain ⟨front, cut⟩ := arises.exists_cut
  have bytes : (String.ofList before).utf8ByteSize = byteLength before :=
    (byteLength_eq_utf8ByteSize before).symm
  refine ⟨.ofList before, .ofList behind, ?_, ?_, ?_, ?_, ?_, ?_⟩
  · rw [← String.ofList_append, ← shape, String.ofList_toList]
  · rwa [String.toList_ofList, String.toList_ofList]
  · rw [bytes, place]
  · rw [bytes, ← place]
    rfl
  · rw [bytes, String.length_ofList]
    exact length_le_byteLength before
  · rw [bytes, String.length_ofList, String.toList_ofList, byteLength_eq_length_iff]
    exact ⟨fun ascii c member _ => ascii c member,
      fun narrow c member => (cut.ascii_or_blank c member).elim id (narrow c member)⟩

/-- All characters in front are of one byte. -/
theorem caret_in_column_behind_plain_blanks : ∃ e, ofText "ENTRY: CLOSE 100" = .error e ∧
    ∃ before behind : String, "ENTRY: CLOSE 100" = before ++ behind ∧
      e.ArisesBetween before.toList behind.toList ∧ e.position = before.length := by
  have refused : ofText "ENTRY: CLOSE 100" =
      .error ⟨.expected (.kind (.operator .equal)), "100", 13⟩ := by rfl
  obtain ⟨before, behind, shape, arises, place, -, -, column⟩ := caret_stands_at_byte refused
  refine ⟨_, refused, before, behind, shape, arises, place.trans (column.mpr fun c member _ => ?_)⟩
  have ascii : ∀ c ∈ "ENTRY: CLOSE 100".toList, c.toNat < 128 := by decide
  refine ascii c ?_
  rw [shape, String.toList_append]
  exact List.mem_append_left _ member

/-- Behind a blank of three bytes the caret is not in the column of the error.  A single
character is left where the caret stands, and the error is about a token of three. -/
theorem caret_out_of_column_behind_wide_blank : ∃ e,
    ofText "ENTRY:\u3000CLOSE 100" = .error e ∧
      ∀ before behind : String, "ENTRY:\u3000CLOSE 100" = before ++ behind →
        e.ArisesBetween before.toList behind.toList →
        e.inContext "ENTRY:\u3000CLOSE 100" ≠ "ENTRY:\u3000CLOSE 100" ++ "\n" ++
          String.ofList (List.replicate before.length ' ') ++ "^\n" ++ e.text := by
  have refused : ofText "ENTRY:\u3000CLOSE 100" =
      .error ⟨.expected (.kind (.operator .equal)), "100", 15⟩ := by rfl
  refine ⟨_, refused, fun before behind shape arises rendered => ?_⟩
  have column : 15 = before.length := SyntaxError.underCaret_inj rendered
  have length : 16 = before.length + behind.length := by
    rw [← String.length_append, ← shape]
    decide
  rw [← column, ← String.length_toList] at length
  have inside : behind.toList ≠ [] := by
    intro ended
    rw [ended] at length
    cases length
  have fits : 3 ≤ behind.toList.length := arises.length_token_le inside
  omega

end StrategyTree

end MarketRules
