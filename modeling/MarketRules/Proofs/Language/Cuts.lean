import MarketRules.Proofs.Language.Truncation
import MarketRules.Proofs.Text.AsciiCasing
import MarketRules.Settings.Sections

/-!
# Where a text is cut into tokens

A text is blanks and the characters of tokens in turn, and `TokenStream.Cut` is this
sequence.  What is read as a token depends only on the characters of the token as long as
the text goes on in a way that does not make it longer, so a text can be cut off behind any
of its tokens, and both parts are cut as they were in the whole (`Cut.exists_split`).
-/

namespace MarketRules

/-! ## Bytes -/

theorem byteLength_append (cs ds : List Char) :
    byteLength (cs ++ ds) = byteLength cs + byteLength ds := by
  induction cs with
  | nil => exact (Nat.zero_add _).symm
  | cons c cs ih =>
    show c.utf8Size + byteLength (cs ++ ds) = c.utf8Size + byteLength cs + byteLength ds
    rw [ih, Nat.add_assoc]

/-- A text with characters has bytes. -/
theorem byteLength_pos {cs : List Char} (nonempty : cs ≠ []) : 0 < byteLength cs := by
  obtain ⟨c, cs, rfl⟩ := List.exists_cons_of_ne_nil nonempty
  exact Nat.add_pos_left c.utf8Size_pos _

theorem byteLength_eq_utf8ByteSize (cs : List Char) :
    byteLength cs = (String.ofList cs).utf8ByteSize := by
  induction cs with
  | nil => rfl
  | cons c cs ih =>
    have one : (String.ofList [c]).utf8ByteSize = c.utf8Size := by
      rw [← String.singleton_eq_ofList, String.utf8ByteSize_singleton]
    show c.utf8Size + byteLength cs = (String.ofList ([c] ++ cs)).utf8ByteSize
    rw [String.ofList_append, String.utf8ByteSize_append, one, ih]

theorem byteLength_toList (s : String) : byteLength s.toList = s.utf8ByteSize := by
  rw [byteLength_eq_utf8ByteSize, String.ofList_toList]

/-- A letter has as many bytes in the other case. -/
theorem utf8Size_toUpper (c : Char) : c.toUpper.utf8Size = c.utf8Size :=
  of_toUpper (P := fun c d => d.utf8Size = c.utf8Size) (by decide +kernel) (fun _ => rfl) c

theorem byteLength_asciiUpper (cs : List Char) : byteLength (asciiUpper cs) = byteLength cs := by
  induction cs with
  | nil => rfl
  | cons c cs ih =>
    show c.toUpper.utf8Size + byteLength (asciiUpper cs) = c.utf8Size + byteLength cs
    rw [utf8Size_toUpper, ih]

/-! ## The characters of a token -/

namespace Lexeme

/-- The text of a token that is written `raw`: a word or a label is put in upper case, and
all else stays as it is. -/
def textOf (raw : List Char) : List Char :=
  if raw.head?.any beginsWord then asciiUpper raw else raw

/-- The text of a token has as many bytes as are written. -/
theorem byteLength_textOf (raw : List Char) : byteLength (textOf raw) = byteLength raw := by
  rw [textOf]
  split
  · exact byteLength_asciiUpper raw
  · rfl

section

variable {c : Char} {rest : List Char} {lexeme : Lexeme}

theorem textOf_of_not_beginsWord (other : beginsWord c = false) (cs : List Char) :
    textOf (c :: cs) = c :: cs := by
  rw [textOf, List.head?_cons, Option.any_some, other]
  rfl

theorem textOf_of_beginsWord (begins : beginsWord c = true) (cs : List Char) :
    textOf (c :: cs) = asciiUpper (c :: cs) := by
  rw [textOf, List.head?_cons, Option.any_some, begins]
  rfl

/-- Behind its first character the token takes as many as its text has. -/
theorem take_tail (n : Nat) :
    c :: rest.take (((c :: rest).take (n + 1)).length - 1) = (c :: rest).take (n + 1) := by
  simp

/-- A word, with its colon if it is a label, in upper case. -/
theorem text_scanWord (begins : beginsWord c = true) (rest : List Char) :
    (scanWord (c :: rest)).text = asciiUpper (c :: rest.take (scanWord (c :: rest)).tail) := by
  have name : isNameChar c = true := by
    rw [beginsWord, Bool.or_eq_true] at begins
    rcases begins with letter | underscore
    · simp [isNameChar, Char.isAlphanum, letter]
    · simp [isNameChar, underscore]
  have word : (c :: rest).takeWhile isNameChar = c :: rest.takeWhile isNameChar := by
    rw [List.takeWhile_cons, name]
    rfl
  have whole := List.takeWhile_append_dropWhile (p := isNameChar) (l := rest)
  have behind : (c :: rest).drop (c :: rest.takeWhile isNameChar).length =
      rest.dropWhile isNameChar := by
    rw [List.length_cons, List.drop_succ_cons]
    conv => lhs; arg 2; rw [← whole]
    exact List.drop_left
  rw [scanWord_eq_ofWord, word, behind]
  generalize rest.takeWhile isNameChar = raw at whole
  rcases ofWord_cases (c :: raw) ((rest.dropWhile isNameChar).head? == some ':') with
    ⟨colon, text, tail⟩ | word
  · rw [text, tail]
    cases after : rest.dropWhile isNameChar with
    | nil =>
      rw [after] at colon
      cases colon
    | cons d ds =>
      rw [after] at colon whole
      obtain rfl : d = ':' := by simpa using colon
      have taken : (raw ++ ':' :: ds).take (raw.length + 1) = raw ++ [':'] := by
        rw [List.append_cons]
        exact List.take_left' (by simp)
      rw [← whole, List.length_cons, taken]
      rfl
  · rw [word, ← whole]
    show asciiUpper (c :: raw) = asciiUpper (c :: (raw ++ _).take raw.length)
    rw [List.take_left]

/-- The text of a token is the piece of the text that it takes. -/
theorem text_of_scan (scanned : scan c rest = .ok lexeme) :
    lexeme.text = textOf (c :: rest.take lexeme.tail) := by
  by_cases begins : beginsWord c = true
  · rw [scan_of_beginsWord begins] at scanned
    obtain rfl := Except.ok.inj scanned
    rw [textOf_of_beginsWord begins]
    exact text_scanWord begins rest
  · have other : beginsWord c = false := by simpa using begins
    rw [textOf_of_not_beginsWord other]
    rw [scan] at scanned
    split at scanned
    · next opening =>
      cases scanned
      rw [opening]
      rfl
    split at scanned
    · next closing =>
      cases scanned
      rw [closing]
      rfl
    split at scanned
    · next comma =>
      cases scanned
      rw [comma]
      rfl
    split at scanned
    · rw [scanOperator] at scanned
      split at scanned
      · cases scanned
        exact (take_tail 1).symm
      · cases scanned
        exact (take_tail 0).symm
      · cases scanned
    split at scanned
    · obtain ⟨n, behind, shape, rfl⟩ := NumberText.exists_of_scanNumber scanned
      obtain ⟨length, positive⟩ : ∃ length, n.chars.length = length + 1 :=
        Nat.exists_eq_add_one.mpr (List.length_pos_iff.mpr n.chars_ne_nil)
      have text : n.chars = (c :: rest).take n.chars.length := by rw [shape, List.take_left]
      rw [positive] at text ⊢
      exact text
    split at scanned
    · next word => exact absurd word begins
    · cases scanned

end

/-- The token is read off `raw` in front of `rest`. -/
def Takes (lexeme : Lexeme) (raw rest : List Char) : Prop :=
  ∃ c cs, raw = c :: cs ∧ isBlank c = false ∧ scan c (cs ++ rest) = .ok lexeme ∧
    lexeme.tail = cs.length

/-- What a token says besides its place. -/
def word (lexeme : Lexeme) : TokenKind × String := (lexeme.kind, String.ofList lexeme.text)

namespace Takes

variable {lexeme : Lexeme} {raw rest more : List Char}

theorem ne_nil (takes : lexeme.Takes raw rest) : raw ≠ [] := by
  obtain ⟨c, cs, rfl, -⟩ := takes
  exact List.cons_ne_nil c cs

/-- The text of a token is known from the characters that it takes. -/
theorem text_eq (takes : lexeme.Takes raw rest) : lexeme.text = textOf raw := by
  obtain ⟨c, cs, rfl, -, scanned, tail⟩ := takes
  rw [text_of_scan scanned, tail, List.take_left]

/-- The text can be cut off anywhere behind the token. -/
theorem cut_off (takes : lexeme.Takes raw (rest ++ more)) : lexeme.Takes raw rest := by
  obtain ⟨c, cs, rfl, notBlank, scanned, tail⟩ := takes
  rw [← List.append_assoc] at scanned
  refine ⟨c, cs, rfl, notBlank, scan_of_append scanned ?_, tail⟩
  rw [tail, List.length_append]
  exact Nat.le_add_right _ _

/-- A token that is scanned takes its tail behind its first character. -/
theorem of_scan {c : Char} {cs : List Char} (notBlank : isBlank c = false)
    (scanned : scan c cs = .ok lexeme) :
    lexeme.Takes (c :: cs.take lexeme.tail) (cs.drop lexeme.tail) := by
  refine ⟨c, cs.take lexeme.tail, rfl, notBlank, ?_, ?_⟩
  · rw [List.take_append_drop, scanned]
  · rw [List.length_take_of_le (scan_tail_le scanned)]

/-- The words behind a token follow on its own. -/
theorem words (takes : lexeme.Takes raw rest) :
    wordsFrom? 0 (raw ++ rest) = (wordsFrom? 0 rest).map (lexeme.word :: ·) := by
  obtain ⟨c, cs, rfl, notBlank, scanned, tail⟩ := takes
  have behind : wordsFrom? lexeme.tail (cs ++ rest) = wordsFrom? 0 rest := by
    rw [wordsFrom?_eq_drop, tail, List.drop_left]
  rw [List.cons_append, wordsFrom?, notBlank, scanned, ← behind]
  rfl

end Takes

end Lexeme

theorem wordsFrom?_blanks {gap : List Char} (blank : ∀ c ∈ gap, isBlank c = true)
    (cs : List Char) : wordsFrom? 0 (gap ++ cs) = wordsFrom? 0 cs := by
  induction gap with
  | nil => rfl
  | cons c gap ih =>
    obtain ⟨first, later⟩ := List.forall_mem_cons.mp blank
    rw [List.cons_append, wordsFrom?, first, ← ih later]
    rfl

/-! ## The cuts of a text -/

/-- The place behind the last byte of a token. -/
def Token.stop (t : Token) : Nat := t.position + t.text.utf8ByteSize

/-- The token that is read at a place. -/
def Lexeme.at (lexeme : Lexeme) (position : Nat) : Token :=
  ⟨lexeme.kind, String.ofList lexeme.text, position⟩

namespace TokenStream

/-- A text that stands at `position` consists of these tokens, with blanks around them. -/
inductive Cut : Nat → List Char → List Token → Prop
  | blanks {position : Nat} {gap : List Char} :
    (∀ c ∈ gap, isBlank c = true) → Cut position gap []
  | token {position : Nat} {gap raw rest : List Char} {lexeme : Lexeme} {ts : List Token} :
    (∀ c ∈ gap, isBlank c = true) → lexeme.Takes raw rest →
    Cut (position + byteLength gap + byteLength raw) rest ts →
    Cut position (gap ++ (raw ++ rest)) (lexeme.at (position + byteLength gap) :: ts)

theorem stop_at {lexeme : Lexeme} {raw rest : List Char} (takes : lexeme.Takes raw rest)
    (position : Nat) : (lexeme.at position).stop = position + byteLength raw := by
  rw [Token.stop, Lexeme.at, ← byteLength_eq_utf8ByteSize, takes.text_eq, Lexeme.byteLength_textOf]

namespace Cut

variable {position : Nat} {gap cs : List Char} {ts : List Token}

/-- Blanks in front of a cut text are part of the first gap. -/
theorem behind_blanks (blank : ∀ c ∈ gap, isBlank c = true)
    (cut : Cut (position + byteLength gap) cs ts) : Cut position (gap ++ cs) ts := by
  cases cut with
  | blanks blank' => exact .blanks (List.forall_mem_append.mpr ⟨blank, blank'⟩)
  | token blank' takes behind =>
    rw [Nat.add_assoc position, ← byteLength_append] at behind ⊢
    rw [← List.append_assoc]
    exact .token (List.forall_mem_append.mpr ⟨blank, blank'⟩) takes behind

/-- A token in front of a cut text is its first. -/
theorem behind_token {lexeme : Lexeme} {c : Char} (takes : lexeme.Takes (c :: gap) cs)
    (cut : Cut (position + c.utf8Size + byteLength gap) cs ts) :
    Cut position (c :: gap ++ cs) (lexeme.at position :: ts) := by
  rw [Nat.add_assoc] at cut
  exact @Cut.token position [] _ _ _ _ (List.forall_mem_nil _) takes cut

theorem words (cut : Cut position cs ts) : wordsFrom? 0 cs = some (ts.map Token.word) := by
  induction cut with
  | blanks blank =>
    have passed := wordsFrom?_blanks blank []
    rwa [List.append_nil] at passed
  | token blank takes behind ih =>
    rw [wordsFrom?_blanks blank, takes.words, ih]
    rfl

/-- A text can be cut off anywhere between two of its tokens.  In front of the cut and
behind it the tokens are the same as in the whole text. -/
theorem exists_split (cut : Cut position cs ts) : ∀ {front back : List Token},
    ts = front ++ back → ∃ before gap behind, cs = before ++ (gap ++ behind) ∧
      (∀ c ∈ gap, isBlank c = true) ∧ Cut position before front ∧
      Cut position (before ++ gap) front ∧
      Cut (position + byteLength before + byteLength gap) behind back ∧
      position + byteLength before = (front.getLast?.map Token.stop).getD position ∧
      (∀ t ∈ back.head?, t.position = position + byteLength before + byteLength gap) ∧
      (back = [] → behind = []) := by
  induction cut with
  | @blanks position gap blank =>
    intro front back shape
    obtain ⟨rfl, rfl⟩ := List.append_eq_nil_iff.mp shape.symm
    exact ⟨[], gap, [], by simp, blank, .blanks (by simp), .blanks blank, .blanks (by simp), rfl,
      by simp, fun _ => rfl⟩
  | @token position gap raw rest lexeme ts blank takes behind ih =>
    intro front back shape
    cases front with
    | nil =>
      obtain rfl : _ = back := shape
      refine ⟨[], gap, raw ++ rest, rfl, blank, .blanks (by simp), .blanks blank, ?_, rfl, ?_, ?_⟩
      · exact @Cut.token _ [] _ _ _ _ (List.forall_mem_nil _) takes behind
      · rintro t ⟨⟩
        rfl
      · rintro ⟨⟩
    | cons t front =>
      obtain ⟨rfl, rfl⟩ := List.cons.inj shape
      obtain ⟨before, gap', behind', rfl, blank', inFront, withGap, after, stop, start, last⟩ :=
        ih rfl
      have length : byteLength (gap ++ (raw ++ before)) =
          byteLength gap + byteLength raw + byteLength before := by
        rw [byteLength_append, byteLength_append, Nat.add_assoc]
      have placed : position + byteLength (gap ++ (raw ++ before)) =
          position + byteLength gap + byteLength raw + byteLength before := by
        rw [length, Nat.add_assoc, Nat.add_assoc, Nat.add_assoc]
      refine ⟨gap ++ (raw ++ before), gap', behind', by simp, blank', ?_, ?_, ?_, ?_, ?_, last⟩
      · exact .token blank takes.cut_off inFront
      · rw [← List.append_assoc] at takes
        have cut := Cut.token blank takes.cut_off withGap
        simpa using cut
      · rw [placed]
        exact after
      · rw [placed, stop, List.getLast?_cons]
        cases front.getLast? with
        | none => exact (stop_at takes _).symm
        | some u => rfl
      · rw [placed]
        exact start

/-- A text that begins at its first token begins with the characters of this token. -/
theorem begins {t : Token} (cut : Cut t.position cs (t :: ts)) :
    ∃ (lexeme : Lexeme) (raw rest : List Char),
      cs = raw ++ rest ∧ lexeme.Takes raw rest ∧ t = lexeme.at t.position := by
  generalize at_start : t.position = start at cut
  generalize tokens : t :: ts = us at cut
  cases cut with
  | blanks blank => cases tokens
  | @token _ gap raw rest lexeme _ blank takes behind =>
    obtain ⟨rfl, -⟩ := List.cons.inj tokens
    obtain rfl : gap = [] := by
      have placed : start + byteLength gap = start := at_start
      refine Decidable.byContradiction fun some_gap => ?_
      have positive := byteLength_pos some_gap
      omega
    exact ⟨lexeme, raw, rest, rfl, takes, congrArg lexeme.at at_start.symm⟩

end Cut

/-- A text that can be cut into tokens consists of them. -/
theorem cut_of_lexFrom {cs : List Char} {s : TokenStream} : ∀ {position skip : Nat},
    lexFrom position skip cs = .ok s → skip ≤ cs.length →
      Cut (position + byteLength (cs.take skip)) (cs.drop skip) s.tokens ∧
        s.length = position + byteLength cs := by
  induction cs generalizing s with
  | nil =>
    intro position skip read _
    cases read
    rw [List.take_nil, List.drop_nil]
    exact ⟨.blanks (by simp), rfl⟩
  | cons c cs ih =>
    intro position skip read within
    have length : position + byteLength (c :: cs) = position + c.utf8Size + byteLength cs :=
      (Nat.add_assoc ..).symm
    rw [length]
    cases skip with
    | succ skip =>
      obtain ⟨cut, stop⟩ := ih read (Nat.le_of_succ_le_succ within)
      rw [Nat.add_assoc] at cut
      exact ⟨cut, stop⟩
    | zero =>
      rw [lexFrom] at read
      split at read
      · next blank =>
        obtain ⟨cut, stop⟩ := ih read (Nat.zero_le _)
        have single : ∀ d ∈ [c], isBlank d = true := by simpa using blank
        exact ⟨cut.behind_blanks single, stop⟩
      next notBlank =>
      cases scanned : Lexeme.scan c cs with
      | error e =>
        rw [scanned] at read
        cases read
      | ok lexeme =>
        have inside := Lexeme.scan_tail_le scanned
        rw [scanned] at read
        dsimp only at read
        cases later : lexFrom (position + c.utf8Size) lexeme.tail cs with
        | error e =>
          rw [later] at read
          cases read
        | ok s' =>
          rw [later] at read
          cases read
          obtain ⟨cut, stop⟩ := ih later inside
          refine ⟨?_, stop⟩
          have takes := Lexeme.Takes.of_scan (Bool.not_eq_true _ ▸ notBlank) scanned
          have cut' := Cut.behind_token takes cut
          rw [List.cons_append, List.take_append_drop] at cut'
          exact cut'

/-- What is read as tokens is a cut of the text. -/
theorem cut_of_ofText {text : String} {s : TokenStream} (tokenized : ofText text = .ok s) :
    Cut 0 text.toList s.tokens ∧ s.length = text.utf8ByteSize := by
  obtain ⟨cut, length⟩ := cut_of_lexFrom tokenized (Nat.zero_le _)
  rw [Nat.zero_add, byteLength_toList] at length
  exact ⟨cut, length⟩

end TokenStream

end MarketRules
