import MarketRules.Proofs.English.Numbers
import MarketRules.Proofs.English.Tidying
import MarketRules.Proofs.Text.AsciiCasing

/-!
# Clauses word for word

An English rule is rewritten to its text in the rule language.  The phrases are followed
one after the other.  Between two of them every piece of the rule has one of two
wordings, and the phrase takes all pieces on together.  What comes before the phrases
and after them is again put together from the pieces.
-/

namespace MarketRules

open Pattern (Ahead GoesOn behind goesOn_unknown passes_of_passesWithin)
open EnglishPiece

/-! ## All phrases -/

/-- The phrases bring every piece to its last wording. -/
theorem EnglishPiece.settles (piece : EnglishPiece) : piece.Settles Phrase.all false := by
  induction piece using byKind with
  | word piece member => exact settles_of_mem_words member
  | number n => exact settles_number n
  | average days hyphen => exact settles_average days hyphen

theorem EnglishPiece.wording_mem_wordings (done : Bool) (piece : EnglishPiece) :
    piece.wording done ∈ piece.wordings := by
  cases done with
  | false => exact piece.english_mem_wordings
  | true => exact piece.rewritten_mem_wordings

/-- The point at the end of a sentence, or nothing. -/
def fullStop (written : Bool) : List Char := if written then ['.'] else []

theorem goesOn_fullStop (written : Bool) : GoesOn (clauseEnds ++ innerEnds) (fullStop written) := by
  cases written with
  | true => exact ⟨⟨['.'], true⟩, .head _, [], rfl, fun _ => rfl⟩
  | false => exact ⟨⟨[], true⟩, .tail _ (.head _), [], rfl, fun _ => rfl⟩

/-- A phrase that takes every piece from one wording to another does so all over the
clause. -/
theorem Phrase.apply_clause {p : Phrase} (marks : p.KeepsMarks) {done done' : EnglishPiece → Bool}
    (moves : ∀ piece : EnglishPiece, piece.Moves p (done piece) (done' piece))
    (r : EnglishRule) (point : Bool) :
    p.apply (r.text (fun piece => piece.wording (done piece)) ++ fullStop point) =
      r.text (fun piece => piece.wording (done' piece)) ++ fullStop point := by
  have parts : Composes.OfPieces clauseEnds p.Rewrites
      (fun piece => piece.wording (done piece)) (fun piece => piece.wording (done' piece)) :=
    { composes := p.composes_rewrites
      worded := fun piece => wording_mem_wordings (done piece) piece
      pieces := moves
      opening := fun rest before allowed =>
        ⟨(passes_of_passesWithin (goesOn_unknown rest) marks.opening allowed).turns, .head _⟩
      closing := fun rest before allowed =>
        ⟨(passes_of_passesWithin (goesOn_unknown rest) marks.closing allowed).turns,
          Joint.allows_after _⟩ }
  have start : Joint.before.Allows none := .head _
  have turned := (r.relate parts (goesOn_fullStop point) none start).1
  have last (before : Option Char) :
      p.pattern.Turns p.rewrite before (fullStop point) (fullStop point) [] := by
    cases point with
    | false => rfl
    | true =>
      have atEnd : GoesOn [⟨[], true⟩] [] := ⟨_, .head _, [], rfl, fun _ => rfl⟩
      exact (passes_of_passesWithin atEnd marks.point (Joint.allows_after before)).turns
  rw [← List.append_nil (fullStop point)] at turned
  have whole := turned.append (last _)
  rw [Pattern.Turns, List.append_nil] at whole
  exact whole.trans (List.append_nil _)

/-- All phrases together rewrite a rule piece by piece. -/
theorem foldl_apply_english (r : EnglishRule) (point : Bool) :
    Phrase.all.foldl (fun text phrase => phrase.apply text) (r.english ++ fullStop point) =
      r.text rewritten ++ fullStop point :=
  Passage.foldl_apply EnglishPiece.passage (fun wording => r.text wording ++ fullStop point)
    Phrase.all
    (fun _ member _ _ moves => Phrase.apply_clause (Phrase.keepsMarks_of_mem member) moves r point)
    (fun _ => false) fun piece => (piece.passage_settles_iff Phrase.all false).mpr piece.settles

/-! ## Letter case -/

section

variable {wording : EnglishPiece → List Char}

/-- The text of a rule consists of its pieces and parentheses. -/
theorem EnglishRule.all_text {p : Char → Bool} (worded : ∀ piece, wording piece ∈ piece.wordings)
    (opening : p '(' = true) (closing : p ')' = true)
    (pieces : ∀ piece, (wording piece).all p = true) (r : EnglishRule) :
    (r.text wording).all p = true := by
  have parts : Composes.OfPieces [.unknown] (fun _ _ cs _ _ => cs.all p = true) wording wording :=
    { composes := ⟨fun first second => by rw [List.all_append, first, second, Bool.and_self]⟩
      worded := worded
      pieces := fun piece _ _ => pieces piece
      opening := fun _ => by rw [List.all_cons, opening, List.all_nil, Bool.and_self]
      closing := fun _ => by rw [List.all_cons, closing, List.all_nil, Bool.and_self] }
  exact r.relate parts (goesOn_unknown_append [])

theorem all_of_numberChars {p : Char → Bool} (ofNumber : numberChars.all p = true)
    {cs : List Char} (inNumber : ∀ c ∈ cs, c ∈ numberChars) : cs.all p = true :=
  List.all_eq_true.mpr fun c member => List.all_eq_true.mp ofNumber c (inNumber c member)

/-- A piece of English has small ASCII characters only. -/
theorem EnglishPiece.all_english (piece : EnglishPiece) :
    piece.english.all isSmallAscii = true := by
  have ofNumber : numberChars.all isSmallAscii = true := by decide
  induction piece using byKind with
  | word piece member =>
    have all : ∀ piece ∈ words, piece.english.all isSmallAscii = true := by decide
    exact all piece member
  | number n => exact all_of_numberChars ofNumber n.mem_numberChars
  | average days hyphen =>
    have tail : (averageWords hyphen).toList.all isSmallAscii = true := by
      cases hyphen <;> decide
    rw [english, List.all_append, all_of_numberChars ofNumber days.mem_numberChars, tail]
    rfl

theorem EnglishPiece.all_rewritten (piece : EnglishPiece) :
    piece.rewritten.all isCapitalAscii = true := by
  have ofNumber : numberChars.all isCapitalAscii = true := by decide
  induction piece using byKind with
  | word piece member =>
    have all : ∀ piece ∈ words, piece.rewritten.all isCapitalAscii = true := by decide
    exact all piece member
  | number n => exact all_of_numberChars ofNumber n.mem_numberChars
  | average days hyphen =>
    have front : "SMA(CLOSE, ".toList.all isCapitalAscii = true := by decide
    show ("SMA(CLOSE, ".toList ++ days.digits ++ ")".toList).all isCapitalAscii = true
    rw [List.all_append, List.all_append, front,
      all_of_numberChars ofNumber days.mem_numberChars]
    rfl

end

/-! ## Tidying -/

theorem not_isBlank_of_mem_numberChars {c : Char} (member : c ∈ numberChars) :
    isBlank c = false ∧ c ≠ '(' := by
  have all : numberChars.all (fun c => !isBlank c && c != '(') = true := by decide
  simpa using List.all_eq_true.mp all c member

theorem PlainNumeral.chars_ne_nil (n : PlainNumeral) : n.chars ≠ [] := by
  obtain ⟨c, cs, begins, -⟩ := n.exists_chars_eq_cons
  rw [begins]
  exact List.cons_ne_nil c cs

namespace EnglishPiece

/-- A rewritten piece keeps its points, since they stand in numbers. -/
theorem dropsPoints_rewritten (piece : EnglishPiece) (rest : List Char) :
    DropsPoints piece.start piece.stop piece.rewritten piece.rewritten rest := by
  induction piece using byKind with
  | word piece member =>
    have noPoint : ∀ piece ∈ words, '.' ∉ piece.rewritten := by decide
    exact dropPeriods_of_notMem (noPoint piece member)
  | number n => exact fun before => n.dropPeriods_chars before rest
  | average days hyphen =>
    refine dropPeriods_of_notMem ?_
    have inDays := point_notMem_of_isDigit days.isDigit
    intro member
    rcases List.mem_append.mp member with inFront | inBack
    · rcases List.mem_append.mp inFront with inName | inDigits
      · exact absurd inName (by decide)
      · exact inDays inDigits
    · exact absurd inBack (by decide)

/-- An article leaves blanks behind the place where blanks are left out, and so does every
other piece behind which an operand begins. -/
theorem compacts_rewritten (piece : EnglishPiece) (rest : List Char) :
    Compacts piece.start piece.stop piece.rewritten piece.language rest := by
  induction piece using byKind with
  | word piece member =>
    have settled : ∀ piece ∈ words,
        compact (piece.start == .before) piece.rewritten = piece.language ∧
          closedBehind (piece.start == .before) piece.rewritten = (piece.stop == .before) := by
      decide
    exact compacts_of_settled (settled piece member)
  | number n =>
    exact compact_solid n.chars_ne_nil
      (fun c member => not_isBlank_of_mem_numberChars (n.mem_numberChars c member)) true
  | average days hyphen =>
    have name : compact true "SMA(CLOSE, ".toList = "SMA(CLOSE, ".toList ∧
        closedBehind true "SMA(CLOSE, ".toList = true := by
      decide
    have digits : compact true (days.digits ++ (")".toList ++ rest)) =
        days.digits ++ compact false (")".toList ++ rest) :=
      compact_solid days.ne_nil
        (fun c member => not_isBlank_of_mem_numberChars (days.mem_numberChars c member)) true
    show compact true ("SMA(CLOSE, ".toList ++ days.digits ++ ")".toList ++ rest) =
      "SMA(CLOSE, ".toList ++ days.digits ++ ")".toList ++ compact false rest
    rw [List.append_assoc, List.append_assoc, compact_append, name.1, name.2, digits,
      List.append_assoc, List.append_assoc]
    rfl

/-- A piece in the rule language has no blank in front of a closing parenthesis. -/
theorem tightensClosing_language (piece : EnglishPiece) {rest : List Char}
    (goesOn : GoesOn (piece.ahead [.unknown]) rest) :
    TightensClosing piece.start piece.stop piece.language piece.language rest := by
  have inNumber : ' ' ∉ numberChars := by decide
  induction piece using byKind with
  | word piece member =>
    have settled : ∀ piece ∈ words, ' ' ∉ piece.language ∨
        ')' ∉ piece.language ∧
          ∀ a ∈ piece.ahead [.unknown], (a.chars.head?.any fun c => c != ')') = true := by
      decide
    exact tightensClosing_of_settled (settled piece member) goesOn
  | number n =>
    exact tightenClosing_of_blank_notMem (fun member => inNumber (n.mem_numberChars _ member)) rest
  | average days hyphen =>
    have noBlank : ' ' ∉ days.digits ++ ")".toList := by
      intro member
      rcases List.mem_append.mp member with inDigits | inBack
      · exact inNumber (days.mem_numberChars _ inDigits)
      · exact absurd inBack (by decide)
    have ahead : ')' ∉ (days.digits ++ ")".toList ++ rest).head? := by
      obtain ⟨c, cs, begins⟩ := List.exists_cons_of_ne_nil days.ne_nil
      have digit : c.isDigit = true := days.isDigit c (begins ▸ List.mem_cons_self)
      rw [begins]
      rintro ⟨⟩
      cases digit
    have noClosing : ')' ∉ "SMA(CLOSE, ".toList := by decide
    have name := tightenClosing_of_closing_notMem noClosing ahead
    show tightenClosing ("SMA(CLOSE, ".toList ++ days.digits ++ ")".toList ++ rest) =
      "SMA(CLOSE, ".toList ++ days.digits ++ ")".toList ++ tightenClosing rest
    rw [tightenClosing_of_blank_notMem noBlank] at name
    simpa only [List.append_assoc] using name

theorem beginsSolid_english {piece : EnglishPiece} (starts : piece.start = .before) :
    BeginsSolid piece.english := by
  induction piece using byKind with
  | word piece member =>
    have solid : ∀ piece ∈ words, piece.start = .before → BeginsSolid piece.english := by
      decide
    exact solid piece member starts
  | number n =>
    exact beginsSolid_of_forall_mem n.chars_ne_nil
      fun c member => (not_isBlank_of_mem_numberChars (n.mem_numberChars c member)).1
  | average days hyphen =>
    have digits : BeginsSolid days.digits := beginsSolid_of_forall_mem days.ne_nil
      fun c member => (not_isBlank_of_mem_numberChars (days.mem_numberChars c member)).1
    exact digits.append _

theorem endsSolid_of_mem_wordings {piece : EnglishPiece} (stops : piece.stop = .after)
    {cs : List Char} (worded : cs ∈ piece.wordings) : EndsSolid cs := by
  induction piece using byKind with
  | word piece member =>
    have solid : ∀ piece ∈ words, piece.stop = .after → ∀ cs ∈ piece.wordings, EndsSolid cs := by
      decide
    exact solid piece member stops cs worded
  | number n =>
    rw [eq_chars_of_mem_wordings worded]
    exact endsSolid_of_forall_mem n.chars_ne_nil
      fun c member => (not_isBlank_of_mem_numberChars (n.mem_numberChars c member)).1
  | average days hyphen =>
    have english : EndsSolid (average days hyphen).english := by
      have solid : EndsSolid (averageWords hyphen).toList := by cases hyphen <;> decide
      exact solid.append days.digits
    have called : EndsSolid (average days hyphen).language := by
      have solid : EndsSolid ")".toList := by decide
      exact solid.append ("SMA(CLOSE, ".toList ++ days.digits)
    simp only [wordings, List.mem_cons, List.not_mem_nil, or_false] at worded
    rcases worded with rfl | rfl | rfl
    · exact english
    · exact called
    · exact called

end EnglishPiece

namespace EnglishRule

variable (r : EnglishRule)

theorem beginsSolid_english : BeginsSolid r.english := by
  have parts : Composes.OfPieces [.unknown] (fun x _ cs _ _ => x = .before → BeginsSolid cs)
      EnglishPiece.english EnglishPiece.english :=
    { composes := composes_beginsSolid
      worded := english_mem_wordings
      pieces := fun _ _ _ => EnglishPiece.beginsSolid_english
      opening := fun _ _ => by decide
      closing := by rintro _ ⟨⟩ }
  exact r.relate parts (goesOn_unknown_append []) rfl

theorem endsSolid_text {wording : EnglishPiece → List Char}
    (worded : ∀ piece, wording piece ∈ piece.wordings) : EndsSolid (r.text wording) := by
  have parts : Composes.OfPieces [.unknown] (fun _ y cs _ _ => y = .after → EndsSolid cs)
      wording wording :=
    { composes := composes_endsSolid
      worded := worded
      pieces := fun piece _ _ stops => endsSolid_of_mem_wordings stops (worded piece)
      opening := by rintro _ ⟨⟩
      closing := fun _ _ => by decide }
  exact r.relate parts (goesOn_unknown_append []) rfl

/-- The point that ends a clause is dropped, and no other. -/
theorem dropPeriods_rewritten (point : Bool) :
    dropPeriods none (r.text rewritten ++ fullStop point) = r.text rewritten := by
  have parts : Composes.OfPieces clauseEnds DropsPoints rewritten rewritten :=
    { composes := composes_dropsPoints
      worded := rewritten_mem_wordings
      pieces := fun piece rest _ => piece.dropsPoints_rewritten rest
      opening := fun _ => dropPeriods_of_notMem (by decide)
      closing := fun _ => dropPeriods_of_notMem (by decide) }
  have last (before : Option Char) : dropPeriods before (fullStop point) = [] := by
    cases point with
    | false => rfl
    | true => cases before.any Char.isDigit <;> simp [fullStop, dropPeriods]
  rw [r.relate parts (goesOn_fullStop point) none, last, List.append_nil]

/-- With its blanks tidied a rewritten rule is written in the rule language. -/
theorem compact_rewritten : compact true (r.text rewritten) = r.language := by
  have parts : Composes.OfPieces [.unknown] Compacts rewritten EnglishPiece.language :=
    { composes := composes_compacts
      worded := rewritten_mem_wordings
      pieces := fun piece rest _ => piece.compacts_rewritten rest
      opening := fun _ => rfl
      closing := fun _ => rfl }
  have whole := r.relate parts (goesOn_unknown_append [])
  rw [Compacts, List.append_nil] at whole
  exact whole.trans (List.append_nil _)

/-- In the rule language no blank is left in front of a closing parenthesis. -/
theorem tightenClosing_language : tightenClosing r.language = r.language := by
  have parts : Composes.OfPieces [.unknown] TightensClosing EnglishPiece.language
      EnglishPiece.language :=
    { composes := composes_tightensClosing
      worded := language_mem_wordings
      pieces := fun piece _ => piece.tightensClosing_language
      opening := tightenClosing_of_blank_notMem (by decide)
      closing := tightenClosing_of_blank_notMem (by decide) }
  have whole := r.relate parts (goesOn_unknown_append [])
  rw [TightensClosing, List.append_nil] at whole
  exact whole.trans (List.append_nil _)

/-- Tidying the text in which all phrases have been applied gives the rule in the rule
language. -/
theorem tidy_rewritten (point : Bool) : tidy (r.text rewritten ++ fullStop point) = r.language := by
  have last : (fullStop point).all isCapitalAscii = true := by cases point <;> decide
  have capital : (r.text rewritten ++ fullStop point).all isCapitalAscii = true := by
    rw [List.all_append, r.all_text rewritten_mem_wordings rfl rfl all_rewritten, last]
    rfl
  rw [tidy, upper_eq_self capital, r.dropPeriods_rewritten,
    tidyBlanks (r.endsSolid_text rewritten_mem_wordings), r.compact_rewritten,
    r.tightenClosing_language]

/-- A clause in English has no capital letters. -/
theorem all_clause (point : Bool) : (r.english ++ fullStop point).all isSmallAscii = true := by
  have last : (fullStop point).all isSmallAscii = true := by cases point <;> decide
  rw [List.all_append, english, r.all_text english_mem_wordings rfl rfl all_english, last]
  rfl

/-- A clause in English, with or without a point behind it, is rewritten to the same rule
in the rule language. -/
theorem rewriteClauseChars_english (point : Bool) :
    rewriteClauseChars (r.english ++ fullStop point) = r.language := by
  rw [rewriteClauseChars, lower_eq_self (r.all_clause point), foldl_apply_english,
    r.tidy_rewritten]

end EnglishRule

end MarketRules
