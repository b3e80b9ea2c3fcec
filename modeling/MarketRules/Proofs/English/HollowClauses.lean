import Mathlib.Data.List.Infix
import MarketRules.Proofs.English.ClauseShape
import MarketRules.Proofs.English.Origins
import MarketRules.Proofs.Language.Clauses
import MarketRules.Proofs.Number.ReadBack
import MarketRules.Proofs.Text.Caseless

/-!
# Clauses of which nothing is left

A clause can consist of words without meaning, points and blanks, and then nothing is left
of it.  These are the only clauses with that fate: tidying takes away nothing but points
and blanks, the last phrase nothing but words without meaning, and every other phrase
writes something that stays.

A sentence with such a clause for the exit is given one that never holds, as if it had
none.
-/

namespace MarketRules

open Pattern (Cursor behind behind_append oneOf text word)

/-! ## Hollow texts -/

/-- Words without meaning, each followed by a blank, a point or the end of the text, among
blanks and points. -/
inductive Hollow : List Char → Prop where
  | nil : Hollow []
  | idle {c : Char} {cs : List Char} : isIdle c = true → Hollow cs → Hollow (c :: cs)
  | word {w : String} {cs : List Char} :
      w ∈ Phrase.fillerWords → (∀ c ∈ cs.head?, isIdle c = true) → Hollow cs →
        Hollow (w.toList ++ cs)

/-! ## Words without meaning -/

theorem isWordChar_of_isIdle {c : Char} (idle : isIdle c = true) : isWordChar c = false := by
  by_cases ascii : c.toNat < 128
  · have outside : isIdle c = true → isWordChar c = false :=
      of_ascii (P := fun c => isIdle c = true → isWordChar c = false) ascii (by decide)
    exact outside idle
  · have apart : idleRanges.all (fun r => wordRanges.avoids r.1 r.2) = true := by decide +kernel
    obtain ⟨r, listed, bounds⟩ := List.any_eq_true.mp (isIdle_iff_contains.mp idle)
    rw [isWordChar, if_neg ascii]
    refine Bool.eq_false_iff.mpr fun isWord => ?_
    exact CodeRanges.not_between_of_avoids (List.all_eq_true.mp apart r listed) isWord
      (by simpa using bounds)

/-- Words without meaning consist of word characters. -/
theorem isWordChar_of_mem_fillerWord {w : String} (listed : w ∈ Phrase.fillerWords) :
    ∀ c ∈ w.toList, isWordChar c = true := by
  have all : ∀ w ∈ Phrase.fillerWords, ∀ c ∈ w.toList, isWordChar c = true := by decide
  exact all w listed

theorem fillerWord_ne_nil {w : String} (listed : w ∈ Phrase.fillerWords) : w.toList ≠ [] := by
  have all : ∀ w ∈ Phrase.fillerWords, w.toList ≠ [] := by decide
  exact all w listed

theorem exists_fillerWord_eq_cons {w : String} (listed : w ∈ Phrase.fillerWords) :
    ∃ c cs, w.toList = c :: cs ∧ isWordChar c = true := by
  obtain ⟨c, cs, begins⟩ := List.exists_cons_of_ne_nil (fillerWord_ne_nil listed)
  exact ⟨c, cs, begins, isWordChar_of_mem_fillerWord listed c (begins ▸ List.mem_cons_self)⟩

/-- A word character stands in front of what follows a word without meaning. -/
theorem behind_fillerWord {w : String} (listed : w ∈ Phrase.fillerWords) (before : Option Char) :
    (behind before w.toList).any isWordChar = true := by
  rcases List.eq_nil_or_concat w.toList with nothing | ⟨front, c, shape⟩
  · exact absurd nothing (fillerWord_ne_nil listed)
  · have isWord : isWordChar c = true :=
      isWordChar_of_mem_fillerWord listed c (by simp [shape])
    rw [shape, List.concat_eq_append, behind_append]
    exact isWord

theorem fillers_shape : Phrase.fillers.pattern =
    word (oneOf (text "the") (Phrase.fillerWords.tail.map text)) :=
  rfl

/-- What the pattern for words without meaning describes is one of these words. -/
theorem exists_fillerWord {t : List Char} (described : Phrase.fillers.pattern.Describes t) :
    ∃ w ∈ Phrase.fillerWords, t = w.toList := by
  obtain ⟨_, _, rfl, rfl, t, _, rfl, inside, rfl⟩ := described
  obtain ⟨p, listed, described⟩ := Pattern.exists_of_describes_oneOf inside
  have shape : text "the" :: Phrase.fillerWords.tail.map text = Phrase.fillerWords.map text := rfl
  rw [shape] at listed
  obtain ⟨w, isFiller, rfl⟩ := List.mem_map.mp listed
  exact ⟨w, isFiller, (List.append_nil t).trans described⟩

/-- Where a match of the last phrase ends, no word character follows. -/
theorem head?_of_fillers {before : Option Char} {cs : List Char} {e : Cursor}
    (found : Phrase.fillers.pattern.matchAt? before cs = some e) :
    ∃ w ∈ Phrase.fillerWords, cs = w.toList ++ e.rest ∧
      e.rest.head?.any isWordChar = false := by
  obtain ⟨member, taken, -, described, takes⟩ := Pattern.exists_taken_of_matchAt? found
  obtain ⟨w, listed, rfl⟩ := exists_fillerWord described
  have atEdge := (Pattern.mem_ends_word_iff.mp (fillers_shape ▸ member)).2.2
  have inFront : e.before.any isWordChar = true := by
    rw [takes.before]
    exact behind_fillerWord listed before
  rw [Pattern.Cursor.atEdge, inFront] at atEdge
  exact ⟨w, listed, takes.rest, by simpa using atEdge⟩

section

variable {w : String} {before : Option Char} {rest : List Char}

/-- A word without meaning is a match of the last phrase, if it stands by itself. -/
theorem mem_ends_fillerWord (listed : w ∈ Phrase.fillerWords)
    (startsWord : before.any isWordChar = false) (stops : rest.head?.any isWordChar = false) :
    ⟨behind before w.toList, rest, []⟩ ∈
      Phrase.fillers.pattern.ends ⟨before, w.toList ++ rest, []⟩ := by
  obtain ⟨c, cs, begins, isWord⟩ := exists_fillerWord_eq_cons listed
  have startEdge : (⟨before, w.toList ++ rest, []⟩ : Cursor).atEdge = true := by
    rw [Cursor.atEdge, startsWord, begins, List.cons_append, List.head?_cons, Option.any_some,
      isWord]
    rfl
  have stopEdge : (⟨behind before w.toList, rest, []⟩ : Cursor).atEdge = true := by
    rw [Cursor.atEdge, behind_fillerWord listed, stops]
    rfl
  have inList : text w ∈ text "the" :: Phrase.fillerWords.tail.map text :=
    List.mem_map_of_mem (l := Phrase.fillerWords) listed
  have reached : ⟨behind before w.toList, rest, []⟩ ∈
      (text w).ends ⟨before, w.toList ++ rest, []⟩ :=
    Option.mem_toList.mpr (Cursor.skip?_append w.toList rest [] before)
  exact Pattern.mem_ends_word_iff.mpr ⟨startEdge, Pattern.mem_ends_oneOf reached inList, stopEdge⟩

/-- A word without meaning is matched as a whole.  The word that is found and the one that
stands there both end where the word characters do. -/
theorem matchAt?_fillerWord (listed : w ∈ Phrase.fillerWords)
    (startsWord : before.any isWordChar = false) (stops : rest.head?.any isWordChar = false) :
    ∃ e, Phrase.fillers.pattern.matchAt? before (w.toList ++ rest) = some e ∧ e.rest = rest := by
  cases found : Phrase.fillers.pattern.matchAt? before (w.toList ++ rest) with
  | none =>
    have notShorter :=
      List.find?_eq_none.mp found _ (mem_ends_fillerWord listed startsWord stops)
    have shorter : rest.length < (w.toList ++ rest).length := by
      obtain ⟨c, cs, begins, -⟩ := exists_fillerWord_eq_cons listed
      rw [List.length_append, begins, List.length_cons]
      omega
    exact absurd (decide_eq_true shorter) notShorter
  | some e =>
    obtain ⟨v, listed', shape, ends⟩ := head?_of_fillers found
    refine ⟨e, rfl, ?_⟩
    rw [← dropWhile_run_append (isWordChar_of_mem_fillerWord listed')
      ((Option.any_eq_false _ _).mp ends), ← shape]
    exact dropWhile_run_append (isWordChar_of_mem_fillerWord listed)
      ((Option.any_eq_false _ _).mp stops)

end

namespace Hollow

/-- The last phrase leaves blanks and points of a hollow text. -/
theorem isIdle_of_mem_fillers {cs : List Char} (hollow : Hollow cs) : ∀ before : Option Char,
    (before.any isWordChar = true → ∀ c ∈ cs.head?, isIdle c = true) →
      ∀ c ∈ Phrase.fillers.pattern.replaceFrom Phrase.fillers.rewrite before 0 cs,
        isIdle c = true := by
  induction hollow with
  | nil => rintro _ _ _ ⟨⟩
  | @idle c cs idle _ ih =>
    intro before _
    have noWord := isWordChar_of_isIdle idle
    have noMatch : Phrase.fillers.pattern.matchAt? before (c :: cs) = none := by
      refine Option.eq_none_iff_forall_not_mem.mpr fun e found => ?_
      obtain ⟨w, listed, shape, -⟩ := head?_of_fillers found
      obtain ⟨d, ds, begins, isWord⟩ := exists_fillerWord_eq_cons listed
      rw [begins] at shape
      obtain ⟨rfl, -⟩ := List.cons.inj shape
      rw [isWord] at noWord
      cases noWord
    rw [Pattern.replaceFrom, noMatch]
    refine List.forall_mem_cons.mpr ⟨idle, ih c fun isWord => ?_⟩
    rw [Option.any_some, noWord] at isWord
    cases isWord
  | @word w cs listed ends _ ih =>
    intro before startsWord
    have inFront : before.any isWordChar = false := by
      refine Bool.eq_false_iff.mpr fun wordInFront => ?_
      obtain ⟨c, back, begins, isWord⟩ := exists_fillerWord_eq_cons listed
      have idle := startsWord wordInFront c (by rw [begins]; rfl)
      rw [isWordChar_of_isIdle idle] at isWord
      cases isWord
    have stops : cs.head?.any isWordChar = false := by
      cases cs with
      | nil => rfl
      | cons c _ => exact isWordChar_of_isIdle (ends c rfl)
    obtain ⟨e, found, atRest⟩ := matchAt?_fillerWord listed inFront stops
    have written := Pattern.turns_of_matchAt? (f := Phrase.fillers.rewrite)
      (fillerWord_ne_nil listed) found atRest
    rw [written]
    have blank : ∀ c ∈ " ".toList, isIdle c = true := by decide
    exact List.forall_mem_append.mpr ⟨blank, ih _ fun _ => ends⟩

/-- The first word of a hollow text has no meaning, so if no word stands there, a blank or a
point does. -/
theorem isIdle_of_head? {cs : List Char} (hollow : Hollow cs)
    (noWord : cs.head?.any isWordChar = false) : ∀ c ∈ cs.head?, isIdle c = true := by
  cases hollow with
  | nil => rintro _ ⟨⟩
  | idle idle _ =>
    rintro _ ⟨⟩
    exact idle
  | @word w cs listed _ _ =>
    obtain ⟨c, back, begins⟩ := List.exists_cons_of_ne_nil (fillerWord_ne_nil listed)
    have isWord := isWordChar_of_mem_fillerWord listed c (begins ▸ List.mem_cons_self)
    rw [begins, List.cons_append, List.head?_cons, Option.any_some, isWord] at noWord
    cases noWord

/-- A text of which the last phrase leaves blanks and points is hollow. -/
theorem of_fillers (before : Option Char) (cs : List Char) :
    (∀ c ∈ Phrase.fillers.pattern.replaceFrom Phrase.fillers.rewrite before 0 cs,
      isIdle c = true) → Hollow cs := by
  induction before, cs using Pattern.search_induction (p := Phrase.fillers.pattern) with
  | nil before => exact fun _ => .nil
  | kept before c cs noMatch ih =>
    intro idle
    rw [Pattern.replaceFrom, noMatch] at idle
    obtain ⟨first, later⟩ := List.forall_mem_cons.mp idle
    exact .idle first (ih later)
  | matched before taken e nonempty found _ _ ih =>
    intro idle
    have written := Pattern.turns_of_matchAt? (f := Phrase.fillers.rewrite) nonempty found rfl
    rw [written] at idle
    have hollow := ih (List.forall_mem_append.mp idle).2
    obtain ⟨w, listed, shape, noWord⟩ := head?_of_fillers found
    rw [shape]
    exact .word listed (hollow.isIdle_of_head? noWord) hollow

end Hollow

/-! ## Words that stay -/

/-- Is this a piece of a word, but of no word without meaning? -/
def isForeign (w : List Char) : Bool :=
  !w.isEmpty && w.all (fun c => !isIdle c) &&
    Phrase.fillerWords.all fun v => !decide (w <:+: v.toList)

/-- A foreign word has no idle character and is part of no word without meaning. -/
theorem isForeign_iff {w : List Char} : isForeign w = true ↔
    w ≠ [] ∧ (∀ c ∈ w, isIdle c = false) ∧ ∀ v ∈ Phrase.fillerWords, ¬ w <:+: v.toList := by
  simp [isForeign, and_assoc]

/-- A piece of a word in two parts of a text is in one of them, if the second part begins with
a blank or a point. -/
theorem infix_of_infix_append {w front back : List Char} (solid : ∀ c ∈ w, isIdle c = false)
    (ends : ∀ c ∈ back.head?, isIdle c = true) (within : w <:+: front ++ back) :
    w <:+: front ∨ w <:+: back := by
  rcases List.infix_append_iff.mp within with inFront | inBack | ⟨w, w', rfl, isSuffix, isPrefix⟩
  · exact .inl inFront
  · exact .inr inBack
  · cases w' with
    | nil => exact .inl (by simpa using isSuffix.isInfix)
    | cons c cs =>
      obtain ⟨rest, rfl⟩ := isPrefix
      have idle := ends c rfl
      rw [solid c (List.mem_append_right w List.mem_cons_self)] at idle
      cases idle

/-- There is no foreign word in a hollow text. -/
theorem Hollow.isForeign_eq_false {cs : List Char} (hollow : Hollow cs) :
    ∀ w, w <:+: cs → isForeign w = false := by
  intro w within
  refine Bool.eq_false_iff.mpr fun foreign => ?_
  obtain ⟨nonempty, solid, others⟩ := isForeign_iff.mp foreign
  induction hollow with
  | nil => exact nonempty (List.infix_nil.mp within)
  | @idle c cs idle _ ih =>
    rcases List.infix_cons_iff.mp within with isPrefix | inside
    · obtain ⟨d, ds, rfl⟩ := List.exists_cons_of_ne_nil nonempty
      obtain ⟨rfl, -⟩ := List.cons_prefix_cons.mp isPrefix
      rw [solid _ List.mem_cons_self] at idle
      cases idle
    · exact ih inside
  | @word v cs listed ends _ ih =>
    rcases infix_of_infix_append solid ends within with inWord | inside
    · exact others v listed inWord
    · exact ih inside

/-- A digit is a piece of no word without meaning. -/
theorem isForeign_of_isDecimalDigit {c : Char} (digit : isDecimalDigit c = true) :
    isForeign [c] = true := by
  have noDigit : ∀ v ∈ Phrase.fillerWords, ∀ d ∈ v.toList, isDecimalDigit d = false := by decide
  refine isForeign_iff.mpr ⟨List.cons_ne_nil c [], List.forall_mem_singleton.mpr ?_, ?_⟩
  · have point : c ≠ '.' := ne_of_class digit (by decide)
    rw [isIdle, isBlank_eq_false_of_isDecimalDigit digit, beq_false_of_ne point]
    rfl
  · intro v listed within
    have other := noDigit v listed c ((List.singleton_infix_iff c v.toList).mp within)
    rw [digit] at other
    cases other

/-- A text has a foreign piece if a digit stands in it. -/
theorem exists_foreign_of_digit {c : Char} {cs : List Char} (digit : isDecimalDigit c = true)
    (member : c ∈ cs) : ∃ w, w <:+: cs ∧ isForeign w = true :=
  ⟨[c], (List.singleton_infix_iff c cs).mpr member, isForeign_of_isDecimalDigit digit⟩

/-- A number that is written has a foreign word in it. -/
theorem exists_foreign_plainChars (x : Binary64) :
    ∃ w, w <:+: x.plainChars ∧ isForeign w = true := by
  by_cases finite : x.isFinite = true
  · obtain ⟨negative, n, written, -⟩ := Binary64.exists_plainChars_eq finite
    obtain ⟨c, cs, begins, digit⟩ := n.exists_chars_eq_cons
    refine exists_foreign_of_digit (isDecimalDigit_of_isDigit digit) ?_
    rw [written, begins]
    exact List.mem_append_right _ List.mem_cons_self
  · cases x with
    | nan => exact ⟨_, List.infix_rfl, by decide⟩
    | infinite negative => exact ⟨_, (List.suffix_append _ _).isInfix, by decide⟩
    | finite => exact absurd rfl finite

namespace Phrase

/-- All phrases but the last one. -/
def meaningful : List Phrase := indicators ++ fields ++ comparisons ++ connectives ++ numbers

theorem exists_foreign_digitGroups {before : Option Char} {cs : List Char} {e : Pattern.Cursor}
    (matched : digitGroups.matchAt? before cs = some e) :
    ∃ w, w <:+: ((e.spans.map Pattern.Span.chars).headD []).filter (· ≠ ',') ∧
      isForeign w = true := by
  have remembers : digitGroups.Remembers _ :=
    .seq (.of_isPlain rfl) (.seq (.capture (by decide)) (.of_isPlain rfl))
  have known := remembers.of_matchAt? matched
  generalize e.spans.map Pattern.Span.chars = pieces at known ⊢
  obtain _ | ⟨⟨_, back, rfl, ⟨c, rfl, digit⟩, -⟩, -⟩ := known
  have kept : c ≠ ',' := ne_of_class digit (by decide)
  exact exists_foreign_of_digit digit
    (List.mem_filter.mpr ⟨List.mem_cons_self, by simpa using kept⟩)

/-- What is written for a number with a unit has a foreign word in it. -/
theorem exists_foreign_withUnit {before : Option Char} {cs : List Char} {e : Pattern.Cursor}
    (matched : withUnit.matchAt? before cs = some e) :
    ∃ w, w <:+: expandUnit (e.spans.map Pattern.Span.chars) ∧ isForeign w = true := by
  have remembers : withUnit.Remembers _ :=
    .seq (.capture (by decide)) (.seq (.of_isPlain rfl)
      (.seq (.capture (by decide)) (.of_isPlain rfl)))
  have known := remembers.of_matchAt? matched
  generalize e.spans.map Pattern.Span.chars = pieces at known ⊢
  obtain _ | ⟨⟨_, back, rfl, ⟨_, ds, rfl, ⟨c, rfl, digit⟩, -⟩, -⟩, _ | ⟨-, ⟨⟩⟩⟩ := known
  rw [expandUnit]
  split
  · exact exists_foreign_plainChars _
  · exact exists_foreign_of_digit digit List.mem_cons_self

/-- A match of any phrase but the last one writes a foreign piece. -/
theorem exists_foreign_of_mem {p : Phrase} (member : p ∈ meaningful) {before : Option Char}
    {cs : List Char} {e : Pattern.Cursor} (matched : p.pattern.matchAt? before cs = some e) :
    ∃ w, w <:+: p.rewrite (e.spans.map Pattern.Span.chars) ∧ isForeign w = true := by
  have worded : ∀ p ∈ fields ++ comparisons ++ connectives,
      (p.rewrite []).any (fun c => isForeign [c]) = true := by
    decide
  have called : ∀ name pieces, ∃ w, w <:+: overClose name pieces ∧ isForeign w = true := by
    intro name pieces
    refine ⟨[')'], (List.suffix_append _ _).isInfix, by decide⟩
  have shape : meaningful = indicators ++ ((fields ++ comparisons ++ connectives) ++ numbers) := by
    simp only [meaningful, List.append_assoc]
  rw [shape, List.mem_append, List.mem_append] at member
  rcases member with indicator | word | number
  · simp only [indicators, List.mem_cons, List.not_mem_nil, or_false] at indicator
    rcases indicator with rfl | rfl | rfl
    · exact called _ _
    · exact called _ _
    · exact called _ _
  · obtain ⟨c, written, foreign⟩ := List.any_eq_true.mp (worded p word)
    rw [rewrite_eq_of_mem_words word]
    exact ⟨[c], (List.singleton_infix_iff c _).mpr written, foreign⟩
  · simp only [numbers, List.mem_cons, List.not_mem_nil, or_false] at number
    rcases number with rfl | rfl
    · exact exists_foreign_digitGroups matched
    · exact exists_foreign_withUnit matched

/-- Every phrase with a meaning needs a foreign word to be found. -/
theorem requires_foreign {p : Phrase} (member : p ∈ meaningful) :
    p.pattern.requires isForeign = true := by
  have settled : ∀ p ∈ meaningful, p.pattern.requires isForeign = true := by decide
  exact settled p member

end Phrase

/-! ## The clause -/

/-- A phrase with a meaning changes no hollow text, and makes none. -/
theorem Phrase.apply_eq_of_hollow {p : Phrase} (member : p ∈ meaningful) {cs : List Char}
    (hollow : Hollow cs ∨ Hollow (p.apply cs)) : p.apply cs = cs := by
  rcases hollow with before | after
  · have absent : ∀ w, w <:+: cs ++ [] → isForeign w = false := by
      rw [List.append_nil]
      exact before.isForeign_eq_false
    exact (Pattern.passes_of_requires (requires_foreign member) absent none).replaceAll_eq
  · rcases Pattern.passes_or_written none cs with passes | ⟨_, _, e, matched, within⟩
    · exact passes.replaceAll_eq
    · obtain ⟨w, inWritten, foreign⟩ := exists_foreign_of_mem member matched
      rw [after.isForeign_eq_false w (inWritten.trans within)] at foreign
      cases foreign

/-- The phrases with a meaning change no hollow text, and make none of another text. -/
theorem foldl_apply_of_hollow {ps : List Phrase} (members : ∀ p ∈ ps, p ∈ Phrase.meaningful) :
    ∀ {cs : List Char}, Hollow cs ∨ Hollow (ps.foldl (fun text phrase => phrase.apply text) cs) →
      ps.foldl (fun text phrase => phrase.apply text) cs = cs := by
  induction ps with
  | nil => exact fun _ => rfl
  | cons p ps ih =>
    obtain ⟨first, later⟩ := List.forall_mem_cons.mp members
    intro cs hollow
    rw [List.foldl_cons] at hollow ⊢
    rcases hollow with before | after
    · have same := Phrase.apply_eq_of_hollow first (.inl before)
      rw [same]
      exact ih later (.inl before)
    · have same := ih later (.inr after)
      rw [same] at after ⊢
      exact Phrase.apply_eq_of_hollow first (.inr after)

/-- Nothing is left of a clause exactly if it is hollow. -/
theorem rewriteClauseChars_eq_nil_iff {clause : List Char} :
    rewriteClauseChars clause = [] ↔ Hollow (lower clause) := by
  have shape : Phrase.all = Phrase.meaningful ++ [Phrase.fillers] := rfl
  rw [rewriteClauseChars, tidy_eq_nil_iff, shape, List.foldl_append, List.foldl_cons,
    List.foldl_nil, Phrase.apply, Pattern.replaceAll]
  constructor
  · intro idle
    have hollow := Hollow.of_fillers none _ idle
    rwa [foldl_apply_of_hollow (fun _ member => member) (.inr hollow)] at hollow
  · intro hollow
    rw [foldl_apply_of_hollow (fun _ member => member) (.inl hollow)]
    exact hollow.isIdle_of_mem_fillers none fun isWord => by cases isWord

/-! ## The sentence -/

namespace Translation

/-- The exit clause of a sentence as it is written, up to letter case. -/
def exitPart (s : String) : List Char := (splitClauses (lower s.toList)).2

/-- The exit rule is supplied exactly if nothing is left of the clause. -/
theorem ofText_exit (s : String) :
    ((ofText s).exitSupplied = true ↔ rewriteClauseChars (exitPart s) = []) ∧
      (rewriteClauseChars (exitPart s) = [] → (ofText s).exit = neverExit) ∧
      (rewriteClauseChars (exitPart s) ≠ [] →
        (ofText s).exit = String.ofList (rewriteClauseChars (exitPart s))) := by
  rw [ofText, exitPart]
  cases splitClauses (lower s.toList) with
  | mk entry exit =>
    dsimp only
    exact ⟨decide_eq_true_iff, fun nothing => if_pos nothing, fun something => if_neg something⟩

/-- An exit clause is replaced by one that never holds exactly if it is hollow, or missing.
Any other is kept as it is rewritten, and what compiles has the rule of this text for its
exit. -/
theorem exitSupplied_iff_hollow (s : String) :
    ((ofText s).exitSupplied = true ↔ Hollow (lower (exitPart s))) ∧
      ((ofText s).exitSupplied = true → (ofText s).exit = "0 > 1") ∧
      ((ofText s).exitSupplied = false →
        (ofText s).exit = String.ofList (rewriteClauseChars (exitPart s)) ∧
          ∀ c, CheckedStrategy.ofEnglish s = .ok c →
            c.exit.IsClause (String.ofList (rewriteClauseChars (exitPart s)))) := by
  obtain ⟨supplied, replaced, kept⟩ := ofText_exit s
  refine ⟨supplied.trans rewriteClauseChars_eq_nil_iff, fun isSupplied => ?_, fun notSupplied => ?_⟩
  · rw [replaced (supplied.mp isSupplied), neverExit_eq]
  · have something : rewriteClauseChars (exitPart s) ≠ [] := by
      intro nothing
      rw [supplied.mpr nothing] at notSupplied
      cases notSupplied
    have exit := kept something
    refine ⟨exit, fun c compiled => ?_⟩
    have built := CheckedStrategy.ofText_eq_ok_iff.mp compiled
    rw [← exit]
    exact (Strategy.ofText_clausesText_eq_ok_iff.mp built).2

/-- Nothing is left of the exit clause `it drops.`. -/
theorem exitSupplied_of_it_drops :
    (ofText "Buy when close is above 1. Sell when it drops.").exitSupplied = true := by
  have written :
      exitPart "Buy when close is above 1. Sell when it drops." = "it drops.".toList := by
    decide +kernel
  have small : lower "it drops.".toList = "it".toList ++ ' ' :: ("drops".toList ++ ['.']) := by
    decide
  refine (exitSupplied_iff_hollow _).1.mpr ?_
  rw [written, small]
  exact .word (by decide) (by simp [isIdle, isBlank]) (.idle rfl
    (.word (by decide) (by simp [isIdle]) (.idle rfl .nil)))

/-- A written exit clause is replaced, and the sentence compiles without a word about it. -/
theorem written_exit_is_replaced :
    exitPart "Buy when close is above 1. Sell when the." = "the.".toList ∧
      (ofText "Buy when close is above 1. Sell when the.").exitSupplied = true ∧
      (CheckedStrategy.ofEnglish "Buy when close is above 1. Sell when the.").toOption.map
        (·.exit) = some Rule.never := by
  decide +kernel

end Translation

end MarketRules
