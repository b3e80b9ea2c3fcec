import Mathlib.Data.List.TakeWhile
import MarketRules.English.Translation
import MarketRules.Proofs.Text.CharClass
import MarketRules.Proofs.Text.Described

/-!
# Where the characters of a clause come from

The phrases are applied one after the other, so a later phrase reads what an earlier one
wrote.  To see what becomes of it, every character is given its origin, and
`Phrase.track` carries the origins through a pass.  Without the origins it is the pass
itself (`chars_track`).

The phrases of the rule language are the indicators, fields, comparisons and connectives.
Their texts consist of capitals, blanks and the calls of indicators, and an `Intact` text
has nothing else from them.  A match has no capitals, and none begins within a call, so a
pass leaves an intact text intact and covers nothing from these phrases but blanks
(`Intact.sparedBy`).
-/

namespace MarketRules

open Pattern (behind behind_append passes_of_passesEach)

/-! ## Origins -/

/-- Where a character comes from. -/
inductive Origin where
  /-- It stood in the clause. -/
  | clause
  /-- The phrase with this number wrote a text, and the character stands at this place
  of it. -/
  | phrase (number : Nat) (text : List Char) (place : Nat)

/-- A character with its origin. -/
structure Tracked where
  char : Char
  origin : Origin

/-- How many phrases belong to the rule language.  They are the first ones. -/
def Phrase.languageCount : Nat := (indicators ++ fields ++ comparisons ++ connectives).length

namespace Tracked

/-- The text without the origins. -/
def chars (cs : List Tracked) : List Char := cs.map Tracked.char

/-- A clause that no phrase was applied to. -/
def ofClause (cs : List Char) : List Tracked := cs.map (⟨·, .clause⟩)

/-- A text that a phrase wrote. -/
def ofPhrase (number : Nat) (text : List Char) : List Tracked :=
  text.zipIdx.map fun (c, place) => ⟨c, .phrase number text place⟩

/-- The character is from a phrase of the rule language. -/
def IsLanguage (c : Tracked) : Prop :=
  match c.origin with
  | .clause => False
  | .phrase number _ _ => number < Phrase.languageCount

/-- The call that an indicator wrote, if the character is the first one of it. -/
def call? (c : Tracked) : Option (List Char) :=
  match c.origin with
  | .phrase number text 0 => if number < Phrase.indicators.length then some text else none
  | _ => none

/-- The calls in a text, in their order. -/
def calls (cs : List Tracked) : List (List Char) := cs.filterMap call?

end Tracked

/-! ## Passes -/

/-- A stretch of a text in which the matches of a pattern are looked for. -/
inductive Stretch where
  /-- A character at which no match begins. -/
  | kept (c : Tracked)
  /-- A match with the pieces it remembers. -/
  | matched (covered : List Tracked) (pieces : List (List Char))

/-- The characters that a match covers. -/
def Stretch.covered : Stretch → List Tracked
  | kept _ => []
  | matched covered _ => covered

/-- What the phrase with this number leaves of a stretch. -/
def Stretch.written (number : Nat) (rewrite : List (List Char) → List Char) :
    Stretch → List Tracked
  | kept c => [c]
  | matched _ pieces => Tracked.ofPhrase number (rewrite pieces)

/-- The stretches of a text that stands behind the character `before`.  Its first `skip`
characters belong to a match. -/
def Pattern.stretchesFrom (p : Pattern) (before : Option Char) (skip : Nat) :
    List Tracked → List Stretch
  | [] => []
  | x :: xs =>
    match skip with
    | skip + 1 => stretchesFrom p x.char skip xs
    | 0 =>
      match p.matchAt? before (Tracked.chars (x :: xs)) with
      | some e =>
        .matched (x :: xs.take (xs.length - e.rest.length)) (e.spans.map Span.chars) ::
          stretchesFrom p x.char (xs.length - e.rest.length) xs
      | none => .kept x :: stretchesFrom p x.char 0 xs
termination_by structural cs => cs

namespace Phrase

/-- The stretches of a text under the phrase. -/
def stretches (p : Phrase) (cs : List Tracked) : List Stretch := p.pattern.stretchesFrom none 0 cs

/-- Apply the phrase with this number. -/
def track (number : Nat) (p : Phrase) (cs : List Tracked) : List Tracked :=
  (p.stretches cs).flatMap (Stretch.written number p.rewrite)

/-- The clause when this many phrases have been applied. -/
def tracked (clause : List Char) : Nat → List Tracked
  | 0 => Tracked.ofClause (lower clause)
  | number + 1 =>
    match all[number]? with
    | some p => p.track number (tracked clause number)
    | none => tracked clause number

end Phrase

namespace Tracked

theorem chars_append (cs cs' : List Tracked) : chars (cs ++ cs') = chars cs ++ chars cs' :=
  List.map_append

theorem length_chars (cs : List Tracked) : (chars cs).length = cs.length :=
  List.length_map _

theorem chars_ofClause (cs : List Char) : chars (ofClause cs) = cs := by
  rw [chars, ofClause, List.map_map]
  exact List.map_id cs

theorem chars_ofPhrase (number : Nat) (text : List Char) : chars (ofPhrase number text) = text := by
  rw [chars, ofPhrase, List.map_map]
  exact List.zipIdx_map_fst 0 text

end Tracked

open Tracked

section

variable {p : Pattern} {f : List (List Char) → List Char}

/-- Without the origins, a pass over tracked text is the pass over its characters. -/
theorem chars_stretchesFrom (number : Nat) (cs : List Tracked) :
    ∀ (before : Option Char) (skip : Nat),
      chars ((p.stretchesFrom before skip cs).flatMap (Stretch.written number f)) =
        p.replaceFrom f before skip (chars cs) := by
  induction cs with
  | nil => exact fun _ _ => rfl
  | cons x xs ih =>
    intro before skip
    have shape : chars (x :: xs) = x.char :: chars xs := rfl
    cases skip with
    | succ skip => exact ih x.char skip
    | zero =>
      rw [Pattern.stretchesFrom, shape, Pattern.replaceFrom]
      cases p.matchAt? before (x.char :: chars xs) with
      | none => exact congrArg (x.char :: ·) (ih x.char 0)
      | some e =>
        dsimp only
        rw [List.flatMap_cons, chars_append, ih, Stretch.written, chars_ofPhrase, length_chars]

/-- Without the origins a pass is what it was. -/
theorem chars_track (number : Nat) (p : Phrase) (cs : List Tracked) :
    chars (p.track number cs) = p.apply (chars cs) :=
  chars_stretchesFrom number cs none 0

/-- The stretches behind a piece in which no match begins. -/
theorem stretchesFrom_of_passes (cs : List Tracked) {rest : List Tracked} :
    ∀ {before : Option Char}, p.Passes before (chars cs) (chars rest) →
      p.stretchesFrom before 0 (cs ++ rest) =
        cs.map .kept ++ p.stretchesFrom (behind before (chars cs)) 0 rest := by
  induction cs with
  | nil => exact fun _ => rfl
  | cons x xs ih =>
    rintro before ⟨noMatch, later⟩
    have shape : chars (x :: (xs ++ rest)) = x.char :: (chars xs ++ chars rest) :=
      congrArg (x.char :: ·) (chars_append xs rest)
    have none : p.matchAt? before (x.char :: (chars xs ++ chars rest)) = none := noMatch
    rw [List.cons_append, Pattern.stretchesFrom, shape, none]
    exact congrArg (.kept x :: ·) (ih later)

/-- The characters of a match are passed over. -/
theorem stretchesFrom_skip (cs rest : List Tracked) : ∀ before : Option Char,
    p.stretchesFrom before cs.length (cs ++ rest) =
      p.stretchesFrom (behind before (chars cs)) 0 rest := by
  induction cs with
  | nil => exact fun _ => rfl
  | cons x xs ih => exact fun _ => ih x.char

/-- The stretches of a text that begins with a match. -/
theorem stretchesFrom_of_matchAt? {before : Option Char} {cs rest : List Tracked}
    {e : Pattern.Cursor} (nonempty : cs ≠ [])
    (matched : p.matchAt? before (chars cs ++ chars rest) = some e) (ends : e.rest = chars rest) :
    p.stretchesFrom before 0 (cs ++ rest) =
      .matched cs (e.spans.map Pattern.Span.chars) ::
        p.stretchesFrom (behind before (chars cs)) 0 rest := by
  obtain ⟨x, xs, rfl⟩ := List.exists_cons_of_ne_nil nonempty
  rw [← chars_append, List.cons_append] at matched
  have covered : (xs ++ rest).length - e.rest.length = xs.length := by
    rw [ends, length_chars, List.length_append, Nat.add_sub_cancel]
  rw [List.cons_append, Pattern.stretchesFrom, matched]
  dsimp only
  rw [covered, List.take_left, stretchesFrom_skip]
  rfl

end

/-! ## Intact texts -/

/-- The text is a call of an indicator of the closing price. -/
def IsCall (text : List Char) : Prop :=
  ∃ name ∈ ["SMA", "RSI"], ∃ days : List Char, days ≠ [] ∧ (∀ c ∈ days, isDecimalDigit c = true) ∧
    text = Phrase.overClose name [days]

/-- A match may cover the character. -/
structure Tracked.Loose (c : Tracked) : Prop where
  blank : c.IsLanguage → c.char = ' '
  noCall : c.call? = none

/-- What the phrases of the rule language wrote are capitals, blanks and unbroken calls. -/
inductive Intact : List Tracked → Prop where
  | nil : Intact []
  | loose {c : Tracked} {cs : List Tracked} : c.Loose → Intact cs → Intact (c :: cs)
  | capital {c : Tracked} {cs : List Tracked} :
      c.char.isUpper = true → c.call? = none → Intact cs → Intact (c :: cs)
  | call {number : Nat} {text : List Char} {cs : List Tracked} :
      number < Phrase.indicators.length → IsCall text → Intact cs →
        Intact (ofPhrase number text ++ cs)

/-- A call begins with a capital. -/
theorem IsCall.exists_eq_cons {text : List Char} (isCall : IsCall text) :
    ∃ c cs, text = c :: cs ∧ c.isUpper = true := by
  obtain ⟨name, listed, days, -, -, rfl⟩ := isCall
  have capitals : ∀ name ∈ ["SMA", "RSI"], name.toList.head?.any Char.isUpper = true := by decide
  obtain ⟨c, first, capital⟩ := (Option.any_eq_true _ _).mp (capitals name listed)
  obtain ⟨cs, begins⟩ := List.head?_eq_some_iff.mp first
  refine ⟨c, cs ++ "(CLOSE, ".toList ++ days ++ [')'], ?_, capital⟩
  rw [Phrase.overClose, begins]
  rfl

theorem calls_append (cs cs' : List Tracked) : calls (cs ++ cs') = calls cs ++ calls cs' :=
  List.filterMap_append

theorem calls_eq_nil {cs : List Tracked} (noCall : ∀ c ∈ cs, c.call? = none) : calls cs = [] :=
  List.filterMap_eq_nil_iff.mpr noCall

/-- What an indicator writes is one call. -/
theorem calls_ofPhrase {number : Nat} {text : List Char}
    (indicator : number < Phrase.indicators.length) (isCall : IsCall text) :
    calls (ofPhrase number text) = [text] := by
  obtain ⟨c, cs, rfl, -⟩ := isCall.exists_eq_cons
  have others : calls ((cs.zipIdx 1).map fun (d, place) =>
      (⟨d, .phrase number (c :: cs) place⟩ : Tracked)) = [] := by
    refine calls_eq_nil fun d member => ?_
    obtain ⟨⟨d, place⟩, listed, rfl⟩ := List.mem_map.mp member
    have positive : 1 ≤ place := List.le_snd_of_mem_zipIdx listed
    obtain ⟨place, rfl⟩ := Nat.exists_eq_add_of_le' positive
    rfl
  have first : (⟨c, .phrase number (c :: cs) 0⟩ : Tracked).call? = some (c :: cs) :=
    if_pos indicator
  rw [ofPhrase, List.zipIdx_cons, List.map_cons]
  show List.filterMap call? _ = _
  rw [List.filterMap_cons, first]
  exact congrArg ((c :: cs) :: ·) others

/-- The front of an intact text is loose as far as it has no capitals. -/
theorem Intact.split {cs : List Tracked} (intact : Intact cs) : ∀ {taken rest : List Char},
    chars cs = taken ++ rest → (∀ c ∈ taken, c.isUpper = false) →
      ∃ front back, cs = front ++ back ∧ chars front = taken ∧ (∀ c ∈ front, c.Loose) ∧
        Intact back := by
  induction intact with
  | nil =>
    intro taken rest shape _
    obtain ⟨rfl, -⟩ := List.append_eq_nil_iff.mp shape.symm
    exact ⟨[], [], rfl, rfl, by simp, .nil⟩
  | @loose c cs loose intact ih =>
    intro taken rest shape noCapital
    cases taken with
    | nil => exact ⟨[], c :: cs, rfl, rfl, by simp, .loose loose intact⟩
    | cons t ts =>
      obtain ⟨rfl, shapeBehind⟩ := List.cons.inj shape
      obtain ⟨front, back, rfl, rfl, all, intact⟩ :=
        ih shapeBehind fun d member => noCapital d (List.mem_cons_of_mem _ member)
      exact ⟨c :: front, back, rfl, rfl, List.forall_mem_cons.mpr ⟨loose, all⟩, intact⟩
  | @capital c cs capital noCall intact ih =>
    intro taken rest shape noCapital
    cases taken with
    | nil => exact ⟨[], c :: cs, rfl, rfl, by simp, .capital capital noCall intact⟩
    | cons t ts =>
      obtain ⟨rfl, -⟩ := List.cons.inj shape
      rw [noCapital c.char List.mem_cons_self] at capital
      cases capital
  | @call number text cs indicator isCall intact ih =>
    intro taken rest shape noCapital
    cases taken with
    | nil => exact ⟨[], _, rfl, rfl, by simp, .call indicator isCall intact⟩
    | cons t ts =>
      obtain ⟨c, back, rfl, capital⟩ := isCall.exists_eq_cons
      rw [chars_append, chars_ofPhrase] at shape
      obtain ⟨rfl, -⟩ := List.cons.inj shape
      rw [noCapital c List.mem_cons_self] at capital
      cases capital

/-! ## Passes over an intact text -/

/-- What is known of a pass over an intact text, given by its stretches. -/
structure SparedBy (number : Nat) (f : List (List Char) → List Char) (cs : List Tracked)
    (ss : List Stretch) : Prop where
  covered : ∀ s ∈ ss, ∀ c ∈ s.covered, c.Loose
  intact : Intact (ss.flatMap (Stretch.written number f))
  calls : (calls cs).Sublist (Tracked.calls (ss.flatMap (Stretch.written number f)))

namespace SparedBy

variable {number : Nat} {f : List (List Char) → List Char} {cs : List Tracked} {ss : List Stretch}

/-- A character that can stand in front of an intact text can be kept there. -/
theorem kept {c : Tracked} (extend : ∀ {rest}, Intact rest → Intact (c :: rest))
    (spared : SparedBy number f cs ss) : SparedBy number f (c :: cs) (.kept c :: ss) where
  covered := List.forall_mem_cons.mpr ⟨by rintro _ ⟨⟩, spared.covered⟩
  intact := extend spared.intact
  calls := by
    have sublist := (List.Sublist.refl (Tracked.calls [c])).append spared.calls
    rwa [← calls_append, ← calls_append] at sublist

theorem written_kept (kept : List Tracked) :
    (kept.map Stretch.kept).flatMap (Stretch.written number f) = kept := by
  rw [List.flatMap_map]
  exact List.flatMap_singleton' kept

/-- A call at the front is kept as a whole. -/
theorem call {writer : Nat} {text : List Char} (indicator : writer < Phrase.indicators.length)
    (isCall : IsCall text) (spared : SparedBy number f cs ss) :
    SparedBy number f (ofPhrase writer text ++ cs) ((ofPhrase writer text).map .kept ++ ss) where
  covered := by
    refine List.forall_mem_append.mpr ⟨fun s member => ?_, spared.covered⟩
    obtain ⟨c, -, rfl⟩ := List.mem_map.mp member
    rintro _ ⟨⟩
  intact := by
    rw [List.flatMap_append, written_kept]
    exact .call indicator isCall spared.intact
  calls := by
    rw [List.flatMap_append, written_kept, calls_append, calls_append]
    exact (List.Sublist.refl _).append spared.calls

/-- Loose characters at the front can be covered by a match, if what is written for them can
stand in front of an intact text. -/
theorem matched {front : List Tracked} {pieces : List (List Char)} (loose : ∀ c ∈ front, c.Loose)
    (writes : ∀ {rest}, Intact rest → Intact (ofPhrase number (f pieces) ++ rest))
    (spared : SparedBy number f cs ss) :
    SparedBy number f (front ++ cs) (.matched front pieces :: ss) where
  covered := List.forall_mem_cons.mpr ⟨loose, spared.covered⟩
  intact := writes spared.intact
  calls := by
    have noCalls := calls_eq_nil fun c member => (loose c member).noCall
    rw [List.flatMap_cons, calls_append, calls_append, noCalls]
    exact spared.calls.trans (List.sublist_append_right _ _)

end SparedBy

/-- The pattern has no capitals, and none of its matches begins within a call. -/
structure Pattern.Spares (p : Pattern) : Prop where
  noCapital : ∀ {t : List Char}, p.Describes t → ∀ c ∈ t, c.isUpper = false
  call : ∀ {text : List Char}, IsCall text → ∀ before rest, p.Passes before text rest

/-- A match at the front of an intact text covers loose characters. -/
theorem Intact.exists_front {p : Pattern} (spares : p.Spares) {cs : List Tracked}
    (intact : Intact cs) {before : Option Char} {e : Pattern.Cursor}
    (found : p.matchAt? before (chars cs) = some e) :
    ∃ front back, cs = front ++ back ∧ front ≠ [] ∧ e.rest = chars back ∧
      (∀ c ∈ front, c.Loose) ∧ Intact back := by
  obtain ⟨-, taken, nonempty, described, takes⟩ := Pattern.exists_taken_of_matchAt? found
  obtain ⟨front, back, rfl, rfl, loose, intactBack⟩ :=
    intact.split takes.rest (spares.noCapital described)
  have same : chars (front ++ back) = chars front ++ e.rest := takes.rest
  rw [chars_append] at same
  refine ⟨front, back, rfl, ?_, (List.append_cancel_left same).symm, loose, intactBack⟩
  rintro rfl
  exact nonempty rfl

/-- A pass leaves an intact text intact.  At the head of a text that is no call, either a
match begins or the character is kept. -/
theorem Intact.sparedBy {p : Pattern} (spares : p.Spares) {number : Nat}
    {f : List (List Char) → List Char}
    (writes : ∀ {before cs e}, p.matchAt? before cs = some e → ∀ {rest}, Intact rest →
      Intact (ofPhrase number (f (e.spans.map Pattern.Span.chars)) ++ rest))
    {cs : List Tracked} (intact : Intact cs) (before : Option Char) :
    SparedBy number f cs (p.stretchesFrom before 0 cs) := by
  induction length : cs.length using Nat.strongRecOn generalizing cs before with
  | _ n ih =>
    have single : ∀ (c : Tracked) (cs' : List Tracked), cs = c :: cs' → Intact cs' →
        (∀ {rest}, Intact rest → Intact (c :: rest)) →
          SparedBy number f cs (p.stretchesFrom before 0 cs) := by
      rintro c cs' rfl intactBehind extend
      cases found : p.matchAt? before (chars (c :: cs')) with
      | none =>
        have spared := ih cs'.length (by simp [← length]) intactBehind c.char rfl
        rw [Pattern.stretchesFrom, found]
        exact spared.kept extend
      | some e =>
        obtain ⟨front, back, shape, nonempty, rest, loose, intactBack⟩ :=
          intact.exists_front spares found
        have shorter : back.length < n := by
          have positive := List.length_pos_of_ne_nil nonempty
          rw [← length, shape, List.length_append]
          omega
        rw [shape, chars_append] at found
        rw [shape, stretchesFrom_of_matchAt? nonempty found rest]
        exact (ih back.length shorter intactBack _ rfl).matched loose (writes found)
    cases intact with
    | nil => exact ⟨by rintro _ ⟨⟩, .nil, List.Sublist.refl _⟩
    | loose loose intactBehind => exact single _ _ rfl intactBehind (.loose loose)
    | capital capital noCall intactBehind =>
      exact single _ _ rfl intactBehind (.capital capital noCall)
    | @call writer text cs' indicator isCall intactBehind =>
      have shorter : cs'.length < n := by
        obtain ⟨c, back, rfl, -⟩ := isCall.exists_eq_cons
        have positive : 0 < (ofPhrase writer (c :: back)).length := by simp [ofPhrase]
        rw [← length, List.length_append]
        omega
      have passes := spares.call isCall before (chars cs')
      rw [← chars_ofPhrase writer text] at passes
      rw [stretchesFrom_of_passes _ passes]
      exact (ih cs'.length shorter intactBehind _ rfl).call indicator isCall

/-! ## The phrases over an intact text -/

/-- No class of characters in a phrase has a capital. -/
theorem isUpper_eq_false_of_contains (cls : CharClass) {c : Char}
    (inClass : cls.contains c = true) : c.isUpper = false := by
  cases upper : c.isUpper with
  | false => rfl
  | true =>
    have bounds := toNat_of_isUpper upper
    cases cls with
    | blank =>
      have noBlank := isBlank_eq_false_of_between (c := c) (by omega) (by omega)
      exact absurd inClass (by rw [CharClass.contains, noBlank]; decide)
    | digit =>
      have ascii : isDecimalDigit c = c.isDigit := if_pos (by omega)
      exact absurd inClass
        (by rw [CharClass.contains, ascii, isDigit_eq_false_of_isUpper upper]; decide)

/-- In front of a parenthesis, a pattern whose texts have something else than digits in
front of their first parenthesis finds nothing in a run of digits. -/
theorem passes_days {p : Pattern} (others : ∀ {t : List Char}, p.Describes t →
      ∃ c ∈ t.takeWhile (· != ')'), isDecimalDigit c = false)
    {days : List Char} (digits : ∀ c ∈ days, isDecimalDigit c = true) (rest : List Char) :
    ∀ before, p.Passes before days (')' :: rest) := by
  have noClosing : ∀ {c}, isDecimalDigit c = true → (c != ')') = true := by
    rintro c digit
    refine bne_iff_ne.mpr ?_
    rintro rfl
    exact absurd digit (by decide)
  induction days with
  | nil => exact fun _ => trivial
  | cons d ds ih =>
    intro before
    refine ⟨?_, ih (fun c member => digits c (List.mem_cons_of_mem d member)) d⟩
    cases found : p.matchAt? before (d :: (ds ++ ')' :: rest)) with
    | none => rfl
    | some e =>
      obtain ⟨-, taken, -, described, takes⟩ := Pattern.exists_taken_of_matchAt? found
      obtain ⟨c, inFront, noDigit⟩ := others described
      have shape : d :: ds ++ ')' :: rest = taken ++ e.rest := takes.rest
      have front : (d :: ds ++ ')' :: rest).takeWhile (· != ')') = d :: ds := by
        rw [List.takeWhile_append_of_pos fun c member => noClosing (digits c member)]
        exact List.append_nil _
      have inDays : c ∈ d :: ds := by
        rw [← front, shape, List.takeWhile_append]
        split
        · exact List.mem_append_left _ ((List.takeWhile_sublist _).subset inFront)
        · exact inFront
      rw [digits c inDays] at noDigit
      cases noDigit

/-- A piece that the pattern requires is such a text if the pattern has no parenthesis. -/
theorem exists_noDigit_of_requires {p : Pattern}
    (required : p.requires (fun w => w.any fun c => !isDecimalDigit c) = true)
    (noClosing : ∀ cs ∈ p.literals, ∀ c ∈ cs, (c != ')') = true) {t : List Char}
    (described : p.Describes t) : ∃ c ∈ t.takeWhile (· != ')'), isDecimalDigit c = false := by
  have classes : ∀ (cls : CharClass) c, cls.contains c = true → (c != ')') = true := by
    intro cls c inClass
    refine bne_iff_ne.mpr ?_
    rintro rfl
    cases cls <;> exact absurd inClass (by decide)
  obtain ⟨w, within, other⟩ := described.exists_infix required
  obtain ⟨c, inPiece, noDigit⟩ := List.any_eq_true.mp other
  have all := described.forall_mem classes noClosing
  refine ⟨c, ?_, by simpa using noDigit⟩
  rw [List.takeWhile_eq_self_iff.mpr all]
  exact within.subset inPiece

theorem exists_noDigit_of_shortCall {name : String} (listed : name ∈ ["sma", "rsi"])
    {t : List Char} (described : (Phrase.shortCall name).Describes t) :
    ∃ c ∈ t.takeWhile (· != ')'), isDecimalDigit c = false := by
  obtain ⟨_, _, rfl, rfl, _, back, rfl, rfl, -⟩ := described
  have first : ∀ name ∈ ["sma", "rsi"],
      name.toList.head?.any (fun c => c != ')' && !isDecimalDigit c) = true := by
    decide
  obtain ⟨c, head, other⟩ := (Option.any_eq_true _ _).mp (first name listed)
  obtain ⟨noClosing, noDigit⟩ := Bool.and_eq_true_iff.mp other
  obtain ⟨cs, begins⟩ := List.head?_eq_some_iff.mp head
  refine ⟨c, ?_, by simpa using noDigit⟩
  rw [begins, List.nil_append, List.cons_append,
    List.takeWhile_cons_of_pos (p := (· != ')')) noClosing]
  exact List.mem_cons_self

namespace Phrase

/-- No phrase matches digits up to a closing parenthesis, so none matches the end of a call.
-/
theorem exists_noDigit_of_mem {p : Phrase} (member : p ∈ all) {t : List Char}
    (described : p.pattern.Describes t) :
    ∃ c ∈ t.takeWhile (· != ')'), isDecimalDigit c = false := by
  have kinds : ∀ p ∈ all, (p.pattern = shortCall "sma" ∨ p.pattern = shortCall "rsi") ∨
      p.pattern.requires (fun w => w.any fun c => !isDecimalDigit c) = true ∧
        ∀ cs ∈ p.pattern.literals, ∀ c ∈ cs, (c != ')') = true := by
    decide
  rcases kinds p member with (same | same) | ⟨required, noClosing⟩
  · exact exists_noDigit_of_shortCall (.head _) (same ▸ described)
  · exact exists_noDigit_of_shortCall (.tail _ (.head _)) (same ▸ described)
  · exact exists_noDigit_of_requires required noClosing described

/-- Every phrase spares capitals and the calls. -/
theorem spares_of_mem {p : Phrase} (member : p ∈ all) : p.pattern.Spares where
  noCapital := by
    have small : ∀ p ∈ all, ∀ cs ∈ p.pattern.literals, ∀ c ∈ cs, c.isUpper = false := by decide
    intro t described
    exact described.forall_mem (fun cls _ => isUpper_eq_false_of_contains cls) (small p member)
  call := by
    have settled : ∀ p ∈ all, p.pattern.passesEach "SMARI(CLOE, )".toList = true := by decide
    have inMarks : ∀ name ∈ ["SMA", "RSI"], ∀ c ∈ name.toList ++ "(CLOSE, ".toList,
        c ∈ "SMARI(CLOE, )".toList := by
      decide
    have marks := settled p member
    rintro text ⟨name, listed, days, -, digits, rfl⟩ before rest
    have front := Pattern.passes_of_passesEach marks (inMarks name listed)
      (days ++ ([')'] ++ rest)) before
    have inside := passes_days (exists_noDigit_of_mem member) digits rest
    have closing : ∀ before, p.pattern.Passes before [')'] rest :=
      Pattern.passes_of_passesEach marks (by decide) rest
    exact (front.append (inside _)).append (closing _)

/-! ### What the phrases write -/

/-- What a moving average remembers are its days. -/
theorem remembers_movingAverage : movingAverage.Remembers [digitRun.Describes] :=
  .seq (.capture (by decide)) (.of_isPlain (by decide))

theorem remembers_shortCall (name : String) : (shortCall name).Remembers [digitRun.Describes] :=
  .seq (.of_isPlain rfl) (.seq (.of_isPlain rfl) (.seq (.of_isPlain rfl) (.seq (.of_isPlain rfl)
    (.seq (.of_isPlain rfl) (.seq (.capture (by decide)) (.of_isPlain rfl))))))

/-- An indicator writes a call. -/
theorem isCall_of_mem_indicators {p : Phrase} (member : p ∈ indicators) {before : Option Char}
    {cs : List Char} {e : Pattern.Cursor} (matched : p.pattern.matchAt? before cs = some e) :
    IsCall (p.rewrite (e.spans.map Pattern.Span.chars)) := by
  have ofDays : ∀ name ∈ ["SMA", "RSI"], ∀ pieces,
      List.Forall₂ (fun P (t : List Char) => P t) [digitRun.Describes] pieces →
        IsCall (overClose name pieces) := by
    rintro name listed pieces (_ | ⟨described, ⟨⟩⟩)
    obtain ⟨_, ds, rfl, ⟨d, rfl, first⟩, later⟩ := described
    exact ⟨name, listed, d :: ds, List.cons_ne_nil d ds,
      List.forall_mem_cons.mpr ⟨first, later⟩, rfl⟩
  simp only [indicators, List.mem_cons, List.not_mem_nil, or_false] at member
  rcases member with rfl | rfl | rfl
  · exact ofDays _ (.head _) _ (remembers_movingAverage.of_matchAt? matched)
  · exact ofDays _ (.head _) _ ((remembers_shortCall "sma").of_matchAt? matched)
  · exact ofDays _ (.tail _ (.head _)) _ ((remembers_shortCall "rsi").of_matchAt? matched)

/-- Fields, comparisons and connectives write the same text for every match. -/
theorem rewrite_eq_of_mem_words {p : Phrase} (member : p ∈ fields ++ comparisons ++ connectives)
    (pieces : List (List Char)) : p.rewrite pieces = p.rewrite [] := by
  have fixedText : ∀ p ∈ fields ++ comparisons ++ connectives,
      p.rewrite = fun _ => p.rewrite [] := by
    simp [fields, comparisons, connectives, forField, forComparison, fixed]
  rw [fixedText p member]

/-- They write capitals and blanks. -/
theorem rewrite_of_mem_words {p : Phrase} (member : p ∈ fields ++ comparisons ++ connectives)
    (pieces : List (List Char)) : ∀ c ∈ p.rewrite pieces, c = ' ' ∨ c.isUpper = true := by
  have settled : ∀ p ∈ fields ++ comparisons ++ connectives,
      ∀ c ∈ p.rewrite [], c = ' ' ∨ c.isUpper = true := by
    decide
  rw [rewrite_eq_of_mem_words member]
  exact settled p member

/-- The indicators are the first phrases, and the words of the rule language follow. -/
theorem mem_of_getElem?_all {number : Nat} {p : Phrase} (listed : all[number]? = some p) :
    number < indicators.length ∧ p ∈ indicators ∨
      indicators.length ≤ number ∧
        (p ∈ fields ++ comparisons ++ connectives ∨ languageCount ≤ number) := by
  let words := fields ++ comparisons ++ connectives
  have shape : all = indicators ++ (words ++ (numbers ++ [fillers])) := by
    simp only [all, words, List.append_assoc]
  have count : languageCount = indicators.length + words.length := rfl
  rw [shape, List.getElem?_append] at listed
  split at listed
  · next first => exact .inl ⟨first, List.mem_of_getElem? listed⟩
  · next behind =>
    refine .inr ⟨Nat.not_lt.mp behind, ?_⟩
    rw [List.getElem?_append] at listed
    split at listed
    · exact .inl (List.mem_of_getElem? listed)
    · exact .inr (by omega)

end Phrase

theorem mem_ofPhrase {number : Nat} {text : List Char} {c : Tracked}
    (member : c ∈ ofPhrase number text) :
    c.char ∈ text ∧ ∃ place, c.origin = .phrase number text place := by
  obtain ⟨⟨d, place⟩, listed, rfl⟩ := List.mem_map.mp member
  exact ⟨List.fst_mem_of_mem_zipIdx listed, place, rfl⟩

/-- A phrase behind the indicators writes no call. -/
theorem call?_eq_none_of_le {number : Nat} {text : List Char} {c : Tracked}
    (noIndicator : Phrase.indicators.length ≤ number) (member : c ∈ ofPhrase number text) :
    c.call? = none := by
  obtain ⟨-, place, origin⟩ := mem_ofPhrase member
  rw [call?, origin]
  cases place with
  | zero => exact if_neg (Nat.not_lt.mpr noIndicator)
  | succ place => rfl

theorem Intact.append {front rest : List Tracked}
    (each : ∀ c ∈ front, c.Loose ∨ c.char.isUpper = true ∧ c.call? = none) (intact : Intact rest) :
    Intact (front ++ rest) := by
  induction front with
  | nil => exact intact
  | cons c cs ih =>
    obtain ⟨first, later⟩ := List.forall_mem_cons.mp each
    rcases first with loose | ⟨capital, noCall⟩
    · exact .loose loose (ih later)
    · exact .capital capital noCall (ih later)

/-- What a phrase writes keeps an intact text intact. -/
theorem Intact.ofPhrase_append {number : Nat} {p : Phrase} (listed : Phrase.all[number]? = some p)
    {before : Option Char} {cs : List Char} {e : Pattern.Cursor}
    (matched : p.pattern.matchAt? before cs = some e) {rest : List Tracked} (intact : Intact rest) :
    Intact (ofPhrase number (p.rewrite (e.spans.map Pattern.Span.chars)) ++ rest) := by
  rcases Phrase.mem_of_getElem?_all listed with ⟨indicator, member⟩ | ⟨noIndicator, kind⟩
  · exact .call indicator (Phrase.isCall_of_mem_indicators member matched) intact
  · refine intact.append fun c written => ?_
    obtain ⟨inText, place, origin⟩ := mem_ofPhrase written
    have noCall := call?_eq_none_of_le noIndicator written
    rcases kind with word | noLanguage
    · rcases Phrase.rewrite_of_mem_words word _ c.char inText with blank | capital
      · exact .inl ⟨fun _ => blank, noCall⟩
      · exact .inr ⟨capital, noCall⟩
    · refine .inl ⟨fun isLanguage => ?_, noCall⟩
      rw [IsLanguage, origin] at isLanguage
      exact absurd isLanguage (Nat.not_lt.mpr noLanguage)

/-- A phrase leaves an intact text intact. -/
theorem Intact.sparedBy_phrase {number : Nat} {p : Phrase} (listed : Phrase.all[number]? = some p)
    {cs : List Tracked} (intact : Intact cs) : SparedBy number p.rewrite cs (p.stretches cs) :=
  intact.sparedBy (Phrase.spares_of_mem (List.mem_of_getElem? listed))
    (Intact.ofPhrase_append listed) none

namespace Phrase

variable (clause : List Char)

/-- One more pass. -/
theorem tracked_succ {number : Nat} {p : Phrase} (listed : all[number]? = some p) :
    tracked clause (number + 1) = p.track number (tracked clause number) := by
  rw [tracked, listed]

/-- Without the origins the clause is what the phrases make of it one after the other. -/
theorem chars_tracked (number : Nat) : chars (tracked clause number) =
    (all.take number).foldl (fun text phrase => phrase.apply text) (lower clause) := by
  induction number with
  | zero => exact chars_ofClause (lower clause)
  | succ number ih =>
    rw [List.take_add_one, List.foldl_append, ← ih]
    cases listed : all[number]? with
    | none => rw [tracked, listed]; rfl
    | some p =>
      rw [tracked_succ clause listed, chars_track]
      rfl

/-- After any number of passes the text is intact. -/
theorem intact_tracked (number : Nat) : Intact (tracked clause number) := by
  induction number with
  | zero =>
    have loose : ∀ c ∈ ofClause (lower clause), c.Loose := by
      intro c member
      obtain ⟨d, -, rfl⟩ := List.mem_map.mp member
      exact ⟨by rintro ⟨⟩, rfl⟩
    rw [tracked, ← List.append_nil (ofClause _)]
    exact Intact.append (fun c member => .inl (loose c member)) .nil
  | succ number ih =>
    cases listed : all[number]? with
    | none =>
      rw [tracked, listed]
      exact ih
    | some p =>
      rw [tracked_succ clause listed]
      exact (ih.sparedBy_phrase listed).intact

/-- A call that was written stays through all later passes. -/
theorem sublist_calls_tracked {number number' : Nat} (earlier : number ≤ number') :
    (calls (tracked clause number)).Sublist (calls (tracked clause number')) := by
  induction earlier with
  | refl => exact List.Sublist.refl _
  | @step number' _ ih =>
    cases listed : all[number']? with
    | none =>
      rw [tracked, listed]
      exact ih
    | some p =>
      rw [tracked_succ clause listed]
      exact ih.trans ((intact_tracked clause number').sparedBy_phrase listed).calls

end Phrase

end MarketRules
