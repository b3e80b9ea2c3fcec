import MarketRules.English.Phrases
import MarketRules.Proofs.English.Pieces

/-!
# The phrases, one after another

Every piece of an English rule waits for the one phrase that rewrites it, and is left
alone by all others, in whatever state its neighbours are.  For the pieces that are
words this is a matter of evaluation, since a few characters of the neighbours
decide.  Numbers have any length.  No phrase but that of moving averages takes a run of
digits for anything, since what would have to follow does not follow.
-/

namespace MarketRules

open Pattern

/-! ## Passes over a rule -/

/-- Whether a word character can stand in front of the joint. -/
def Joint.inWords : Joint → List Bool
  | .before => [false]
  | .after => [false, true]

/-- The character can stand in front of the joint. -/
def Joint.Allows (j : Joint) (before : Option Char) : Prop := before.any isWordChar ∈ j.inWords

theorem Joint.allows_after (before : Option Char) : Joint.after.Allows before :=
  any_isWordChar_mem before

/-- The phrase rewrites the text on its own, between these two joints. -/
def Phrase.Rewrites (p : Phrase) (x y : Joint) (cs turned rest : List Char) : Prop :=
  ∀ before, x.Allows before →
    p.pattern.Turns p.rewrite before cs turned rest ∧ y.Allows (behind before cs)

/-- A phrase rewrites two pieces as it rewrites each of them. -/
theorem Phrase.composes_rewrites (p : Phrase) : Composes p.Rewrites := by
  refine ⟨fun first second before allowed => ?_⟩
  obtain ⟨turned, allowed⟩ := first before allowed
  obtain ⟨turned', allowed⟩ := second _ allowed
  rw [behind_append]
  exact ⟨turned.append turned', allowed⟩

theorem composes_passes (p : Pattern) :
    Composes fun _ _ cs _ rest => ∀ before, p.Passes before cs rest where
  append first second before := (first before).append (second _)

/-- The phrase leaves parentheses alone, and a point at the end of the text. -/
structure Phrase.KeepsMarks (p : Phrase) : Prop where
  opening : p.pattern.passesWithin [.unknown] [false] ['('] = true
  closing : p.pattern.passesWithin [.unknown] [false, true] [')'] = true
  point : p.pattern.passesWithin [⟨[], true⟩] [false, true] ['.'] = true

/-- Every phrase leaves parentheses alone, and a point at the end. -/
theorem Phrase.keepsMarks_of_mem {p : Phrase} (member : p ∈ all) : p.KeepsMarks := by
  have opening : ∀ p ∈ all, p.pattern.passesWithin [.unknown] [false] ['('] = true := by
    decide
  have closing : ∀ p ∈ all, p.pattern.passesWithin [.unknown] [false, true] [')'] = true := by
    decide
  have point : ∀ p ∈ all, p.pattern.passesWithin [⟨[], true⟩] [false, true] ['.'] = true := by
    decide
  exact ⟨opening p member, closing p member, point p member⟩

namespace EnglishPiece

/-- How a clause goes on behind its rule. -/
def clauseEnds : List Ahead := [⟨['.'], true⟩, ⟨[], true⟩]

/-- The wording of a piece that its phrase has not rewritten yet, or has. -/
def wording (done : Bool) (piece : EnglishPiece) : List Char :=
  if done then piece.rewritten else piece.english

/-- The phrase takes the piece from one wording to another, wherever it stands. -/
def Moves (piece : EnglishPiece) (p : Phrase) (done done' : Bool) : Prop :=
  ∀ rest, GoesOn (piece.ahead clauseEnds) rest →
    p.Rewrites piece.start piece.stop (piece.wording done) (piece.wording done') rest

/-- The phrases bring the piece to its last wording. -/
def Settles (piece : EnglishPiece) : List Phrase → Bool → Prop
  | [], done => done = true
  | p :: ps, done => ∃ done', piece.Moves p done done' ∧ piece.Settles ps done'

end EnglishPiece

/-! ### Pieces that are words -/

/-- What `k` makes of a text.  When this is evaluated, each character is evaluated
first, and only once. -/
def withChars {α : Type} : List Char → (List Char → α) → α
  | [], k => k []
  | c :: cs, k =>
    match c.toNat with
    | 0 => withChars cs fun cs => k (c :: cs)
    | n + 1 => withChars cs fun cs => k (Char.ofNat (n + 1) :: cs)

theorem withChars_eq {α : Type} (cs : List Char) : ∀ k : List Char → α, withChars cs k = k cs := by
  induction cs with
  | nil => exact fun k => rfl
  | cons c cs ih =>
    intro k
    rw [withChars]
    split
    · exact ih _
    · next number =>
      rw [ih, ← Nat.succ_eq_add_one, ← number, Char.ofNat_toNat]

namespace EnglishPiece

/-- Do the phrases bring a text from its wording in English to its last one? -/
def settlesWithin (inWords : List Bool) (ways : List Ahead) (english rewritten : List Char) :
    List Phrase → Bool → Bool
  | [], done => done
  | p :: ps, true =>
    p.pattern.passesWithin ways inWords rewritten &&
      settlesWithin inWords ways english rewritten ps true
  | p :: ps, false =>
    (p.pattern.passesWithin ways inWords english &&
      settlesWithin inWords ways english rewritten ps false) ||
    (p.pattern.turnsWithin (p.rewrite []) ways inWords english rewritten &&
      settlesWithin inWords ways english rewritten ps true)

/-- Can the text end at this joint? -/
def reaches (j : Joint) (cs : List Char) : Bool :=
  j == .after || cs.getLast?.any fun c => !isWordChar c

/-- Do all phrases bring the piece to its last wording? -/
def settled (piece : EnglishPiece) : Bool :=
  withChars piece.english fun english => withChars piece.rewritten fun rewritten =>
    reaches piece.stop english && reaches piece.stop rewritten &&
      settlesWithin piece.start.inWords (piece.ahead clauseEnds) english rewritten Phrase.all false

/-- A piece that reaches its joint leaves a character that the joint allows. -/
theorem allows_behind {j : Joint} {cs : List Char} (reached : reaches j cs = true)
    (before : Option Char) : j.Allows (behind before cs) := by
  rcases Bool.or_eq_true_iff.mp reached with after | outside
  · obtain rfl := eq_of_beq after
    exact Joint.allows_after _
  · cases last : cs.getLast? with
    | none =>
      rw [last] at outside
      cases outside
    | some c =>
      obtain ⟨front, rfl⟩ := List.getLast?_eq_some_iff.mp last
      rw [last] at outside
      have noWord : (behind before (front ++ [c])).any isWordChar = false := by
        simpa [behind_append, behind] using outside
      rw [Joint.Allows, noWord]
      cases j <;> decide

end EnglishPiece

/-! ### Passages -/

/-- A text with two wordings, of which a phrase makes the second from the first.  It
stands between two joints, and the text behind it goes on in one of some ways. -/
structure Passage where
  start : Joint
  stop : Joint
  ahead : List Ahead
  /-- The wording that its phrase has not rewritten yet, or has. -/
  wording : (done : Bool) → List Char

namespace Passage

open EnglishPiece (settlesWithin reaches allows_behind)

/-- The phrase takes the text from one wording to another, wherever it stands. -/
def Moves (t : Passage) (p : Phrase) (done done' : Bool) : Prop :=
  ∀ rest, GoesOn t.ahead rest →
    p.Rewrites t.start t.stop (t.wording done) (t.wording done') rest

/-- The phrases bring the text to its last wording. -/
def Settles (t : Passage) : List Phrase → Bool → Prop
  | [], done => done = true
  | p :: ps, done => ∃ done', t.Moves p done done' ∧ t.Settles ps done'

variable {t : Passage}

theorem moves_of_passesWithin {p : Phrase} {done : Bool}
    (reached : reaches t.stop (t.wording done) = true)
    (passed : p.pattern.passesWithin t.ahead t.start.inWords (t.wording done) = true) :
    t.Moves p done done := by
  intro rest goesOn before allowed
  exact ⟨(passes_of_passesWithin goesOn passed allowed).turns, allows_behind reached before⟩

/-- A text that ends with an operand, and behind which nothing follows. -/
theorem moves_of_turns_at_end {p : Phrase} {done done' : Bool} (ahead : t.ahead = [⟨[], true⟩])
    (stops : t.stop = .after) (turns : ∀ before,
      p.pattern.Turns p.rewrite before (t.wording done) (t.wording done') []) :
    t.Moves p done done' := by
  intro rest goesOn before _
  rw [ahead] at goesOn
  obtain ⟨a, listed, more, rfl, whole⟩ := goesOn
  obtain rfl := List.mem_singleton.mp listed
  obtain rfl := whole rfl
  rw [stops]
  exact ⟨turns before, Joint.allows_after _⟩

/-- What is evaluated on the two wordings alone holds in every text around them. -/
theorem settles_of_settlesWithin (reached : ∀ done, reaches t.stop (t.wording done) = true)
    (ps : List Phrase) : ∀ done, settlesWithin t.start.inWords t.ahead (t.wording false)
      (t.wording true) ps done = true → t.Settles ps done := by
  induction ps with
  | nil => exact fun done isDone => isDone
  | cons p ps ih =>
    intro done run
    cases done with
    | true =>
      obtain ⟨passed, later⟩ := Bool.and_eq_true_iff.mp run
      exact ⟨true, moves_of_passesWithin (reached true) passed, ih true later⟩
    | false =>
      rcases Bool.or_eq_true_iff.mp run with waits | turns
      · obtain ⟨passed, later⟩ := Bool.and_eq_true_iff.mp waits
        exact ⟨false, moves_of_passesWithin (reached false) passed, ih false later⟩
      · obtain ⟨turned, later⟩ := Bool.and_eq_true_iff.mp turns
        refine ⟨true, ?_, ih true later⟩
        intro rest goesOn before allowed
        exact ⟨turns_of_turnsWithin goesOn turned allowed, allows_behind (reached false) before⟩

/-- Phrases that leave the text alone can stand in front of others. -/
theorem settles_append {ps qs : List Phrase} {done : Bool}
    (moves : ∀ p ∈ ps, t.Moves p done done) (later : t.Settles qs done) :
    t.Settles (ps ++ qs) done := by
  induction ps with
  | nil => exact later
  | cons p ps ih =>
    exact ⟨done, moves p List.mem_cons_self,
      ih fun q member => moves q (List.mem_cons_of_mem p member)⟩

theorem settles_of_moves {ps : List Phrase} (moves : ∀ p ∈ ps, t.Moves p true true) :
    t.Settles ps true := by
  have whole : t.Settles (ps ++ []) true := settles_append moves rfl
  rwa [List.append_nil] at whole

/-- The phrases bring a text of many passages to its last wording if each of them takes all
passages on together. -/
theorem foldl_apply {Piece : Type} (passage : Piece → Passage)
    (text : (Piece → List Char) → List Char) (ps : List Phrase)
    (apply : ∀ p ∈ ps, ∀ done done' : Piece → Bool,
      (∀ piece, (passage piece).Moves p (done piece) (done' piece)) →
        p.apply (text fun piece => (passage piece).wording (done piece)) =
          text fun piece => (passage piece).wording (done' piece)) :
    ∀ done : Piece → Bool, (∀ piece, (passage piece).Settles ps (done piece)) →
      ps.foldl (fun text phrase => phrase.apply text)
        (text fun piece => (passage piece).wording (done piece)) =
          text fun piece => (passage piece).wording true := by
  induction ps with
  | nil =>
    intro done settled
    have same : (fun piece => (passage piece).wording (done piece)) =
        fun piece => (passage piece).wording true := by
      funext piece
      exact congrArg (passage piece).wording (settled piece)
    rw [List.foldl_nil, same]
  | cons p ps ih =>
    intro done settles
    obtain ⟨done', settled⟩ := Classical.skolem.mp settles
    rw [List.foldl_cons, apply p List.mem_cons_self done done' fun piece => (settled piece).1]
    exact ih (fun q member => apply q (List.mem_cons_of_mem p member)) done'
      fun piece => (settled piece).2

end Passage

namespace EnglishPiece

/-- The piece as a passage of a clause. -/
def passage (piece : EnglishPiece) : Passage where
  start := piece.start
  stop := piece.stop
  ahead := piece.ahead clauseEnds
  wording done := piece.wording done

theorem passage_settles_iff (piece : EnglishPiece) (ps : List Phrase) :
    ∀ done, piece.passage.Settles ps done ↔ piece.Settles ps done := by
  induction ps with
  | nil => exact fun done => Iff.rfl
  | cons p ps ih => exact fun done => exists_congr fun done' => and_congr_right fun _ => ih done'

theorem settles_of_settled {piece : EnglishPiece} (settled : piece.settled = true) :
    piece.Settles Phrase.all false := by
  rw [EnglishPiece.settled, withChars_eq, withChars_eq] at settled
  obtain ⟨reached, run⟩ := Bool.and_eq_true_iff.mp settled
  obtain ⟨english, rewritten⟩ := Bool.and_eq_true_iff.mp reached
  refine (piece.passage_settles_iff Phrase.all false).mp
    (Passage.settles_of_settlesWithin ?_ Phrase.all false run)
  intro done
  cases done with
  | true => exact rewritten
  | false => exact english

/-- Every piece of the listed ones is settled, by evaluation. -/
theorem settles_of_mem_words {piece : EnglishPiece} (member : piece ∈ words) :
    piece.Settles Phrase.all false := by
  have settled : ∀ piece ∈ words, piece.settled = true := by decide +kernel
  exact settles_of_settled (settled piece member)

/-- No phrase for a field, a comparison or a connective is without a piece that waits for
it. -/
example : ∀ p ∈ Phrase.fields ++ Phrase.comparisons ++ Phrase.connectives,
    ∃ piece ∈ words, p.apply piece.english = piece.rewritten := by
  decide +kernel

end EnglishPiece

end MarketRules
