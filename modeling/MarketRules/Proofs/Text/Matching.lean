import Mathlib.Data.List.Forall2
import MarketRules.Text.Pattern

/-!
# Matching with a limited view

Often a few characters behind a place decide what a pattern does there, whatever
follows them.  A `Sight` is what is known of a place: whether a word character
stands in front of it, and the first characters behind it.  `Pattern.endsWithin?`
follows the search with nothing but a sight, and gives up where the search looks
past it.  What it finds is what the search finds in every text that looks like the
sight, so a fact about all texts with a given beginning is settled by evaluation.

On top of this stands the vocabulary for a pattern that goes over a text piece by
piece: `Pattern.Passes` for a piece in which no match begins, and `Pattern.Turns` for
a piece that is rewritten on its own.
-/

namespace MarketRules.Pattern

/-! ## Sights -/

/-- What is known of a place in a text. -/
structure Sight where
  /-- Does a word character stand in front of it? -/
  inWord : Bool
  /-- The first characters behind it. -/
  chars : List Char
deriving DecidableEq

/-- The cursor is at a place that looks like the sight, with `more` behind what is
seen, and remembers `spans`. -/
structure Sight.Shows (s : Sight) (more : List Char) (spans : List Span) (c : Cursor) : Prop where
  before : c.before.any isWordChar = s.inWord
  rest : c.rest = s.chars ++ more
  spans : c.spans = spans

section

variable (isAll : Bool)

/-- The place behind a text.  `isAll` says that nothing follows what is seen. -/
def Sight.skip? (s : Sight) : List Char → Option (List Sight)
  | [] => some [s]
  | x :: xs =>
    match s.chars with
    | [] => if isAll then some [] else none
    | y :: ys => if x = y then Sight.skip? ⟨isWordChar y, ys⟩ xs else some []
termination_by structural cs => cs

/-- The places in and behind a run of characters of a class. -/
def sightsInRun? (cls : CharClass) (found : List Sight) (inWord : Bool) :
    List Char → Option (List Sight)
  | [] => if isAll then some (⟨inWord, []⟩ :: found) else none
  | x :: xs =>
    if cls.contains x then sightsInRun? cls (⟨inWord, x :: xs⟩ :: found) (isWordChar x) xs
    else some (⟨inWord, x :: xs⟩ :: found)
termination_by structural cs => cs

/-- All that is found from several places, if it is found from each of them. -/
def foundFrom? (find? : Sight → Option (List Sight)) : List Sight → Option (List Sight)
  | [] => some []
  | s :: ss => (find? s).bind fun found => (foundFrom? find? ss).map (found ++ ·)
termination_by structural ss => ss

/-- The places where a piece that begins at a sight can end, if what is seen decides
it.  A piece that is repeated, or remembered, is only followed if there is none. -/
def endsWithin? : Pattern → Sight → Option (List Sight)
  | literal cs, s => s.skip? isAll cs
  | one cls, s =>
    match s.chars with
    | [] => if isAll then some [] else none
    | x :: xs => some (if cls.contains x then [⟨isWordChar x, xs⟩] else [])
  | most cls, s => sightsInRun? isAll cls [] s.inWord s.chars
  | edge, s =>
    match s.chars with
    | [] => if isAll then some (if s.inWord then [s] else []) else none
    | x :: _ => some (if s.inWord != isWordChar x then [s] else [])
  | seq p q, s => (p.endsWithin? s).bind (foundFrom? q.endsWithin?)
  | either p q, s => (p.endsWithin? s).bind fun found => (q.endsWithin? s).map (found ++ ·)
  | many _, _ => none
  | capture p, s => (p.endsWithin? s).filter List.isEmpty

variable {isAll} {more : List Char} {spans : List Span}

/-! ### What is found in a sight is what is found in the text -/

/-- A sight that is skipped shows the cursor that is. -/
theorem Sight.skip?_sound (whole : isAll = true → more = []) (cs : List Char) :
    ∀ {s : Sight} {ss : List Sight} {c : Cursor}, s.skip? isAll cs = some ss →
      s.Shows more spans c → List.Forall₂ (Shows · more spans) ss (c.skip? cs).toList := by
  induction cs with
  | nil =>
    rintro s ss c ⟨⟩ shows
    exact .cons shows .nil
  | cons x xs ih =>
    rintro ⟨inWord, chars⟩ ss ⟨before, rest, remembered⟩ found ⟨inFront, ahead, same⟩
    dsimp only at inFront ahead same
    subst ahead
    cases chars with
    | nil =>
      obtain ⟨atEnd, ⟨⟩⟩ := Option.ite_none_right_eq_some.mp found
      rw [whole atEnd]
      exact .nil
    | cons y ys =>
      rw [Sight.skip?] at found
      rw [List.cons_append, Cursor.skip?]
      dsimp only at found ⊢
      by_cases equal : x = y
      · rw [if_pos equal] at found ⊢
        exact ih found ⟨rfl, rfl, same⟩
      · rw [if_neg equal] at found ⊢
        cases found
        exact .nil

/-- The sights in a run show its cursors. -/
theorem sightsInRun?_sound (whole : isAll = true → more = []) (cls : CharClass)
    (chars : List Char) : ∀ {found ss : List Sight} {reached : List Cursor} {inWord : Bool}
      {before : Option Char}, sightsInRun? isAll cls found inWord chars = some ss →
      List.Forall₂ (Sight.Shows · more spans) found reached → before.any isWordChar = inWord →
      List.Forall₂ (Sight.Shows · more spans) ss
        (longRuns cls spans reached before (chars ++ more)) := by
  induction chars with
  | nil =>
    intro found ss reached inWord before run shown inFront
    obtain ⟨atEnd, ⟨⟩⟩ := Option.ite_none_right_eq_some.mp run
    obtain rfl := whole atEnd
    exact .cons ⟨inFront, rfl, rfl⟩ shown
  | cons x xs ih =>
    intro found ss reached inWord before run shown inFront
    have here : List.Forall₂ (Sight.Shows · more spans) (⟨inWord, x :: xs⟩ :: found)
        (⟨before, x :: (xs ++ more), spans⟩ :: reached) :=
      .cons ⟨inFront, rfl, rfl⟩ shown
    rw [sightsInRun?] at run
    rw [List.cons_append, longRuns]
    by_cases inClass : cls.contains x = true
    · rw [if_pos inClass] at run ⊢
      exact ih run here rfl
    · rw [if_neg inClass] at run ⊢
      cases run
      exact here

theorem foundFrom?_sound {find? : Sight → Option (List Sight)} {ends : Cursor → List Cursor}
    (sound : ∀ {s ss c}, find? s = some ss → s.Shows more spans c →
      List.Forall₂ (Sight.Shows · more spans) ss (ends c))
    {starts : List Sight} {cursors : List Cursor}
    (shown : List.Forall₂ (Sight.Shows · more spans) starts cursors) :
    ∀ {ss : List Sight}, foundFrom? find? starts = some ss →
      List.Forall₂ (Sight.Shows · more spans) ss (cursors.flatMap ends) := by
  induction shown with
  | nil =>
    rintro ss ⟨⟩
    exact .nil
  | cons first _ ih =>
    intro ss found
    obtain ⟨front, foundFront, found⟩ := Option.bind_eq_some_iff.mp found
    obtain ⟨back, foundBack, rfl⟩ := Option.map_eq_some_iff.mp found
    rw [List.flatMap_cons]
    exact List.rel_append (sound foundFront first) (ih foundBack)

/-- What is found within a sight is found in the same order in every text that looks
like it. -/
theorem endsWithin?_sound (whole : isAll = true → more = []) (p : Pattern) :
    ∀ {s : Sight} {ss : List Sight} {c : Cursor}, p.endsWithin? isAll s = some ss →
      s.Shows more spans c → List.Forall₂ (Sight.Shows · more spans) ss (p.ends c) := by
  induction p with
  | literal cs => exact Sight.skip?_sound whole cs
  | one cls =>
    rintro ⟨inWord, chars⟩ ss ⟨before, rest, remembered⟩ found ⟨inFront, ahead, same⟩
    dsimp only at inFront ahead same
    subst ahead
    cases chars with
    | nil =>
      obtain ⟨atEnd, ⟨⟩⟩ := Option.ite_none_right_eq_some.mp found
      rw [whole atEnd]
      exact .nil
    | cons x xs =>
      obtain rfl := Option.some.inj found
      rw [ends, List.cons_append]
      dsimp only
      split
      · exact .cons ⟨rfl, rfl, same⟩ .nil
      · exact .nil
  | most cls =>
    rintro ⟨inWord, chars⟩ ss ⟨before, rest, remembered⟩ found ⟨inFront, ahead, same⟩
    dsimp only at inFront ahead same
    subst ahead same
    exact sightsInRun?_sound whole cls chars found .nil inFront
  | edge =>
    rintro ⟨inWord, chars⟩ ss ⟨before, rest, remembered⟩ found ⟨inFront, ahead, same⟩
    dsimp only at inFront ahead same
    subst inFront ahead same
    cases chars with
    | nil =>
      obtain ⟨atEnd, ⟨⟩⟩ := Option.ite_none_right_eq_some.mp found
      obtain rfl := whole atEnd
      rw [ends, Cursor.atEdge]
      show List.Forall₂ _ _ (if (before.any isWordChar != false) = true then _ else [])
      rw [Bool.bne_false]
      dsimp only
      split
      · exact .cons ⟨rfl, rfl, rfl⟩ .nil
      · exact .nil
    | cons x xs =>
      obtain rfl := Option.some.inj found
      rw [ends, Cursor.atEdge]
      show List.Forall₂ _ _ (if (before.any isWordChar != isWordChar x) = true then _ else [])
      split
      · exact .cons ⟨rfl, rfl, rfl⟩ .nil
      · exact .nil
  | seq p q ihp ihq =>
    intro s ss c found shows
    obtain ⟨middle, foundMiddle, found⟩ := Option.bind_eq_some_iff.mp found
    exact foundFrom?_sound ihq (ihp foundMiddle shows) found
  | either p q ihp ihq =>
    intro s ss c found shows
    obtain ⟨front, foundFront, found⟩ := Option.bind_eq_some_iff.mp found
    obtain ⟨back, foundBack, rfl⟩ := Option.map_eq_some_iff.mp found
    exact List.rel_append (ihp foundFront shows) (ihq foundBack shows)
  | many p => rintro s ss c ⟨⟩
  | capture p ih =>
    intro s ss c found shows
    obtain ⟨foundInside, noEnd⟩ := Option.filter_eq_some_iff.mp found
    have inside := ih foundInside shows
    rw [List.isEmpty_iff.mp noEnd] at inside ⊢
    rw [ends, List.forall₂_nil_left_iff.mp inside]
    exact .nil

end

/-! ## The match at a place -/

/-- What is seen behind the preferred match at a sight, if what is seen decides it. -/
def matchWithin? (isAll : Bool) (p : Pattern) (s : Sight) : Option (Option (List Char)) :=
  (p.endsWithin? isAll s).map fun ss =>
    (ss.find? fun e => e.chars.length < s.chars.length).map (·.chars)

theorem find?_shown {more : List Char} {spans : List Span} {ss : List Sight} {es : List Cursor}
    (shown : List.Forall₂ (Sight.Shows · more spans) ss es) (n : Nat) :
    (es.find? fun e => e.rest.length < n + more.length).map (fun e => (e.rest, e.spans)) =
      (ss.find? fun s => s.chars.length < n).map fun s => (s.chars ++ more, spans) := by
  induction shown with
  | nil => rfl
  | @cons s e ss es first _ ih =>
    have same : decide (e.rest.length < n + more.length) = decide (s.chars.length < n) := by
      simp only [first.rest, List.length_append, Nat.add_lt_add_iff_right]
    rw [List.find?_cons, List.find?_cons, same]
    cases decide (s.chars.length < n) with
    | true => rw [Option.map_some, Option.map_some, first.rest, first.spans]
    | false => exact ih

/-- What is found within a sight is found in every text that begins like it. -/
theorem matchAt?_of_matchWithin? {isAll : Bool} {p : Pattern} {s : Sight}
    {found : Option (List Char)} (decided : p.matchWithin? isAll s = some found)
    {more : List Char} (whole : isAll = true → more = []) {before : Option Char}
    (inFront : before.any isWordChar = s.inWord) :
    (p.matchAt? before (s.chars ++ more)).map (fun e => (e.rest, e.spans)) =
      found.map fun behind => (behind ++ more, []) := by
  obtain ⟨ss, ends, rfl⟩ := Option.map_eq_some_iff.mp decided
  have shown := endsWithin?_sound whole p ends
    (c := ⟨before, s.chars ++ more, []⟩) ⟨inFront, rfl, rfl⟩
  rw [matchAt?, List.length_append, find?_shown shown, Option.map_map]
  rfl

/-! ## Piece by piece -/

/-- The character in front of what follows a piece. -/
def behind (before : Option Char) (cs : List Char) : Option Char :=
  cs.foldl (fun _ c => some c) before

theorem behind_append (before : Option Char) (cs cs' : List Char) :
    behind before (cs ++ cs') = behind (behind before cs) cs' :=
  List.foldl_append

theorem behind_none (cs : List Char) : behind none cs = cs.getLast? := by
  rcases List.eq_nil_or_concat cs with rfl | ⟨front, c, rfl⟩
  · rfl
  · rw [List.concat_eq_append, behind_append, List.getLast?_concat]
    rfl

/-- No match begins in the piece, in front of `rest`. -/
def Passes (p : Pattern) (before : Option Char) : List Char → List Char → Prop
  | [], _ => True
  | c :: cs, rest => p.matchAt? before (c :: (cs ++ rest)) = none ∧ Passes p c cs rest

/-- The piece is rewritten on its own, in front of `rest`. -/
def Turns (p : Pattern) (f : List (List Char) → List Char) (before : Option Char)
    (cs written rest : List Char) : Prop :=
  p.replaceFrom f before 0 (cs ++ rest) = written ++ p.replaceFrom f (behind before cs) 0 rest

section

variable {p : Pattern} {f : List (List Char) → List Char} {cs cs' written written' rest : List Char}

/-- A pattern that passes two texts passes them one behind the other. -/
theorem Passes.append : ∀ {cs : List Char} {before : Option Char},
    p.Passes before cs (cs' ++ rest) → p.Passes (behind before cs) cs' rest →
      p.Passes before (cs ++ cs') rest
  | [], _, _, second => second
  | c :: cs, before, ⟨noMatch, first⟩, second => by
    have shape : cs ++ cs' ++ rest = cs ++ (cs' ++ rest) := List.append_assoc cs cs' rest
    exact ⟨shape ▸ noMatch, Passes.append first second⟩

/-- Two texts that are rewritten are rewritten one behind the other. -/
theorem Turns.append {before : Option Char} (first : p.Turns f before cs written (cs' ++ rest))
    (second : p.Turns f (behind before cs) cs' written' rest) :
    p.Turns f before (cs ++ cs') (written ++ written') rest := by
  rw [Turns, List.append_assoc, first, second, behind_append, List.append_assoc]

/-- A piece in which no match begins is kept. -/
theorem Passes.turns : ∀ {cs : List Char} {before : Option Char},
    p.Passes before cs rest → p.Turns f before cs cs rest
  | [], _, _ => rfl
  | c :: cs, before, ⟨noMatch, later⟩ => by
    rw [Turns, List.cons_append, replaceFrom, noMatch]
    exact congrArg (c :: ·) (Passes.turns later)

/-- The first match is looked for behind a piece in which none begins. -/
theorem Passes.split? : ∀ {cs : List Char} {before : Option Char},
    p.Passes before cs rest → p.split? before (cs ++ rest) =
      (p.split? (behind before cs) rest).map fun (front, back) => (cs ++ front, back)
  | [], _, _ => by
    rw [List.nil_append]
    exact (congrFun Option.map_id _).symm
  | c :: cs, before, ⟨noMatch, later⟩ => by
    rw [List.cons_append, Pattern.split?, noMatch]
    dsimp only
    rw [Passes.split? later, Option.map_map]
    rfl

/-- The characters of a match are passed over. -/
theorem replaceFrom_skip (cs rest : List Char) : ∀ before : Option Char,
    p.replaceFrom f before cs.length (cs ++ rest) = p.replaceFrom f (behind before cs) 0 rest := by
  induction cs with
  | nil => exact fun before => rfl
  | cons c cs ih => exact fun before => ih c

theorem Passes.of_append : ∀ {cs : List Char} {before : Option Char},
    p.Passes before (cs ++ cs') rest → p.Passes before cs (cs' ++ rest)
  | [], _, _ => trivial
  | c :: cs, before, ⟨noMatch, later⟩ => by
    have shape : cs ++ cs' ++ rest = cs ++ (cs' ++ rest) := List.append_assoc cs cs' rest
    exact ⟨shape ▸ noMatch, Passes.of_append later⟩

/-- A piece that is a match is rewritten as a whole. -/
theorem turns_of_matchAt? {before : Option Char} {e : Cursor} (nonempty : cs ≠ [])
    (matched : p.matchAt? before (cs ++ rest) = some e) (ends : e.rest = rest) :
    p.Turns f before cs (f (e.spans.map Span.chars)) rest := by
  obtain ⟨c, cs, rfl⟩ := List.exists_cons_of_ne_nil nonempty
  rw [List.cons_append] at matched
  rw [Turns, List.cons_append, replaceFrom, matched]
  dsimp only
  rw [ends, List.length_append, Nat.add_sub_cancel, replaceFrom_skip]
  rfl

end

/-! ### Pieces that are settled by what is seen -/

/-- How a text goes on. -/
structure Ahead where
  /-- Its first characters. -/
  chars : List Char
  /-- It has no others. -/
  isAll : Bool
deriving DecidableEq

/-- The text begins so. -/
def Ahead.Begins (a : Ahead) (rest : List Char) : Prop :=
  ∃ more, rest = a.chars ++ more ∧ (a.isAll = true → more = [])

/-- The text goes on in one of these ways. -/
def GoesOn (ways : List Ahead) (rest : List Char) : Prop := ∃ a ∈ ways, a.Begins rest

/-- Nothing is known of how a text goes on. -/
def Ahead.unknown : Ahead := ⟨[], false⟩

theorem goesOn_unknown (rest : List Char) : GoesOn [.unknown] rest :=
  ⟨.unknown, List.mem_singleton.mpr rfl, rest, rfl, by rintro ⟨⟩⟩

theorem GoesOn.of_mem {ways : List Ahead} (cs : List Char) (member : ⟨cs, false⟩ ∈ ways)
    (rest : List Char) : GoesOn ways (cs ++ rest) :=
  ⟨_, member, rest, rfl, by rintro ⟨⟩⟩

theorem any_isWordChar_mem (before : Option Char) : before.any isWordChar ∈ [false, true] := by
  cases before.any isWordChar <;> decide

/-- Is it settled that there is no match here, in whichever of these ways the text
goes on behind `cs`? -/
def noMatchWithin (p : Pattern) (ways : List Ahead) (inWord : Bool) (cs : List Char) : Bool :=
  p.matchWithin? false ⟨inWord, cs⟩ == some none ||
    ways.all fun a => p.matchWithin? a.isAll ⟨inWord, cs ++ a.chars⟩ == some none

/-- Is it settled that no match begins in the piece? -/
def passesWithin (p : Pattern) (ways : List Ahead) (inWords : List Bool) : List Char → Bool
  | [] => true
  | c :: cs =>
    (inWords.all fun inWord => noMatchWithin p ways inWord (c :: cs)) &&
      passesWithin p ways [isWordChar c] cs
termination_by structural cs => cs

/-- Is it settled that no match begins at any of these characters, whatever stands
around it? -/
def passesEach (p : Pattern) (chars : List Char) : Bool :=
  chars.all fun c => p.passesWithin [.unknown] [false, true] [c]

/-- What the piece is rewritten to, if that is settled, when a match becomes
`written`.  The first `skip` characters belong to a match. -/
def turnWithin? (p : Pattern) (written : List Char) (ahead : Ahead) (inWord : Bool)
    (skip : Nat) : List Char → Option (List Char)
  | [] => if skip = 0 then some [] else none
  | c :: cs =>
    match skip with
    | skip + 1 => turnWithin? p written ahead (isWordChar c) skip cs
    | 0 =>
      match p.matchWithin? ahead.isAll ⟨inWord, c :: (cs ++ ahead.chars)⟩ with
      | none => none
      | some none => (turnWithin? p written ahead (isWordChar c) 0 cs).map (c :: ·)
      | some (some behind) =>
        (turnWithin? p written ahead (isWordChar c)
          ((cs ++ ahead.chars).length - behind.length) cs).map (written ++ ·)
termination_by structural cs => cs

/-- Is it settled that the piece is rewritten to `turned`? -/
def turnsWithin (p : Pattern) (written : List Char) (ways : List Ahead) (inWords : List Bool)
    (cs turned : List Char) : Bool :=
  inWords.all fun inWord =>
    p.turnWithin? written .unknown inWord 0 cs == some turned ||
      ways.all fun a => p.turnWithin? written a inWord 0 cs == some turned

section

variable {p : Pattern} {f : List (List Char) → List Char} {ways : List Ahead} {ahead : Ahead}
  {rest : List Char}

/-- Where the evaluation finds nothing in any way to go on, nothing is found in the text. -/
theorem matchAt?_of_noMatchWithin (goesOn : GoesOn ways rest) {inWord : Bool} {cs : List Char}
    (settled : p.noMatchWithin ways inWord cs = true) {before : Option Char}
    (inFront : before.any isWordChar = inWord) : p.matchAt? before (cs ++ rest) = none := by
  rcases Bool.or_eq_true_iff.mp settled with unseen | seen
  · have unknown : false = true → rest = [] := by rintro ⟨⟩
    have noMatch := matchAt?_of_matchWithin? (eq_of_beq unseen) unknown inFront
    exact Option.map_eq_none_iff.mp noMatch
  · obtain ⟨a, listed, more, rfl, whole⟩ := goesOn
    have noMatch := matchAt?_of_matchWithin? (eq_of_beq (List.all_eq_true.mp seen a listed)) whole
      inFront
    rw [← List.append_assoc]
    exact Option.map_eq_none_iff.mp noMatch

/-- What is passed in every way to go on is passed in the text. -/
theorem passes_of_passesWithin (goesOn : GoesOn ways rest) : ∀ {cs : List Char}
    {inWords : List Bool} {before : Option Char}, p.passesWithin ways inWords cs = true →
      before.any isWordChar ∈ inWords → p.Passes before cs rest := by
  intro cs
  induction cs with
  | nil => exact fun _ _ => trivial
  | cons c cs ih =>
    intro inWords before settled inFront
    obtain ⟨here, later⟩ := Bool.and_eq_true_iff.mp settled
    exact ⟨matchAt?_of_noMatchWithin goesOn (List.all_eq_true.mp here _ inFront) rfl,
      ih later (List.mem_singleton.mpr rfl)⟩

/-- A run of characters is passed if each of them is, whatever stands around. -/
theorem passes_of_passesEach {chars run : List Char} (settled : p.passesEach chars = true)
    (inChars : ∀ c ∈ run, c ∈ chars) (rest : List Char) :
    ∀ before : Option Char, p.Passes before run rest := by
  induction run with
  | nil => exact fun _ => trivial
  | cons c cs ih =>
    intro before
    obtain ⟨listed, later⟩ := List.forall_mem_cons.mp inChars
    have single := List.all_eq_true.mp settled c listed
    have first := passes_of_passesWithin (goesOn_unknown (cs ++ rest)) single
      (any_isWordChar_mem before)
    exact first.append (ih later c)

/-- A match that is settled is the first one if the text begins with it. -/
theorem split?_of_matchWithin? {inWord : Bool} {cs : List Char} (nonempty : cs ≠ [])
    (decided : p.matchWithin? false ⟨inWord, cs⟩ = some (some [])) {before : Option Char}
    (inFront : before.any isWordChar = inWord) (rest : List Char) :
    p.split? before (cs ++ rest) = some ([], rest) := by
  have unknown : false = true → rest = [] := by rintro ⟨⟩
  have matched := matchAt?_of_matchWithin? decided unknown inFront
  obtain ⟨e, found, ends⟩ := Option.map_eq_some_iff.mp matched
  obtain ⟨c, cs, rfl⟩ := List.exists_cons_of_ne_nil nonempty
  obtain ⟨atRest, -⟩ := Prod.mk.inj ends
  dsimp only at found
  rw [List.cons_append] at found ⊢
  rw [Pattern.split?, found]
  dsimp only
  rw [atRest]
  rfl

theorem turns_of_turnWithin? (begins : ahead.Begins rest) : ∀ {cs written : List Char}
    {inWord : Bool} {skip : Nat} {before : Option Char},
      p.turnWithin? (f []) ahead inWord skip cs = some written → before.any isWordChar = inWord →
      p.replaceFrom f before skip (cs ++ rest) =
        written ++ p.replaceFrom f (behind before cs) 0 rest := by
  obtain ⟨more, rfl, whole⟩ := begins
  intro cs
  induction cs with
  | nil =>
    intro written inWord skip before settled inFront
    obtain ⟨rfl, ⟨⟩⟩ := Option.ite_none_right_eq_some.mp settled
    rfl
  | cons c cs ih =>
    intro written inWord skip before settled inFront
    cases skip with
    | succ skip => exact ih settled rfl
    | zero =>
      have shape : c :: (cs ++ (ahead.chars ++ more)) = (c :: (cs ++ ahead.chars)) ++ more := by
        simp
      rw [turnWithin?] at settled
      rw [List.cons_append, replaceFrom, shape]
      cases decided : p.matchWithin? ahead.isAll ⟨inWord, c :: (cs ++ ahead.chars)⟩ with
      | none =>
        rw [decided] at settled
        cases settled
      | some found =>
        have same := matchAt?_of_matchWithin? decided whole inFront
        dsimp only at same
        rw [decided] at settled
        cases found with
        | none =>
          obtain ⟨written, later, rfl⟩ := Option.map_eq_some_iff.mp settled
          rw [Option.map_eq_none_iff.mp same]
          exact congrArg (c :: ·) (ih later rfl)
        | some behindMatch =>
          obtain ⟨written, later, rfl⟩ := Option.map_eq_some_iff.mp settled
          obtain ⟨e, matched, ends⟩ := Option.map_eq_some_iff.mp same
          obtain ⟨atRest, noSpans⟩ := Prod.mk.inj ends
          have skipped : (cs ++ (ahead.chars ++ more)).length - e.rest.length =
              (cs ++ ahead.chars).length - behindMatch.length := by
            simp only [atRest, List.length_append]
            omega
          rw [matched]
          dsimp only
          rw [skipped, noSpans, ih later rfl, List.append_assoc]
          rfl

/-- What is rewritten in every way to go on is rewritten in the text. -/
theorem turns_of_turnsWithin (goesOn : GoesOn ways rest) {cs turned : List Char}
    {inWords : List Bool} (settled : p.turnsWithin (f []) ways inWords cs turned = true)
    {before : Option Char} (inFront : before.any isWordChar ∈ inWords) :
    p.Turns f before cs turned rest := by
  rcases Bool.or_eq_true_iff.mp (List.all_eq_true.mp settled _ inFront) with unseen | seen
  · obtain ⟨a, listed, begins⟩ := goesOn_unknown rest
    obtain rfl := List.mem_singleton.mp listed
    exact turns_of_turnWithin? begins (eq_of_beq unseen) rfl
  · obtain ⟨a, listed, begins⟩ := goesOn
    exact turns_of_turnWithin? begins (eq_of_beq (List.all_eq_true.mp seen a listed)) rfl

end

end MarketRules.Pattern
