import MarketRules.Proofs.English.Origins
import MarketRules.Proofs.English.Tidying
import MarketRules.Proofs.Text.Caseless

/-!
# The calls in a rewritten clause

The calls that the indicators write stand in the finished clause, in their order.  The
phrases leave them unbroken, since the clause stays intact, and every step of tidying goes
over the text from left to right and keeps what is a call.
-/

namespace MarketRules

open Pattern (behind behind_append)
open Tracked

/-! ## Texts that stand in another one -/

/-- The texts stand in this one, one behind the other. -/
def StandIn : List (List Char) → List Char → Prop
  | [], _ => True
  | t :: ts, cs => ∃ front rest, cs = front ++ (t ++ rest) ∧ StandIn ts rest

namespace StandIn

variable {ts : List (List Char)} {cs : List Char}

theorem prepend (stand : StandIn ts cs) (front : List Char) : StandIn ts (front ++ cs) := by
  cases ts with
  | nil => trivial
  | cons t ts =>
    obtain ⟨front', rest, rfl, later⟩ := stand
    exact ⟨front ++ front', rest, (List.append_assoc _ _ _).symm, later⟩

/-- Of texts that stand in this one some can be left out. -/
theorem of_sublist {ts' : List (List Char)} (sublist : ts'.Sublist ts) :
    ∀ {cs : List Char}, StandIn ts cs → StandIn ts' cs := by
  induction sublist with
  | slnil => exact fun stand => stand
  | cons t _ ih =>
    rintro _ ⟨front, rest, rfl, later⟩
    exact ((ih later).prepend t).prepend front
  | cons_cons t _ ih =>
    rintro _ ⟨front, rest, rfl, later⟩
    exact ⟨front, rest, rfl, ih later⟩

end StandIn

/-- The calls of an intact text stand in it. -/
theorem Intact.standIn {cs : List Tracked} (intact : Intact cs) :
    (∀ text ∈ calls cs, IsCall text) ∧ StandIn (calls cs) (chars cs) := by
  have single : ∀ {c : Tracked} {cs : List Tracked}, c.call? = none → calls (c :: cs) = calls cs :=
    fun noCall => List.filterMap_cons_none noCall
  induction intact with
  | nil => exact ⟨by rintro _ ⟨⟩, trivial⟩
  | @loose c cs loose _ ih =>
    rw [single loose.noCall]
    exact ⟨ih.1, ih.2.prepend [c.char]⟩
  | @capital c cs _ noCall _ ih =>
    rw [single noCall]
    exact ⟨ih.1, ih.2.prepend [c.char]⟩
  | call indicator isCall _ ih =>
    rw [calls_append, calls_ofPhrase indicator isCall, chars_append, chars_ofPhrase]
    exact ⟨List.forall_mem_cons.mpr ⟨isCall, ih.1⟩, [], _, rfl, ih.2⟩

/-! ## Sweeps -/

/-- A function that goes over a text from left to right.  What it knows of the text in front
is its state. -/
def Sweeps {State : Type} (g : State → List Char → List Char) : Prop :=
  ∀ s cs rest, ∃ written s', g s (cs ++ rest) = written ++ g s' rest

/-- The function keeps the text wherever it stands. -/
def Keeps {State : Type} (g : State → List Char → List Char) (t : List Char) : Prop :=
  ∀ s rest, ∃ s', g s (t ++ rest) = t ++ g s' rest

/-- Texts that a sweep keeps stand in what it makes of a text. -/
theorem StandIn.sweep {State : Type} {g : State → List Char → List Char} (sweeps : Sweeps g) :
    ∀ {ts : List (List Char)} {cs : List Char}, StandIn ts cs → (∀ t ∈ ts, Keeps g t) →
      ∀ s, StandIn ts (g s cs)
  | [], _, _, _, _ => trivial
  | t :: ts, _, ⟨front, rest, rfl, later⟩, keeps, s => by
    obtain ⟨keepsFirst, keepsLater⟩ := List.forall_mem_cons.mp keeps
    obtain ⟨written, s', swept⟩ := sweeps s front (t ++ rest)
    obtain ⟨s'', kept⟩ := keepsFirst s' rest
    rw [swept, kept]
    exact ⟨written, _, rfl, StandIn.sweep sweeps later keepsLater s''⟩

theorem sweeps_upper : Sweeps fun (_ : Unit) => upper :=
  fun _ cs _ => ⟨upper cs, (), List.flatMap_append⟩

/-- Points are dropped from left to right, with the character in front as the state. -/
theorem sweeps_dropPeriods : Sweeps dropPeriods := by
  intro before cs rest
  induction cs generalizing before with
  | nil => exact ⟨[], before, rfl⟩
  | cons c cs ih =>
    obtain ⟨written, before', swept⟩ := ih c
    rw [List.cons_append, dropPeriods]
    split
    · exact ⟨written, before', swept⟩
    · exact ⟨c :: written, before', congrArg (c :: ·) swept⟩

theorem sweeps_squeezeBlanks : Sweeps squeezeBlanks :=
  fun inRun cs rest => ⟨_, _, squeezeBlanks_append cs rest inRun⟩

/-- The blanks at the end are those of the rest, or the whole rest is blank. -/
theorem sweeps_trimEnd : Sweeps fun (_ : Unit) => trimEnd := by
  intro _ cs rest
  rcases trimEnd_append_cases cs rest with whole | ⟨nothing, trimmed⟩
  · exact ⟨cs, (), whole⟩
  · refine ⟨trimEnd cs, (), trimmed.trans ?_⟩
    dsimp only
    rw [nothing, List.append_nil]

/-- Blanks behind opening parentheses are removed from left to right. -/
theorem tightenOpening_append (cs rest : List Char) : ∀ afterParen : Bool,
    tightenOpening afterParen (cs ++ rest) =
      tightenOpening afterParen cs ++
        tightenOpening (cs.foldl (fun _ c => c == '(') afterParen) rest := by
  induction cs with
  | nil => exact fun _ => rfl
  | cons c cs ih =>
    intro afterParen
    rw [List.cons_append, tightenOpening, tightenOpening, List.foldl_cons]
    split
    · next blank =>
      rw [blank.2]
      exact ih false
    · exact congrArg (c :: ·) (ih (c == '('))

theorem sweeps_tightenOpening : Sweeps tightenOpening :=
  fun afterParen cs rest => ⟨_, _, tightenOpening_append cs rest afterParen⟩

theorem sweeps_tightenClosing : Sweeps fun (_ : Unit) => tightenClosing := by
  intro _ cs rest
  induction cs with
  | nil => exact ⟨[], (), rfl⟩
  | cons c cs ih =>
    obtain ⟨written, _, swept⟩ := ih
    dsimp only at swept ⊢
    rw [List.cons_append, tightenClosing]
    split
    · exact ⟨written, (), swept⟩
    · exact ⟨c :: written, (), congrArg (c :: ·) swept⟩

/-! ## Calls under the sweeps -/

/-- How a call begins. -/
def callFronts : List (List Char) := ["SMA(CLOSE, ".toList, "RSI(CLOSE, ".toList]

/-- The text ends a call. -/
def IsCallTail (tail : List Char) : Prop :=
  ∃ days, days ≠ [] ∧ (∀ c ∈ days, isDecimalDigit c = true) ∧ tail = days ++ [')']

/-- A call has one of two beginnings, a number of days and a closing parenthesis. -/
theorem IsCall.exists_parts {text : List Char} (isCall : IsCall text) :
    ∃ front ∈ callFronts, ∃ tail, IsCallTail tail ∧ text = front ++ tail := by
  obtain ⟨name, listed, days, nonempty, digits, rfl⟩ := isCall
  have fronts : ∀ name ∈ ["SMA", "RSI"], name.toList ++ "(CLOSE, ".toList ∈ callFronts := by
    decide
  exact ⟨_, fronts name listed, days ++ [')'], ⟨days, nonempty, digits, rfl⟩,
    List.append_assoc _ days [')']⟩

/-- A property of the digits and of the closing parenthesis holds all over the end of a
call. -/
theorem IsCallTail.forall_mem {P : Char → Prop} {tail : List Char} (isTail : IsCallTail tail)
    (digit : ∀ c, isDecimalDigit c = true → P c) (closing : P ')') : ∀ c ∈ tail, P c := by
  obtain ⟨days, -, digits, rfl⟩ := isTail
  exact List.forall_mem_append.mpr
    ⟨fun c member => digit c (digits c member), List.forall_mem_singleton.mpr closing⟩

theorem ne_of_isDecimalDigit {c d : Char} (digit : isDecimalDigit c = true)
    (other : isDecimalDigit d = false) : c ≠ d :=
  ne_of_class digit other

section

variable {State : Type} {g : State → List Char → List Char}

/-- Two texts that are kept are kept one behind the other. -/
theorem Keeps.append {t t' : List Char} (keeps : Keeps g t) (keeps' : Keeps g t') :
    Keeps g (t ++ t') := by
  intro s rest
  obtain ⟨s', kept⟩ := keeps s (t' ++ rest)
  obtain ⟨s'', kept'⟩ := keeps' s' rest
  exact ⟨s'', by rw [List.append_assoc, kept, kept', List.append_assoc]⟩

theorem Keeps.of_forall_mem {t : List Char} (each : ∀ c ∈ t, Keeps g [c]) : Keeps g t := by
  induction t with
  | nil => exact fun s _ => ⟨s, rfl⟩
  | cons c cs ih =>
    obtain ⟨first, later⟩ := List.forall_mem_cons.mp each
    exact first.append (ih later)

/-- A sweep keeps calls if it keeps their two parts. -/
theorem IsCall.keeps {text : List Char} (isCall : IsCall text)
    (fronts : ∀ front ∈ callFronts, Keeps g front)
    (tails : ∀ tail, IsCallTail tail → Keeps g tail) : Keeps g text := by
  obtain ⟨front, listed, tail, isTail, rfl⟩ := isCall.exists_parts
  exact (fronts front listed).append (tails tail isTail)

end

section

variable {text : List Char}

theorem IsCall.keeps_upper (isCall : IsCall text) : Keeps (fun (_ : Unit) => upper) text := by
  have single : ∀ {c}, upperChar c = [c] → Keeps (fun (_ : Unit) => upper) [c] := by
    intro c same s rest
    refine ⟨(), ?_⟩
    show upper (c :: rest) = c :: upper rest
    rw [upper, List.flatMap_cons, same]
    rfl
  have fronts : ∀ front ∈ callFronts, ∀ c ∈ front, upperChar c = [c] := by decide
  refine isCall.keeps (fun front listed => .of_forall_mem fun c member => ?_) fun tail isTail => ?_
  · exact single (fronts front listed c member)
  · exact .of_forall_mem (isTail.forall_mem
      (fun c digit => single (upperChar_of_isDecimalDigit digit)) (single rfl))

/-- A call has no point. -/
theorem IsCall.keeps_dropPeriods (isCall : IsCall text) : Keeps dropPeriods text := by
  have noPoint : ∀ front ∈ callFronts, '.' ∉ front := by decide
  refine isCall.keeps (fun front listed before rest => ?_) fun tail isTail before rest => ?_
  · exact ⟨_, dropPeriods_of_notMem (noPoint front listed) before⟩
  · have others := isTail.forall_mem (fun c digit => ne_of_isDecimalDigit digit (by decide))
      (by decide : ')' ≠ '.')
    exact ⟨_, dropPeriods_of_notMem (fun member => others '.' member rfl) before⟩

/-- A call has single blanks. -/
theorem IsCall.keeps_squeezeBlanks (isCall : IsCall text) : Keeps squeezeBlanks text := by
  have fronts : ∀ front ∈ callFronts, ∀ inRun, squeezeBlanks inRun front = front := by decide
  refine isCall.keeps (fun front listed inRun rest => ?_) fun tail isTail => ?_
  · have kept := squeezeBlanks_append front rest inRun
    rw [fronts front listed] at kept
    exact ⟨_, kept⟩
  · have single : ∀ {c}, isBlank c = false → Keeps squeezeBlanks [c] := fun noBlank inRun rest =>
      ⟨false, if_neg (Bool.eq_false_iff.mp noBlank)⟩
    exact .of_forall_mem (isTail.forall_mem
      (fun c digit => single (isBlank_eq_false_of_isDecimalDigit digit)) (single rfl))

theorem IsCall.keeps_trimEnd (isCall : IsCall text) : Keeps (fun (_ : Unit) => trimEnd) text := by
  intro _ rest
  obtain ⟨front, -, _, ⟨days, -, -, rfl⟩, rfl⟩ := isCall.exists_parts
  have closing : EndsSolid [')'] := by decide
  have solid := (closing.append days).append front
  rcases trimEnd_append_cases (front ++ (days ++ [')'])) rest with whole | ⟨nothing, trimmed⟩
  · exact ⟨(), whole⟩
  · refine ⟨(), trimmed.trans ?_⟩
    dsimp only
    rw [nothing, List.append_nil, solid.trimEnd]

/-- The opening parenthesis of a call is followed by no blank. -/
theorem IsCall.keeps_tightenOpening (isCall : IsCall text) : Keeps tightenOpening text := by
  have fronts : ∀ front ∈ callFronts, ∀ afterParen, tightenOpening afterParen front = front := by
    decide
  refine isCall.keeps (fun front listed afterParen rest => ?_) fun tail isTail => ?_
  · have kept := tightenOpening_append front rest afterParen
    rw [fronts front listed] at kept
    exact ⟨_, kept⟩
  · have single : ∀ {c}, c ≠ ' ' → Keeps tightenOpening [c] := fun other afterParen rest =>
      ⟨_, if_neg fun blank => other blank.2⟩
    exact .of_forall_mem (isTail.forall_mem
      (fun c digit => single (ne_of_isDecimalDigit digit (by decide))) (single (by decide)))

/-- The closing parenthesis of a call follows on no blank. -/
theorem IsCall.keeps_tightenClosing (isCall : IsCall text) :
    Keeps (fun (_ : Unit) => tightenClosing) text := by
  intro _ rest
  obtain ⟨front, listed, tail, isTail, rfl⟩ := isCall.exists_parts
  have noClosing : ∀ front ∈ callFronts, ')' ∉ front := by decide
  have noBlank := isTail.forall_mem (fun c digit => ne_of_isDecimalDigit digit (by decide))
    (by decide : ')' ≠ ' ')
  have ahead : ')' ∉ (tail ++ rest).head? := by
    obtain ⟨days, nonempty, digits, rfl⟩ := isTail
    obtain ⟨d, ds, rfl⟩ := List.exists_cons_of_ne_nil nonempty
    rintro ⟨⟩
    exact ne_of_isDecimalDigit (digits _ List.mem_cons_self) (by decide : _ = false) rfl
  refine ⟨(), ?_⟩
  dsimp only
  rw [List.append_assoc, tightenClosing_of_closing_notMem (noClosing front listed) ahead,
    tightenClosing_of_blank_notMem (fun member => noBlank ' ' member rfl), List.append_assoc]

end

/-! ## Tidying -/

/-- Calls that stand in a text stand in the tidied text. -/
theorem StandIn.tidy {ts : List (List Char)} (calls : ∀ t ∈ ts, IsCall t) {cs : List Char}
    (stand : StandIn ts cs) : StandIn ts (tidy cs) := by
  rw [MarketRules.tidy, trim, trimStart_squeezeBlanks]
  have upper := stand.sweep sweeps_upper (fun t member => (calls t member).keeps_upper) ()
  have noPoints := upper.sweep sweeps_dropPeriods
    (fun t member => (calls t member).keeps_dropPeriods) none
  have squeezed := noPoints.sweep sweeps_squeezeBlanks
    (fun t member => (calls t member).keeps_squeezeBlanks) true
  have trimmed := squeezed.sweep sweeps_trimEnd (fun t member => (calls t member).keeps_trimEnd) ()
  have opened := trimmed.sweep sweeps_tightenOpening
    (fun t member => (calls t member).keeps_tightenOpening) false
  exact opened.sweep sweeps_tightenClosing
    (fun t member => (calls t member).keeps_tightenClosing) ()

/-- The calls that were written by any time stand in the finished clause. -/
theorem standIn_rewriteClauseChars (clause : List Char) (number : Nat) :
    StandIn (calls (Phrase.tracked clause number)) (rewriteClauseChars clause) := by
  let last := max number Phrase.all.length
  obtain ⟨areCalls, stand⟩ := (Phrase.intact_tracked clause last).standIn
  rw [Phrase.chars_tracked, List.take_of_length_le (Nat.le_max_right _ _)] at stand
  exact (stand.tidy areCalls).of_sublist
    (Phrase.sublist_calls_tracked clause (Nat.le_max_left number Phrase.all.length))

/-- No pass covers a character that an indicator, a field, a comparison or a connective wrote,
blanks aside.  So the calls that were written by any time stand in the finished clause, in
their order. -/
theorem rewriteClauseChars_spares_language (clause : List Char) :
    (∀ number p, Phrase.all[number]? = some p →
      chars (Phrase.tracked clause number) =
          (Phrase.all.take number).foldl (fun text phrase => phrase.apply text) (lower clause) ∧
        ∀ s ∈ p.stretches (Phrase.tracked clause number), ∀ c ∈ s.covered,
          c.IsLanguage → isBlank c.char = true) ∧
    ∀ number, (∀ text ∈ calls (Phrase.tracked clause number), IsCall text) ∧
      StandIn (calls (Phrase.tracked clause number)) (rewriteClauseChars clause) := by
  refine ⟨fun number p listed => ⟨Phrase.chars_tracked clause number, ?_⟩, fun number => ?_⟩
  · intro s member c inside isLanguage
    have spared := (Phrase.intact_tracked clause number).sparedBy_phrase listed
    rw [(spared.covered s member c inside).blank isLanguage]
    rfl
  · exact ⟨(Phrase.intact_tracked clause number).standIn.1,
      standIn_rewriteClauseChars clause number⟩

/-- Digits of another script, groups of digits and blanks at a parenthesis stand around
these calls. -/
theorem rewriteClauseChars_spares_crossing :
    calls (Phrase.tracked "( ٢٠ day moving average is above rsi( 14 ),000 and 1,000".toList
      Phrase.indicators.length) = ["SMA(CLOSE, ٢٠)".toList, "RSI(CLOSE, 14)".toList] ∧
    StandIn ["SMA(CLOSE, ٢٠)".toList, "RSI(CLOSE, 14)".toList]
      (rewriteClauseChars "( ٢٠ day moving average is above rsi( 14 ),000 and 1,000".toList) := by
  have written : calls (Phrase.tracked
      "( ٢٠ day moving average is above rsi( 14 ),000 and 1,000".toList Phrase.indicators.length) =
        ["SMA(CLOSE, ٢٠)".toList, "RSI(CLOSE, 14)".toList] := by
    decide +kernel
  have spared := rewriteClauseChars_spares_language
    "( ٢٠ day moving average is above rsi( 14 ),000 and 1,000".toList
  have stand := (spared.2 Phrase.indicators.length).2
  rw [written] at stand
  exact ⟨written, stand⟩

end MarketRules
