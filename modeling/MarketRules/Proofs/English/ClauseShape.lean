import MarketRules.Proofs.English.Tidying
import MarketRules.Proofs.Text.Caseless

/-!
# The shape of a rewritten clause

Whatever a clause says, it is rewritten to a text with single blanks, none of which stands
at an end or at the inner side of a parenthesis, and with points between digits only.  All
of this is said of a character and the two next to it.

Tidying takes several steps, and each could undo what another one did.  That none does has
two reasons.  The first step settles the points, and the others touch blanks only
(`Respaced`), so that a point keeps its digits.  As to the blanks, the steps come down to
one way along the text: a blank is written only behind a character that may stand in front
of it (`compact`), and it stays only in front of one that may follow.
-/

namespace MarketRules

open Pattern (behind)

/-! ## Places -/

/-- A blank is an ordinary one and stands between two characters that are no blanks.  The
first one does not open a parenthesis, and the second one does not close it. -/
def BlankPlaced (before : Option Char) (c : Char) (after : Option Char) : Prop :=
  isBlank c = true → c = ' ' ∧ (∃ b ∈ before, isBlank b = false ∧ b ≠ '(') ∧
    ∃ d ∈ after, isBlank d = false ∧ d ≠ ')'

/-- A point stands between two digits. -/
def PointPlaced (before : Option Char) (c : Char) (after : Option Char) : Prop :=
  c = '.' → (∃ b ∈ before, b.isDigit = true) ∧ ∃ d ∈ after, d.isDigit = true

/-- Every character has such a place between the two next to it, in a text that stands
behind the character `before`. -/
def Everywhere (P : Option Char → Char → Option Char → Prop) (before : Option Char) :
    List Char → Prop
  | [] => True
  | c :: cs => P before c cs.head? ∧ Everywhere P c cs
termination_by structural cs => cs

/-- What holds everywhere holds at a place, with the characters on both sides of it. -/
theorem Everywhere.holds {P : Option Char → Char → Option Char → Prop} {before : Option Char}
    {front back : List Char} {c : Char} (placed : Everywhere P before (front ++ c :: back)) :
    P (behind before front) c back.head? := by
  induction front generalizing before with
  | nil => exact placed.1
  | cons d ds ih => exact ih placed.2

/-! ## Points -/

/-- Where one character follows another, it is kept if it is a digit. -/
def KeepsDigit (a b : Option Char) : Prop := ∀ c ∈ a, c.isDigit = true → c ∈ b

theorem KeepsDigit.refl (a : Option Char) : KeepsDigit a a := fun _ member _ => member

theorem KeepsDigit.of_isDigit_eq_false {c : Char} (noDigit : c.isDigit = false)
    (b : Option Char) : KeepsDigit (some c) b := by
  rintro _ ⟨⟩ digit
  rw [noDigit] at digit
  cases digit

/-- A point stays in its place if the digits next to it do. -/
theorem PointPlaced.of_keepsDigit {before before' after after' : Option Char} {c : Char}
    (placed : PointPlaced before c after) (front : KeepsDigit before before')
    (back : KeepsDigit after after') : PointPlaced before' c after' := by
  intro point
  obtain ⟨⟨b, inFront, digit⟩, d, behind, digit'⟩ := placed point
  exact ⟨⟨b, front b inFront digit, digit⟩, d, back d behind digit', digit'⟩

theorem keepsDigit_head?_dropPeriods (before : Option Char) (cs : List Char) :
    KeepsDigit cs.head? (dropPeriods before cs).head? := by
  cases cs with
  | nil => exact .refl none
  | cons c cs =>
    rw [dropPeriods]
    split
    · next dropped =>
      rw [dropped.1]
      exact .of_isDigit_eq_false rfl _
    · exact .refl (some c)

/-- The points that are kept stand between digits.  No digit is lost with a point, so what
follows can count on the digit in front of it. -/
theorem everywhere_dropPeriods (cs : List Char) : ∀ {before before' : Option Char},
    KeepsDigit before before' → Everywhere PointPlaced before' (dropPeriods before cs) := by
  induction cs with
  | nil => exact fun _ => trivial
  | cons c cs ih =>
    intro before before' same
    rw [dropPeriods]
    split
    · next dropped =>
      rw [dropped.1]
      exact ih (.of_isDigit_eq_false rfl before')
    · next kept =>
      have placed : PointPlaced before c cs.head? := by
        intro point
        have digits := not_not.mp fun apart => kept ⟨point, apart⟩
        exact ⟨(Option.any_eq_true _ _).mp digits.1, (Option.any_eq_true _ _).mp digits.2⟩
      exact ⟨placed.of_keepsDigit same (keepsDigit_head?_dropPeriods c cs), ih (.refl (some c))⟩

/-- Only points are dropped. -/
theorem filter_dropPeriods (before : Option Char) (cs : List Char) :
    (dropPeriods before cs).filter (!isIdle ·) = cs.filter (!isIdle ·) := by
  induction cs generalizing before with
  | nil => rfl
  | cons c cs ih =>
    rw [dropPeriods]
    split
    · next dropped => rw [dropped.1, List.filter_cons_of_neg (by decide), ih]
    · rw [List.filter_cons, List.filter_cons, ih]

/-! ## Blanks -/

/-- The second text is the first one, with some blanks left out and some written as ordinary
ones. -/
inductive Respaced : List Char → List Char → Prop where
  | nil : Respaced [] []
  | keep (c : Char) {cs cs' : List Char} : Respaced cs cs' → Respaced (c :: cs) (c :: cs')
  | drop {c : Char} {cs cs' : List Char} :
      isBlank c = true → Respaced cs cs' → Respaced (c :: cs) cs'
  | write {c : Char} {cs cs' : List Char} :
      isBlank c = true → Respaced cs cs' → Respaced (c :: cs) (' ' :: cs')

namespace Respaced

variable {cs cs' : List Char}

theorem trans (first : Respaced cs cs') : ∀ {cs''}, Respaced cs' cs'' → Respaced cs cs'' := by
  induction first with
  | nil => exact fun second => second
  | keep c _ ih =>
    intro _ second
    cases second with
    | keep _ later => exact .keep c (ih later)
    | drop blank later => exact .drop blank (ih later)
    | write blank later => exact .write blank (ih later)
  | drop blank _ ih => exact fun second => .drop blank (ih second)
  | write blank _ ih =>
    intro _ second
    cases second with
    | keep _ later => exact .write blank (ih later)
    | drop _ later => exact .drop blank (ih later)
    | write _ later => exact .write blank (ih later)

/-- Blanks can be left out altogether. -/
theorem drop_blanks {blanks : List Char} (blank : ∀ c ∈ blanks, isBlank c = true) :
    Respaced blanks [] := by
  induction blanks with
  | nil => exact .nil
  | cons c cs ih =>
    obtain ⟨first, later⟩ := List.forall_mem_cons.mp blank
    exact .drop first (ih later)

theorem append_left (respaced : Respaced cs cs') : ∀ front : List Char,
    Respaced (front ++ cs) (front ++ cs')
  | [] => respaced
  | c :: front => .keep c (respaced.append_left front)

theorem trimEnd (cs : List Char) : Respaced cs (trimEnd cs) := by
  obtain ⟨blanks, whole, blank⟩ := exists_trimEnd_append cs
  have kept := (drop_blanks blank).append_left (MarketRules.trimEnd cs)
  rwa [← whole, List.append_nil] at kept

theorem compact (cs : List Char) : ∀ closed : Bool, Respaced cs (compact closed cs) := by
  induction cs with
  | nil => exact fun _ => .nil
  | cons c cs ih =>
    intro closed
    rw [MarketRules.compact]
    by_cases blank : isBlank c = true
    · rw [if_pos blank]
      cases closed with
      | true => exact .drop blank (ih true)
      | false => exact .write blank (ih true)
    · rw [if_neg blank]
      exact .keep c (ih (c == '('))

theorem tightenClosing (cs : List Char) : Respaced cs (tightenClosing cs) := by
  induction cs with
  | nil => exact .nil
  | cons c cs ih =>
    rw [MarketRules.tightenClosing]
    split
    · next blank =>
      rw [blank.1]
      exact .drop rfl ih
    · exact .keep c ih

/-- Moving blanks keeps all other characters in their order. -/
theorem filter_eq (respaced : Respaced cs cs') :
    cs'.filter (!isIdle ·) = cs.filter (!isIdle ·) := by
  have leftOut {c : Char} (blank : isBlank c = true) (cs : List Char) :
      (c :: cs).filter (!isIdle ·) = cs.filter (!isIdle ·) := by
    rw [List.filter_cons, isIdle_of_isBlank blank]
    rfl
  induction respaced with
  | nil => rfl
  | keep c _ ih => rw [List.filter_cons, List.filter_cons, ih]
  | drop blank _ ih => rw [leftOut blank, ih]
  | write blank _ ih => rw [leftOut blank, leftOut rfl, ih]

/-- A digit at the front stays there when blanks are moved. -/
theorem keepsDigit_head? (respaced : Respaced cs cs') : KeepsDigit cs.head? cs'.head? := by
  cases respaced with
  | nil => exact .refl none
  | keep c _ => exact .refl (some c)
  | drop blank _ => exact .of_isDigit_eq_false (isDigit_eq_false_of_isBlank blank) _
  | write blank _ => exact .of_isDigit_eq_false (isDigit_eq_false_of_isBlank blank) _

/-- No point loses a digit next to it when blanks are left out or written. -/
theorem pointsPlaced (respaced : Respaced cs cs') : ∀ {before before' : Option Char},
    KeepsDigit before before' → Everywhere PointPlaced before cs →
      Everywhere PointPlaced before' cs' := by
  induction respaced with
  | nil => exact fun _ _ => trivial
  | keep c later ih =>
    rintro before before' same ⟨first, placed⟩
    exact ⟨first.of_keepsDigit same later.keepsDigit_head?, ih (.refl (some c)) placed⟩
  | drop blank _ ih =>
    rintro before before' - ⟨-, placed⟩
    exact ih (.of_isDigit_eq_false (isDigit_eq_false_of_isBlank blank) before') placed
  | write blank _ ih =>
    rintro before before' - ⟨-, placed⟩
    have noDigit := isDigit_eq_false_of_isBlank blank
    exact ⟨by rintro ⟨⟩, ih (.of_isDigit_eq_false noDigit (some ' ')) placed⟩

end Respaced

/-- A text that ends with no blank begins with none when it is tidied. -/
theorem EndsSolid.beginsSolid_compact {cs : List Char} (solid : EndsSolid cs) :
    BeginsSolid (compact true cs) := by
  obtain ⟨front, last, rfl, noBlank⟩ := endsSolid_iff.mp solid
  clear solid
  induction front with
  | nil =>
    have notBlank : ¬ isBlank last = true := by simp [noBlank]
    rw [List.nil_append, compact, if_neg notBlank]
    exact beginsSolid_iff.mpr ⟨last, _, rfl, noBlank⟩
  | cons c cs ih =>
    rw [List.cons_append, compact]
    split
    · exact ih
    · next notBlank => exact beginsSolid_iff.mpr ⟨c, _, rfl, Bool.eq_false_iff.mpr notBlank⟩

/-- The blanks that are written and not taken back are where they may be, if the text does
not end with a blank.  In front of the text there is a character that a blank may follow,
unless blanks at its beginning are left out. -/
theorem everywhere_tightenClosing_compact {cs : List Char} (ends : cs = [] ∨ EndsSolid cs) :
    ∀ {closed : Bool} {before : Option Char},
      (closed = false → ∃ b ∈ before, isBlank b = false ∧ b ≠ '(') →
        Everywhere BlankPlaced before (tightenClosing (compact closed cs)) := by
  induction cs with
  | nil => exact fun _ => trivial
  | cons c cs ih =>
    intro closed before opens
    have ends := (ends.resolve_left (List.cons_ne_nil c cs)).of_cons
    by_cases blank : isBlank c = true
    · have later : EndsSolid cs :=
        ends.resolve_left fun single => absurd (blank.symm.trans single.2) (by decide)
      have rest : ∀ before, Everywhere BlankPlaced before (tightenClosing (compact true cs)) :=
        fun before => ih (.inr later) (by rintro ⟨⟩)
      rw [compact, if_pos blank]
      cases closed with
      | true => exact rest before
      | false =>
        obtain ⟨d, ds, begins, noBlank⟩ := beginsSolid_iff.mp later.beginsSolid_compact
        have kept : tightenClosing (d :: ds) = d :: tightenClosing ds :=
          if_neg fun blank => ne_of_class rfl noBlank blank.1.symm
        show Everywhere BlankPlaced before (tightenClosing (' ' :: compact true cs))
        rw [tightenClosing]
        split
        · exact rest before
        · next stays =>
          refine ⟨fun _ => ⟨rfl, opens rfl, d, ?_, noBlank, ?_⟩, rest _⟩
          · rw [begins, kept]
            rfl
          · rintro rfl
            exact stays ⟨rfl, by rw [begins]; rfl⟩
    · have noBlank : isBlank c = false := Bool.eq_false_iff.mpr blank
      have stays : ¬ (c = ' ' ∧ (compact (c == '(') cs).head? = some ')') :=
        fun dropped => blank (dropped.1 ▸ rfl)
      rw [compact, if_neg blank, tightenClosing, if_neg stays]
      refine ⟨fun isBlank => absurd isBlank blank, ih (ends.imp_left And.left) fun outside => ?_⟩
      exact ⟨c, rfl, noBlank, ne_of_beq_false outside⟩

/-! ## The clause -/

/-- Tidying is one pass over the blanks, and one for those in front of closing parentheses. -/
theorem tidy_eq_tightenClosing_compact (cs : List Char) :
    tidy cs = tightenClosing (compact true (trimEnd (dropPeriods none (upper cs)))) := by
  rw [tidy, tightenOpening_trim_squeezeBlanks]

/-- When the points are settled, tidying touches blanks only. -/
theorem respaced_tidy (cs : List Char) : Respaced (dropPeriods none (upper cs)) (tidy cs) := by
  rw [tidy_eq_tightenClosing_compact]
  exact ((Respaced.trimEnd _).trans (.compact _ true)).trans (.tightenClosing _)

/-- Tidying takes away nothing but blanks and points. -/
theorem filter_tidy (cs : List Char) :
    (tidy cs).filter (!isIdle ·) = (upper cs).filter (!isIdle ·) := by
  rw [(respaced_tidy cs).filter_eq, filter_dropPeriods]

/-- Tidying leaves blanks and points only where they may stand. -/
theorem placed_tidy {cs front back : List Char} {c : Char} (shape : tidy cs = front ++ c :: back) :
    BlankPlaced front.getLast? c back.head? ∧ PointPlaced front.getLast? c back.head? := by
  have points : Everywhere PointPlaced none (tidy cs) :=
    (respaced_tidy cs).pointsPlaced (.refl none) (everywhere_dropPeriods (upper cs) (.refl none))
  have blanks : Everywhere BlankPlaced none (tidy cs) := by
    rw [tidy_eq_tightenClosing_compact]
    exact everywhere_tightenClosing_compact (trimEnd_eq_nil_or_endsSolid _) (by rintro ⟨⟩)
  rw [shape] at points blanks
  rw [← Pattern.behind_none]
  exact ⟨blanks.holds, points.holds⟩

/-- Nothing is left of a text by tidying exactly if it consists of blanks and points.  What is
left can begin with neither, so it begins with a character that is kept. -/
theorem tidy_eq_nil_iff {cs : List Char} : tidy cs = [] ↔ ∀ c ∈ cs, isIdle c = true := by
  have kept := filter_tidy cs
  constructor
  · intro nothing c member
    rw [nothing, List.filter_nil, eq_comm, List.filter_eq_nil_iff] at kept
    refine isIdle_of_upperChar fun d inUpper => ?_
    simpa using kept d (List.mem_flatMap.mpr ⟨c, member, inUpper⟩)
  · intro idle
    have nothing : cs.filter (!isIdle ·) = [] :=
      List.filter_eq_nil_iff.mpr fun c member => by simp [idle c member]
    rw [upper_eq_self_of_isIdle idle, nothing, List.filter_eq_nil_iff] at kept
    cases shape : tidy cs with
    | nil => rfl
    | cons c back =>
      have whole : tidy cs = [] ++ c :: back := shape
      obtain ⟨blanks, points⟩ := placed_tidy whole
      have first : isIdle c = true := by simpa using kept c (by rw [shape]; exact .head _)
      rcases Bool.or_eq_true_iff.mp first with blank | point
      · obtain ⟨-, ⟨b, ⟨⟩, -⟩, -⟩ := blanks blank
      · obtain ⟨⟨b, ⟨⟩, -⟩, -⟩ := points (eq_of_beq point)

/-- In a rewritten clause every blank is an ordinary one that stands alone, inside the text and
at the inner side of no parenthesis, and every point stands between digits.  The other
characters are, in upper case, those that the phrases have left of the clause or written. -/
theorem rewriteClause_shape (clause : String) :
    (∀ front c back, (rewriteClause clause).toList = front ++ c :: back →
      BlankPlaced front.getLast? c back.head? ∧ PointPlaced front.getLast? c back.head?) ∧
      (rewriteClause clause).toList.filter (!isIdle ·) =
        (upper (Phrase.all.foldl (fun text phrase => phrase.apply text)
          (lower clause.toList))).filter (!isIdle ·) := by
  rw [rewriteClause, String.toList_ofList, rewriteClauseChars]
  exact ⟨fun _ _ _ shape => placed_tidy shape, filter_tidy _⟩

/-- A blank and a point that stay, among others that do not. -/
theorem rewriteClause_shape_in_parentheses :
    (rewriteClause "the ( volume .is above\u3000 1.5 ). ").toList =
        "(VOLUME".toList ++ ' ' :: "GT 1.5)".toList ∧
      BlankPlaced (some 'E') ' ' (some 'G') ∧ PointPlaced (some '1') '.' (some '5') := by
  have written : (rewriteClause "the ( volume .is above\u3000 1.5 ). ").toList =
      "(VOLUME GT 1.5)".toList := by
    decide +kernel
  have placed := (rewriteClause_shape "the ( volume .is above\u3000 1.5 ). ").1
  exact ⟨written, (placed "(VOLUME".toList ' ' "GT 1.5)".toList written).1,
    (placed "(VOLUME GT 1".toList '.' "5)".toList written).2⟩

end MarketRules
