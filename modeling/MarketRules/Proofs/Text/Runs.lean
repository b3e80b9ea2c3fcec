import MarketRules.Proofs.Text.Described

/-!
# Matching in a run of characters

A limited view says nothing of a run of any length, such as the digits of a number.
But a pattern that begins by reading such characters is still in the run, or at its
end, when it goes on, and if it can go on at none of these places then it does not
match.
-/

namespace MarketRules.Pattern

/-! ## What a pattern reads -/

/-- All characters that the pattern reads are of this kind. -/
def Reads (P : Char → Prop) (p : Pattern) : Prop :=
  ∀ c : Cursor, ∀ e ∈ p.ends c, ∃ cs, c.rest = cs ++ e.rest ∧ ∀ x ∈ cs, P x

namespace Reads

variable {P : Char → Prop} {p q : Pattern}

theorem literal {cs : List Char} (all : ∀ x ∈ cs, P x) : (Pattern.literal cs).Reads P := by
  intro c e member
  exact ⟨cs, (takes_of_skip? cs (Option.mem_toList.mp member)).1.rest, all⟩

theorem one {cls : CharClass} (all : ∀ x, cls.contains x = true → P x) :
    (Pattern.one cls).Reads P := by
  rintro ⟨before, rest, spans⟩ e member
  cases rest with
  | nil => cases member
  | cons x xs =>
    rw [ends] at member
    dsimp only at member
    split at member
    · next inClass =>
      obtain rfl := List.mem_singleton.mp member
      exact ⟨[x], rfl, by simpa using all x inClass⟩
    · cases member

theorem most {cls : CharClass} (all : ∀ x, cls.contains x = true → P x) :
    (Pattern.most cls).Reads P := by
  intro c e member
  rcases takes_of_longRuns c.rest e member with found | ⟨cs, inClass, takes, -⟩
  · cases found
  · exact ⟨cs, takes.rest, fun x inside => all x (inClass x inside)⟩

theorem edge : Pattern.edge.Reads P := by
  intro c e member
  rw [ends] at member
  split at member
  · obtain rfl := List.mem_singleton.mp member
    exact ⟨[], rfl, by simp⟩
  · cases member

theorem seq (first : p.Reads P) (second : q.Reads P) : (Pattern.seq p q).Reads P := by
  intro c e member
  obtain ⟨middle, inFirst, inSecond⟩ := List.mem_flatMap.mp member
  obtain ⟨cs, rest, all⟩ := first c middle inFirst
  obtain ⟨cs', rest', all'⟩ := second middle e inSecond
  exact ⟨cs ++ cs', by rw [rest, rest', List.append_assoc], List.forall_mem_append.mpr ⟨all, all'⟩⟩

theorem either (first : p.Reads P) (second : q.Reads P) : (Pattern.either p q).Reads P := by
  intro c e member
  rcases List.mem_append.mp member with inFirst | inSecond
  · exact first c e inFirst
  · exact second c e inSecond

theorem capture (inside : p.Reads P) : (Pattern.capture p).Reads P := by
  intro c e member
  obtain ⟨e, found, rfl⟩ := List.mem_map.mp member
  exact inside c e found

end Reads

/-! ## Runs without a match -/

/-- The pattern can be read at no place in the run or at its end, where `rest`
follows. -/
def FailsIn (p : Pattern) (run rest : List Char) : Prop :=
  ∀ (before : Option Char) (spans : List Span) (cs : List Char), cs <:+ run →
    p.ends ⟨before, cs ++ rest, spans⟩ = []

/-- Is it settled that the pattern can be read at none of these characters, and nowhere
where the text goes on in one of these ways? -/
def failsWithin (p : Pattern) (chars : List Char) (ways : List Ahead) : Bool :=
  [false, true].all fun inWord =>
    (chars.all fun c => p.endsWithin? false ⟨inWord, [c]⟩ == some []) &&
      ways.all fun a => p.endsWithin? a.isAll ⟨inWord, a.chars⟩ == some []

namespace FailsIn

variable {p q : Pattern} {run rest : List Char}

/-- Nothing is found where the first part finds nothing. -/
theorem seq_left (fails : p.FailsIn run rest) : (seq p q).FailsIn run rest := by
  intro before spans cs within
  rw [ends, fails before spans cs within]
  rfl

theorem capture (fails : p.FailsIn run rest) : (Pattern.capture p).FailsIn run rest := by
  intro before spans cs within
  rw [ends, fails before spans cs within]
  rfl

/-- What begins by reading characters of the run goes on in the run.  Nothing of the rest was
read, since it begins with another character. -/
theorem behind {P : Char → Prop} (reads : q.Reads P) (stops : ∀ x ∈ rest.head?, ¬ P x)
    (fails : p.FailsIn run rest) : (seq q p).FailsIn run rest := by
  intro before spans cs within
  rw [ends, List.flatMap_eq_nil_iff]
  intro e member
  obtain ⟨read, split, all⟩ := reads _ e member
  have still : ∃ cs', e.rest = cs' ++ rest ∧ cs' <:+ cs := by
    rcases List.append_eq_append_iff.mp split with
      ⟨beyond, readBeyond, atRest⟩ | ⟨cs', inside, atEnd⟩
    · cases beyond with
      | nil => exact ⟨[], atRest.symm, List.nil_suffix⟩
      | cons x xs =>
        subst readBeyond atRest
        exact absurd (all x (by simp)) (stops x rfl)
    · exact ⟨cs', atEnd, read, inside.symm⟩
  obtain ⟨cs', atEnd, inside⟩ := still
  obtain ⟨beforeEnd, restOfEnd, spansOfEnd⟩ := e
  subst atEnd
  exact fails _ _ _ (inside.trans within)

/-- What fails within a run passes it. -/
theorem passes (fails : p.FailsIn run rest) (before : Option Char) : p.Passes before run rest := by
  induction run generalizing before with
  | nil => trivial
  | cons c cs ih =>
    refine ⟨?_, ih (fun before spans cs' within => ?_) c⟩
    · rw [matchAt?, ← List.cons_append, fails before [] (c :: cs) List.suffix_rfl]
      rfl
    · exact fails before spans cs' (within.trans (List.suffix_cons c cs))

/-- A pattern fails in a run if it fails at each character that the run can have, and
at each way in which the text can go on. -/
theorem of_failsWithin {chars : List Char} {ways : List Ahead}
    (settled : p.failsWithin chars ways = true) (inChars : ∀ c ∈ run, c ∈ chars)
    (goesOn : GoesOn ways rest) : p.FailsIn run rest := by
  intro before spans cs within
  obtain ⟨inside, atEnd⟩ :=
    Bool.and_eq_true_iff.mp (List.all_eq_true.mp settled _ (any_isWordChar_mem before))
  cases cs with
  | nil =>
    obtain ⟨a, listed, more, rfl, whole⟩ := goesOn
    have found := endsWithin?_sound whole p (eq_of_beq (List.all_eq_true.mp atEnd a listed))
      (c := ⟨before, a.chars ++ more, spans⟩) ⟨rfl, rfl, rfl⟩
    exact List.forall₂_nil_left_iff.mp found
  | cons c cs =>
    have listed : c ∈ chars := inChars c (within.subset List.mem_cons_self)
    have unknown : false = true → cs ++ rest = [] := by rintro ⟨⟩
    have found := endsWithin?_sound unknown p (eq_of_beq (List.all_eq_true.mp inside c listed))
      (c := ⟨before, c :: (cs ++ rest), spans⟩) ⟨rfl, rfl, rfl⟩
    exact List.forall₂_nil_left_iff.mp found

end FailsIn

/-! ## Preferred ways -/

/-- The pattern, at the first cursor, would rather end at the second one than anywhere
else. -/
def Prefers (p : Pattern) (c e : Cursor) : Prop := ∃ others, p.ends c = e :: others

namespace Prefers

variable {p q : Pattern} {c e e' : Cursor}

theorem seq (first : p.Prefers c e) (second : q.Prefers e e') : (Pattern.seq p q).Prefers c e' := by
  obtain ⟨others, first⟩ := first
  obtain ⟨others', second⟩ := second
  refine ⟨others' ++ others.flatMap q.ends, ?_⟩
  rw [ends, first, List.flatMap_cons, second, List.cons_append]

theorem left (first : p.Prefers c e) : (Pattern.either p q).Prefers c e := by
  obtain ⟨others, first⟩ := first
  exact ⟨others ++ q.ends c, by rw [ends, first, List.cons_append]⟩

/-- The second way is taken if there is no first. -/
theorem right (fails : p.ends c = []) (second : q.Prefers c e) :
    (Pattern.either p q).Prefers c e := by
  obtain ⟨others, second⟩ := second
  exact ⟨others, by rw [ends, fails, second, List.nil_append]⟩

theorem capture (inside : p.Prefers c e) :
    (Pattern.capture p).Prefers c { e with spans := e.spans ++ [⟨c.rest, e.rest⟩] } := by
  obtain ⟨others, inside⟩ := inside
  exact ⟨_, by rw [ends, inside, List.map_cons]⟩

/-- The preferred way is the match, if it reads anything. -/
theorem matchAt? {before : Option Char} {cs : List Char} (way : p.Prefers ⟨before, cs, []⟩ e)
    (shorter : e.rest.length < cs.length) : p.matchAt? before cs = some e := by
  obtain ⟨others, way⟩ := way
  rw [Pattern.matchAt?, way, List.find?_cons, decide_eq_true shorter]

end Prefers

/-- The first choice of a repetition is to read the whole run. -/
theorem longRuns_run {cls : CharClass} (spans : List Span) {rest : List Char}
    (stops : ∀ c ∈ rest.head?, cls.contains c = false) (run : List Char) :
    ∀ (found : List Cursor) (before : Option Char), (∀ c ∈ run, cls.contains c = true) →
      ∃ others, longRuns cls spans found before (run ++ rest) =
        ⟨Pattern.behind before run, rest, spans⟩ :: others := by
  induction run with
  | nil =>
    intro found before _
    cases rest with
    | nil => exact ⟨found, rfl⟩
    | cons x xs =>
      refine ⟨found, ?_⟩
      rw [List.nil_append, longRuns, if_neg (by rw [stops x rfl]; decide)]
      rfl
  | cons c cs ih =>
    intro found before inClass
    obtain ⟨others, longest⟩ := ih (⟨before, c :: (cs ++ rest), spans⟩ :: found) c
      fun d member => inClass d (List.mem_cons_of_mem c member)
    refine ⟨others, ?_⟩
    rw [List.cons_append, longRuns, if_pos (inClass c List.mem_cons_self)]
    exact longest

/-- A repetition reads the whole run. -/
theorem prefers_most {cls : CharClass} {run rest : List Char}
    (inClass : ∀ c ∈ run, cls.contains c = true)
    (stops : ∀ c ∈ rest.head?, cls.contains c = false) (before : Option Char)
    (spans : List Span) :
    (most cls).Prefers ⟨before, run ++ rest, spans⟩ ⟨behind before run, rest, spans⟩ :=
  longRuns_run spans stops run [] before inClass

/-- A run of a class is taken in its full length. -/
theorem prefers_oneOrMore {cls : CharClass} {run rest : List Char} (nonempty : run ≠ [])
    (inClass : ∀ c ∈ run, cls.contains c = true)
    (stops : ∀ c ∈ rest.head?, cls.contains c = false) (before : Option Char)
    (spans : List Span) :
    (oneOrMore cls).Prefers ⟨before, run ++ rest, spans⟩ ⟨behind before run, rest, spans⟩ := by
  obtain ⟨c, cs, rfl⟩ := List.exists_cons_of_ne_nil nonempty
  obtain ⟨first, later⟩ := List.forall_mem_cons.mp inClass
  have one : (one cls).Prefers ⟨before, c :: (cs ++ rest), spans⟩ ⟨some c, cs ++ rest, spans⟩ :=
    ⟨[], if_pos first⟩
  exact one.seq (prefers_most later stops (some c) spans)

end MarketRules.Pattern
