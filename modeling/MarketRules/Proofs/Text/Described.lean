import MarketRules.Proofs.Text.Matching

/-!
# The texts of a pattern

A pattern describes a set of texts, and what a match takes is one of them.  Edges
and preferences play no part in this, so it is known of a match in any surroundings.
Two things are often read off the pattern: that its texts have only certain
characters (`Describes.forall_mem`), and that each of them contains a word of a
certain kind (`Describes.exists_infix`).  A text without such a word has no match.

`search_induction` is the induction over a text in which matches are looked for from
left to right, and `Remembers` says what is known of the pieces that a match remembers.
-/

namespace MarketRules.Pattern

/-! ## Described texts -/

/-- The pattern describes the text. -/
def Describes : Pattern → List Char → Prop
  | literal cs, t => t = cs
  | one cls, t => ∃ c, t = [c] ∧ cls.contains c = true
  | most cls, t => ∀ c ∈ t, cls.contains c = true
  | edge, t => t = []
  | seq p q, t => ∃ front back, t = front ++ back ∧ p.Describes front ∧ q.Describes back
  | either p q, t => p.Describes t ∨ q.Describes t
  | many p, t => ∃ ts : List (List Char), t = ts.flatten ∧ ∀ s ∈ ts, p.Describes s
  | capture p, t => p.Describes t

/-- From the first cursor to the second the text is read. -/
structure Cursor.Takes (c : Cursor) (t : List Char) (e : Cursor) : Prop where
  rest : c.rest = t ++ e.rest
  before : e.before = behind c.before t

theorem Cursor.Takes.nil (c : Cursor) : c.Takes [] c := ⟨rfl, rfl⟩

theorem Cursor.Takes.append {c m e : Cursor} {t t' : List Char} (first : c.Takes t m)
    (second : m.Takes t' e) : c.Takes (t ++ t') e where
  rest := by rw [first.rest, second.rest, List.append_assoc]
  before := by rw [second.before, first.before, behind_append]

theorem Cursor.skip?_append (cs rest : List Char) (spans : List Span) : ∀ before : Option Char,
    (⟨before, cs ++ rest, spans⟩ : Cursor).skip? cs = some ⟨behind before cs, rest, spans⟩ := by
  induction cs with
  | nil => exact fun _ => rfl
  | cons c cs ih =>
    intro before
    rw [List.cons_append, Cursor.skip?]
    dsimp only
    rw [if_pos rfl, ih c]
    rfl

/-- Skipping a text takes it. -/
theorem takes_of_skip? (cs : List Char) :
    ∀ {c e : Cursor}, c.skip? cs = some e → c.Takes cs e ∧ e.spans = c.spans := by
  induction cs with
  | nil =>
    rintro c e ⟨⟩
    exact ⟨.nil c, rfl⟩
  | cons x xs ih =>
    rintro ⟨before, rest, spans⟩ e skipped
    cases rest with
    | nil => cases skipped
    | cons y ys =>
      rw [Cursor.skip?] at skipped
      dsimp only at skipped
      split at skipped
      · next equal =>
        subst equal
        obtain ⟨taken, same⟩ := ih skipped
        exact ⟨⟨congrArg (x :: ·) taken.rest, taken.before⟩, same⟩
      · cases skipped

/-- A run takes characters of its class. -/
theorem takes_of_longRuns {cls : CharClass} {spans : List Span} (rest : List Char) :
    ∀ {found : List Cursor} {before : Option Char}, ∀ e ∈ longRuns cls spans found before rest,
      e ∈ found ∨ ∃ t, (∀ c ∈ t, cls.contains c = true) ∧
        (⟨before, rest, spans⟩ : Cursor).Takes t e ∧ e.spans = spans := by
  induction rest with
  | nil =>
    intro found before e member
    rcases List.mem_cons.mp member with rfl | earlier
    · exact .inr ⟨[], by simp, .nil _, rfl⟩
    · exact .inl earlier
  | cons x xs ih =>
    intro found before e member
    have here : ∀ e ∈ (⟨before, x :: xs, spans⟩ : Cursor) :: found, e ∈ found ∨ ∃ t,
        (∀ c ∈ t, cls.contains c = true) ∧
          (⟨before, x :: xs, spans⟩ : Cursor).Takes t e ∧ e.spans = spans := by
      intro e member
      rcases List.mem_cons.mp member with rfl | earlier
      · exact .inr ⟨[], by simp, .nil _, rfl⟩
      · exact .inl earlier
    rw [longRuns] at member
    split at member
    · next inClass =>
      rcases ih e member with earlier | ⟨t, all, taken, same⟩
      · exact here e earlier
      · exact .inr ⟨x :: t, List.forall_mem_cons.mpr ⟨inClass, all⟩,
          ⟨congrArg (x :: ·) taken.rest, taken.before⟩, same⟩
    · exact here e member

/-- What is repeated reads texts of the pattern, one after another. -/
theorem takes_of_rounds {p : Pattern} (sound : ∀ {c e : Cursor}, e ∈ p.ends c →
    ∃ t, p.Describes t ∧ c.Takes t e) (limit : Nat) : ∀ {c e : Cursor},
      e ∈ rounds p.ends limit c →
        ∃ ts : List (List Char), (∀ s ∈ ts, p.Describes s) ∧ c.Takes ts.flatten e := by
  induction limit with
  | zero =>
    intro c e member
    obtain rfl := List.mem_singleton.mp member
    exact ⟨[], by simp, .nil _⟩
  | succ limit ih =>
    intro c e member
    rcases List.mem_append.mp member with again | last
    · obtain ⟨m, first, later⟩ := List.mem_flatMap.mp again
      obtain ⟨t, described, taken⟩ := sound first
      obtain ⟨ts, all, takenLater⟩ := ih later
      exact ⟨t :: ts, List.forall_mem_cons.mpr ⟨described, all⟩, taken.append takenLater⟩
    · obtain rfl := List.mem_singleton.mp last
      exact ⟨[], by simp, .nil _⟩

/-- What is read is a text that the pattern describes. -/
theorem describes_of_mem_ends (p : Pattern) :
    ∀ {c e : Cursor}, e ∈ p.ends c → ∃ t, p.Describes t ∧ c.Takes t e := by
  induction p with
  | literal cs =>
    intro c e member
    exact ⟨cs, rfl, (takes_of_skip? cs (Option.mem_toList.mp member)).1⟩
  | one cls =>
    rintro ⟨before, rest, spans⟩ e member
    cases rest with
    | nil => cases member
    | cons x xs =>
      rw [ends] at member
      dsimp only at member
      split at member
      · next inClass =>
        obtain rfl := List.mem_singleton.mp member
        exact ⟨[x], ⟨x, rfl, inClass⟩, rfl, rfl⟩
      · cases member
  | most cls =>
    intro c e member
    rcases takes_of_longRuns c.rest e member with found | ⟨t, all, taken, -⟩
    · cases found
    · exact ⟨t, all, taken⟩
  | edge =>
    intro c e member
    rw [ends] at member
    split at member
    · obtain rfl := List.mem_singleton.mp member
      exact ⟨[], rfl, .nil _⟩
    · cases member
  | seq p q ihp ihq =>
    intro c e member
    obtain ⟨m, first, second⟩ := List.mem_flatMap.mp member
    obtain ⟨t, described, taken⟩ := ihp first
    obtain ⟨t', described', taken'⟩ := ihq second
    exact ⟨t ++ t', ⟨t, t', rfl, described, described'⟩, taken.append taken'⟩
  | either p q ihp ihq =>
    intro c e member
    rcases List.mem_append.mp member with first | second
    · obtain ⟨t, described, taken⟩ := ihp first
      exact ⟨t, .inl described, taken⟩
    · obtain ⟨t, described, taken⟩ := ihq second
      exact ⟨t, .inr described, taken⟩
  | many p ih =>
    intro c e member
    obtain ⟨ts, all, taken⟩ := takes_of_rounds ih c.rest.length member
    exact ⟨ts.flatten, ⟨ts, rfl, all⟩, taken⟩
  | capture p ih =>
    intro c e member
    obtain ⟨e, found, rfl⟩ := List.mem_map.mp member
    obtain ⟨t, described, taken⟩ := ih found
    exact ⟨t, described, taken.rest, taken.before⟩

/-! ## Words of a list -/

theorem mem_ends_oneOf {q : Pattern} {c e : Cursor} (member : e ∈ q.ends c) {qs : List Pattern} :
    ∀ {p : Pattern}, q ∈ p :: qs → e ∈ (oneOf p qs).ends c := by
  induction qs with
  | nil =>
    intro p listed
    rwa [← List.mem_singleton.mp listed]
  | cons q' qs ih =>
    intro p listed
    rcases List.mem_cons.mp listed with rfl | later
    · exact List.mem_append_left _ member
    · exact List.mem_append_right _ (ih later)

/-- What one of several patterns describes is described by a pattern among them. -/
theorem exists_of_describes_oneOf {qs : List Pattern} {t : List Char} :
    ∀ {p : Pattern}, (oneOf p qs).Describes t → ∃ q ∈ p :: qs, q.Describes t := by
  induction qs with
  | nil => exact fun described => ⟨_, .head _, described⟩
  | cons q qs ih =>
    rintro p (first | later)
    · exact ⟨p, .head _, first⟩
    · obtain ⟨r, listed, described⟩ := ih later
      exact ⟨r, .tail _ listed, described⟩

theorem mem_ends_edge_iff {c e : Cursor} : e ∈ edge.ends c ↔ e = c ∧ c.atEdge = true := by
  rw [ends]
  split
  · next atEdge => simp [atEdge]
  · next inside => simp [inside]

theorem mem_ends_word_iff {p : Pattern} {c e : Cursor} :
    e ∈ (word p).ends c ↔ c.atEdge = true ∧ e ∈ p.ends c ∧ e.atEdge = true := by
  have shape : (word p).ends c = (edge.ends c).flatMap fun m => (p.ends m).flatMap edge.ends := rfl
  simp only [shape, List.mem_flatMap, mem_ends_edge_iff]
  constructor
  · rintro ⟨_, ⟨rfl, start⟩, _, inside, rfl, stop⟩
    exact ⟨start, inside, stop⟩
  · rintro ⟨start, inside, stop⟩
    exact ⟨c, ⟨rfl, start⟩, e, inside, rfl, stop⟩

/-! ## What the texts of a pattern have in common -/

/-- The literal pieces of a pattern. -/
def literals : Pattern → List (List Char)
  | literal cs => [cs]
  | seq p q => p.literals ++ q.literals
  | either p q => p.literals ++ q.literals
  | many p => p.literals
  | capture p => p.literals
  | _ => []

/-- Does every text of the pattern contain a literal piece of this kind? -/
def requires (kind : List Char → Bool) : Pattern → Bool
  | literal cs => kind cs
  | seq p q => p.requires kind || q.requires kind
  | either p q => p.requires kind && q.requires kind
  | capture p => p.requires kind
  | _ => false

/-- The texts of a pattern have the characters of its literal pieces and of the classes. -/
theorem Describes.forall_mem {P : Char → Prop}
    (classes : ∀ (cls : CharClass) c, cls.contains c = true → P c) {p : Pattern}
    (pieces : ∀ cs ∈ p.literals, ∀ c ∈ cs, P c) :
    ∀ {t : List Char}, p.Describes t → ∀ c ∈ t, P c := by
  induction p with
  | literal cs =>
    rintro t rfl
    exact pieces t (.head _)
  | one cls =>
    rintro t ⟨x, rfl, inClass⟩ c member
    obtain rfl := List.mem_singleton.mp member
    exact classes cls _ inClass
  | most cls => exact fun described c member => classes cls c (described c member)
  | edge =>
    rintro t rfl c member
    cases member
  | seq p q ihp ihq =>
    rintro t ⟨front, back, rfl, first, second⟩
    obtain ⟨inFirst, inSecond⟩ := List.forall_mem_append.mp pieces
    exact List.forall_mem_append.mpr ⟨ihp inFirst first, ihq inSecond second⟩
  | either p q ihp ihq =>
    obtain ⟨inFirst, inSecond⟩ := List.forall_mem_append.mp pieces
    rintro t (first | second)
    · exact ihp inFirst first
    · exact ihq inSecond second
  | many p ih =>
    rintro t ⟨ts, rfl, all⟩ c member
    obtain ⟨s, listed, inside⟩ := List.mem_flatten.mp member
    exact ih pieces (all s listed) c inside
  | capture p ih => exact ih pieces

/-- A pattern that requires a kind of text describes only texts with such a piece. -/
theorem Describes.exists_infix {kind : List Char → Bool} {p : Pattern} :
    ∀ {t : List Char}, p.Describes t → p.requires kind = true → ∃ w, w <:+: t ∧ kind w = true := by
  induction p with
  | literal cs =>
    rintro t rfl required
    exact ⟨t, List.infix_rfl, required⟩
  | seq p q ihp ihq =>
    rintro t ⟨front, back, rfl, first, second⟩ required
    rcases Bool.or_eq_true_iff.mp required with inFirst | inSecond
    · obtain ⟨w, within, isKind⟩ := ihp first inFirst
      exact ⟨w, within.trans (List.prefix_append front back).isInfix, isKind⟩
    · obtain ⟨w, within, isKind⟩ := ihq second inSecond
      exact ⟨w, within.trans (List.suffix_append front back).isInfix, isKind⟩
  | either p q ihp ihq =>
    rintro t described required
    obtain ⟨inFirst, inSecond⟩ := Bool.and_eq_true_iff.mp required
    rcases described with first | second
    · exact ihp first inFirst
    · exact ihq second inSecond
  | capture p ih => exact ih
  | one cls => rintro t - ⟨⟩
  | most cls => rintro t - ⟨⟩
  | edge => rintro t - ⟨⟩
  | many p ih => rintro t - ⟨⟩

/-! ## Searching -/

/-- A match takes a text of the pattern that has at least one character. -/
theorem exists_taken_of_matchAt? {p : Pattern} {before : Option Char} {cs : List Char} {e : Cursor}
    (matched : p.matchAt? before cs = some e) :
    e ∈ p.ends ⟨before, cs, []⟩ ∧ ∃ taken, taken ≠ [] ∧ p.Describes taken ∧
      (⟨before, cs, []⟩ : Cursor).Takes taken e := by
  have member := List.mem_of_find?_eq_some matched
  have shorter : e.rest.length < cs.length := by
    simpa using List.find?_some (p := fun e : Cursor => e.rest.length < cs.length) matched
  obtain ⟨taken, described, takes⟩ := describes_of_mem_ends p member
  refine ⟨member, taken, ?_, described, takes⟩
  rintro rfl
  have same : cs = e.rest := takes.rest
  rw [same] at shorter
  exact Nat.lt_irrefl _ shorter

/-- The search goes on behind a character where no match begins, and behind a match. -/
@[elab_as_elim]
theorem search_induction {p : Pattern} {motive : Option Char → List Char → Prop}
    (nil : ∀ before, motive before [])
    (kept : ∀ before c cs, p.matchAt? before (c :: cs) = none → motive c cs →
      motive before (c :: cs))
    (matched : ∀ before taken e, taken ≠ [] → p.matchAt? before (taken ++ e.rest) = some e →
      p.Describes taken → e.before = behind before taken → motive (behind before taken) e.rest →
        motive before (taken ++ e.rest))
    (before : Option Char) (cs : List Char) : motive before cs := by
  induction length : cs.length using Nat.strongRecOn generalizing before cs with
  | _ n ih =>
    cases cs with
    | nil => exact nil before
    | cons c cs =>
      cases found : p.matchAt? before (c :: cs) with
      | none => exact kept before c cs found (ih cs.length (by simp [← length]) c cs rfl)
      | some e =>
        obtain ⟨-, taken, nonempty, described, takes⟩ := exists_taken_of_matchAt? found
        have shape : c :: cs = taken ++ e.rest := takes.rest
        have shorter : e.rest.length < n := by
          have positive := List.length_pos_of_ne_nil nonempty
          rw [← length, shape, List.length_append]
          omega
        rw [shape] at found ⊢
        exact matched before taken e nonempty found described takes.before
          (ih e.rest.length shorter _ _ rfl)

section

variable {p : Pattern} {f : List (List Char) → List Char} {kind : List Char → Bool}

/-- Where no word of the kind stands, no match begins. -/
theorem passes_of_requires (required : p.requires kind = true) {cs rest : List Char}
    (absent : ∀ w, w <:+: cs ++ rest → kind w = false) (before : Option Char) :
    p.Passes before cs rest := by
  induction cs generalizing before with
  | nil => trivial
  | cons c cs ih =>
    refine ⟨?_, ih (fun w within => absent w ?_) c⟩
    · cases found : p.matchAt? before (c :: (cs ++ rest)) with
      | none => rfl
      | some e =>
        obtain ⟨-, taken, -, described, takes⟩ := exists_taken_of_matchAt? found
        obtain ⟨w, within, isKind⟩ := described.exists_infix required
        have shape : c :: cs ++ rest = taken ++ e.rest := takes.rest
        have noKind := absent w (shape ▸ within.trans (List.prefix_append _ _).isInfix)
        rw [isKind] at noKind
        cases noKind
    · exact within.trans (List.suffix_cons c _).isInfix

/-- No match begins in the text, or what is written for one stands in the result. -/
theorem passes_or_written (before : Option Char) (cs : List Char) :
    p.Passes before cs [] ∨ ∃ before' cs' e, p.matchAt? before' cs' = some e ∧
      f (e.spans.map Span.chars) <:+: p.replaceFrom f before 0 cs := by
  induction before, cs using search_induction (p := p) with
  | nil before => exact .inl trivial
  | kept before c cs noMatch ih =>
    rcases ih with passes | ⟨before', cs', e, matched, within⟩
    · refine .inl ⟨?_, passes⟩
      rw [List.append_nil]
      exact noMatch
    · refine .inr ⟨before', cs', e, matched, ?_⟩
      rw [replaceFrom, noMatch]
      exact within.trans (List.suffix_cons c _).isInfix
  | matched before taken e nonempty found _ _ _ =>
    refine .inr ⟨before, taken ++ e.rest, e, found, ?_⟩
    rw [turns_of_matchAt? nonempty found rfl]
    exact (List.prefix_append _ _).isInfix

/-- A text in which no match begins is kept. -/
theorem Passes.replaceAll_eq {cs : List Char} (passes : p.Passes none cs []) :
    p.replaceAll f cs = cs := by
  have turned : p.Turns f none cs cs [] := passes.turns
  rw [Turns, List.append_nil] at turned
  exact turned.trans (List.append_nil cs)

end

/-! ## Remembered pieces -/

/-- The pattern remembers as many pieces as there are predicates, and they hold of the
pieces one by one. -/
def Remembers (p : Pattern) (Ps : List (List Char → Prop)) : Prop :=
  ∀ c, ∀ e ∈ p.ends c, ∃ spans, e.spans = c.spans ++ spans ∧
    List.Forall₂ (fun P (s : Span) => P s.chars) Ps spans

/-- Does the pattern remember nothing? -/
def isPlain : Pattern → Bool
  | seq p q => p.isPlain && q.isPlain
  | either p q => p.isPlain && q.isPlain
  | many p => p.isPlain
  | capture _ => false
  | _ => true

theorem spans_of_rounds {p : Pattern} (same : ∀ {c e : Cursor}, e ∈ p.ends c → e.spans = c.spans)
    (limit : Nat) : ∀ {c e : Cursor}, e ∈ rounds p.ends limit c → e.spans = c.spans := by
  induction limit with
  | zero =>
    intro c e member
    obtain rfl := List.mem_singleton.mp member
    rfl
  | succ limit ih =>
    intro c e member
    rcases List.mem_append.mp member with again | last
    · obtain ⟨m, first, later⟩ := List.mem_flatMap.mp again
      exact (ih later).trans (same first)
    · obtain rfl := List.mem_singleton.mp last
      rfl

/-- A pattern without captures remembers nothing. -/
theorem spans_of_isPlain (p : Pattern) (plain : p.isPlain = true) :
    ∀ {c e : Cursor}, e ∈ p.ends c → e.spans = c.spans := by
  induction p with
  | literal cs => exact fun member => (takes_of_skip? cs (Option.mem_toList.mp member)).2
  | one cls =>
    rintro ⟨before, rest, spans⟩ e member
    cases rest with
    | nil => cases member
    | cons x xs =>
      rw [ends] at member
      dsimp only at member
      split at member
      · obtain rfl := List.mem_singleton.mp member
        rfl
      · cases member
  | most cls =>
    intro c e member
    rcases takes_of_longRuns c.rest e member with found | ⟨t, -, -, same⟩
    · cases found
    · exact same
  | edge =>
    intro c e member
    rw [ends] at member
    split at member
    · obtain rfl := List.mem_singleton.mp member
      rfl
    · cases member
  | seq p q ihp ihq =>
    obtain ⟨first, second⟩ := Bool.and_eq_true_iff.mp plain
    intro c e member
    obtain ⟨m, inFirst, inSecond⟩ := List.mem_flatMap.mp member
    exact (ihq second inSecond).trans (ihp first inFirst)
  | either p q ihp ihq =>
    obtain ⟨first, second⟩ := Bool.and_eq_true_iff.mp plain
    intro c e member
    rcases List.mem_append.mp member with inFirst | inSecond
    · exact ihp first inFirst
    · exact ihq second inSecond
  | many p ih => exact fun member => spans_of_rounds (ih plain) _ member
  | capture p ih => cases plain

namespace Remembers

variable {p q : Pattern} {Ps Qs : List (List Char → Prop)}

theorem of_isPlain (plain : p.isPlain = true) : p.Remembers [] :=
  fun _ _ member => ⟨[], (spans_of_isPlain p plain member).trans (List.append_nil _).symm, .nil⟩

/-- Two patterns in a row remember what both remember. -/
theorem seq (first : p.Remembers Ps) (second : q.Remembers Qs) :
    (Pattern.seq p q).Remembers (Ps ++ Qs) := by
  intro c e member
  obtain ⟨m, inFirst, inSecond⟩ := List.mem_flatMap.mp member
  obtain ⟨spans, same, hold⟩ := first c m inFirst
  obtain ⟨spans', same', hold'⟩ := second m e inSecond
  exact ⟨spans ++ spans', by rw [same', same, List.append_assoc], List.rel_append hold hold'⟩

/-- A capture remembers the text that its pattern describes. -/
theorem capture (plain : p.isPlain = true) : (Pattern.capture p).Remembers [p.Describes] := by
  intro c e member
  obtain ⟨e, found, rfl⟩ := List.mem_map.mp member
  obtain ⟨t, described, takes⟩ := describes_of_mem_ends p found
  have chars : (⟨c.rest, e.rest⟩ : Span).chars = t := by simp [Span.chars, takes.rest]
  exact ⟨[⟨c.rest, e.rest⟩], congrArg (· ++ _) (spans_of_isPlain p plain found),
    .cons (chars ▸ described) .nil⟩

/-- What is known of the pieces of a match. -/
theorem of_matchAt? (remembers : p.Remembers Ps) {before : Option Char} {cs : List Char}
    {e : Cursor} (matched : p.matchAt? before cs = some e) :
    List.Forall₂ (fun P t => P t) Ps (e.spans.map Span.chars) := by
  obtain ⟨member, -⟩ := exists_taken_of_matchAt? matched
  obtain ⟨spans, same, hold⟩ := remembers _ e member
  rw [same]
  exact List.forall₂_map_right_iff.mpr hold

end Remembers

end MarketRules.Pattern
