import MarketRules.Backtest.Run

/-!
# The schedule of a backtest

The signals alone fix where positions are opened and closed.  The first entry is
the first bar with an entry signal.  Every entry is left at the first later bar
with an exit signal, and the next entry is the first bar behind that one with an
entry signal.

`entryFrom?` and `exitFrom?` say this by number, without a walk through the
days.  `Runs` says it as a relation that can begin at any bar, with or without a
position.  It is the invariant of the walk: each day moves `Runs` by one bar.
-/

namespace MarketRules

/-! ## The next signal -/

/-- The least index from `start` on at which a signal is set. -/
def nextSet? (signal : List Bool) (start : Nat) : Option Nat :=
  ((signal.drop start).findIdx? id).map (start + ·)

theorem nextSet?_of_set {signal : List Bool} {i : Nat} (set : signal[i]? = some true) :
    nextSet? signal i = some i := by
  obtain ⟨bound, value⟩ := List.getElem?_eq_some_iff.mp set
  rw [nextSet?, List.drop_eq_getElem_cons bound, value, List.findIdx?_cons]
  rfl

theorem nextSet?_of_unset {signal : List Bool} {i : Nat} (unset : signal[i]? = some false) :
    nextSet? signal i = nextSet? signal (i + 1) := by
  obtain ⟨bound, value⟩ := List.getElem?_eq_some_iff.mp unset
  rw [nextSet?, nextSet?, List.drop_eq_getElem_cons bound, value, List.findIdx?_cons]
  cases (signal.drop (i + 1)).findIdx? id with
  | none => rfl
  | some j => simp [Nat.add_assoc, Nat.add_comm 1 j]

theorem nextSet?_of_length_le {signal : List Bool} {i : Nat} (past : signal.length ≤ i) :
    nextSet? signal i = none := by
  simp [nextSet?, List.drop_eq_nil_of_le past]

/-- What is found is the first place from the start on at which the signal is set. -/
theorem nextSet?_eq_some_iff {signal : List Bool} {start i : Nat} :
    nextSet? signal start = some i ↔
      start ≤ i ∧ signal[i]? = some true ∧
        ∀ j, start ≤ j → j < i → signal[j]? ≠ some true := by
  constructor
  · intro h
    obtain ⟨d, found, rfl⟩ := Option.map_eq_some_iff.mp h
    obtain ⟨bound, set, least⟩ := List.findIdx?_eq_some_iff_getElem.mp found
    rw [List.length_drop] at bound
    rw [List.getElem_drop] at set
    refine ⟨Nat.le_add_right .., ?_, ?_⟩
    · rw [List.getElem?_eq_getElem (by omega)]
      exact congrArg some set
    · intro j hstart hj
      have unset := least (j - start) (by omega)
      rw [List.getElem_drop] at unset
      rw [List.getElem?_eq_getElem (by omega)]
      simpa [show start + (j - start) = j by omega] using unset
  · rintro ⟨hstart, set, least⟩
    obtain ⟨bound, value⟩ := List.getElem?_eq_some_iff.mp set
    refine Option.map_eq_some_iff.mpr ⟨i - start, ?_, by omega⟩
    refine List.findIdx?_eq_some_iff_getElem.mpr
      ⟨by rw [List.length_drop]; omega, ?_, ?_⟩
    · rw [List.getElem_drop]
      simpa [show start + (i - start) = i by omega] using value
    · intro j hj
      have unset := least (start + j) (by omega) (by omega)
      rw [List.getElem?_eq_getElem (by omega)] at unset
      rw [List.getElem_drop]
      simpa using unset

/-! ## The schedule by number -/

namespace Signals

/-- The bar of the entry with number `k`, where the schedule begins at the bar
`start`. -/
def entryFrom? (s : Signals) (start : Nat) : Nat → Option Nat
  | 0 => nextSet? s.entry start
  | k + 1 => do
    let e ← s.entryFrom? start k
    let x ← nextSet? s.exit (e + 1)
    nextSet? s.entry (x + 1)

/-- The bar at which the entry with number `k` is left. -/
def exitFrom? (s : Signals) (start k : Nat) : Option Nat := do
  let e ← s.entryFrom? start k
  nextSet? s.exit (e + 1)

/-- The entry with number `k` and its exit, if both are defined. -/
def span? (s : Signals) (k : Nat) : Option (Nat × Nat) := do
  return (← s.entryFrom? 0 k, ← s.exitFrom? 0 k)

/-- All entries with their exits, in order.  Exit number `k` is not before bar
`k`, so no number from the number of bars on has one. -/
def spans (s : Signals) : List (Nat × Nat) := (List.range s.exit.length).filterMap s.span?

/-- Behind the first exit the schedule begins anew. -/
theorem entryFrom?_succ {s : Signals} {start e x : Nat} (entered : nextSet? s.entry start = some e)
    (left : nextSet? s.exit (e + 1) = some x) (k : Nat) :
    s.entryFrom? start (k + 1) = s.entryFrom? (x + 1) k := by
  induction k with
  | zero => simp [entryFrom?, entered, left]
  | succ k ih => rw [entryFrom?, ih, entryFrom?]

/-- Without a first entry or its exit there is no other entry. -/
theorem entryFrom?_succ_eq_none {s : Signals} {start : Nat}
    (ends : ∀ e, nextSet? s.entry start = some e → nextSet? s.exit (e + 1) = none) (k : Nat) :
    s.entryFrom? start (k + 1) = none := by
  induction k with
  | zero =>
    cases entered : nextSet? s.entry start with
    | none => simp [entryFrom?, entered]
    | some e => simp [entryFrom?, entered, ends e entered]
  | succ k ih => rw [entryFrom?, ih]; rfl

/-! ## The schedule as a relation -/

/-- `s.Runs i held spans last`: from the bar `i` on, where `held` is the entry of
the position that is held there, the signals make `spans` and end with the
position of the entry `last`. -/
inductive Runs (s : Signals) : Nat → Option Nat → List (Nat × Nat) → Option Nat → Prop
  /-- No position is held and none is opened. -/
  | idle {i : Nat} : nextSet? s.entry i = none → Runs s i none [] none
  /-- A position is opened. -/
  | enter {i e : Nat} {spans : List (Nat × Nat)} {last : Option Nat} :
    nextSet? s.entry i = some e → Runs s (e + 1) (some e) spans last → Runs s i none spans last
  /-- A position is held to the end. -/
  | hold {i e : Nat} : nextSet? s.exit i = none → Runs s i (some e) [] (some e)
  /-- A position is closed. -/
  | leave {i e x : Nat} {spans : List (Nat × Nat)} {last : Option Nat} :
    nextSet? s.exit i = some x → Runs s (x + 1) none spans last →
      Runs s i (some e) ((e, x) :: spans) last

namespace Runs

variable {s : Signals} {i e : Nat} {held last : Option Nat} {spans : List (Nat × Nat)}

/-- A bar without an entry signal changes nothing while no position is held. -/
theorem stay_flat (unset : s.entry[i]? = some false) (h : s.Runs (i + 1) none spans last) :
    s.Runs i none spans last := by
  cases h with
  | idle none_set => exact .idle (by rw [nextSet?_of_unset unset, none_set])
  | enter entered rest => exact .enter (by rw [nextSet?_of_unset unset, entered]) rest

/-- A bar without an exit signal changes nothing while a position is held. -/
theorem stay_held (unset : s.exit[i]? = some false) (h : s.Runs (i + 1) (some e) spans last) :
    s.Runs i (some e) spans last := by
  cases h with
  | hold none_set => exact .hold (by rw [nextSet?_of_unset unset, none_set])
  | leave left rest => exact .leave (by rw [nextSet?_of_unset unset, left]) rest

/-- A run goes on from an entry that is due at once. -/
theorem enter_now (set : s.entry[i]? = some true) (h : s.Runs (i + 1) (some i) spans last) :
    s.Runs i none spans last :=
  .enter (nextSet?_of_set set) h

/-- A run goes on from an exit that is due at once. -/
theorem leave_now (set : s.exit[i]? = some true) (h : s.Runs (i + 1) none spans last) :
    s.Runs i (some e) ((e, i) :: spans) last :=
  .leave (nextSet?_of_set set) h

/-- A position that is held becomes a span, or is open at the end. -/
theorem held_mem (h : s.Runs i (some e) spans last) : e ∈ spans.map Prod.fst ++ last.toList := by
  cases h with
  | hold => simp
  | leave => simp

/-- The spans lie one behind the other, and none reaches back before the bar at
which the relation begins or the entry of the position that is held there. -/
theorem ordered (h : s.Runs i held spans last) (before : ∀ e, held = some e → e < i) :
    (∀ p ∈ spans, held.getD i ≤ p.1 ∧ p.1 < p.2 ∧ i ≤ p.2) ∧
      spans.Pairwise fun p q => p.2 < q.1 := by
  induction h with
  | idle => simp
  | hold => simp
  | @enter i e spans last entered _ ih =>
    have hle := (nextSet?_eq_some_iff.mp entered).1
    obtain ⟨bounds, pairwise⟩ := ih (by rintro _ ⟨⟩; omega)
    refine ⟨fun p hp => ?_, pairwise⟩
    obtain ⟨start, inside, behind⟩ := bounds p hp
    exact ⟨Nat.le_trans hle start, inside, by omega⟩
  | @leave i e x spans last left _ ih =>
    have hle := (nextSet?_eq_some_iff.mp left).1
    have he := before e rfl
    obtain ⟨bounds, pairwise⟩ := ih (by simp)
    constructor
    · intro p hp
      rcases List.mem_cons.mp hp with rfl | hp
      · exact ⟨Nat.le_refl _, by omega, hle⟩
      · obtain ⟨start, inside, behind⟩ := bounds p hp
        simp only [Option.getD_none, Option.getD_some] at start ⊢
        exact ⟨by omega, inside, by omega⟩
    · refine List.pairwise_cons.mpr ⟨fun q hq => ?_, pairwise⟩
      exact Nat.lt_of_succ_le (bounds q hq).1

/-- Every span ends within the signals. -/
theorem exit_lt (h : s.Runs i held spans last) : ∀ p ∈ spans, p.2 < s.exit.length := by
  induction h with
  | idle => simp
  | hold => simp
  | enter _ _ ih => exact ih
  | leave left _ ih =>
    obtain ⟨-, set, -⟩ := nextSet?_eq_some_iff.mp left
    obtain ⟨bound, -⟩ := List.getElem?_eq_some_iff.mp set
    exact List.forall_mem_cons.mpr ⟨bound, ih⟩

/-- There are no more spans than bars to end them at. -/
theorem length_le (h : s.Runs i held spans last) : i + spans.length ≤ max i s.exit.length := by
  induction h with
  | idle => exact Nat.le_max_left _ _
  | hold => exact Nat.le_max_left _ _
  | enter entered _ ih =>
    have hle := (nextSet?_eq_some_iff.mp entered).1
    omega
  | leave left _ ih =>
    obtain ⟨hle, set, -⟩ := nextSet?_eq_some_iff.mp left
    obtain ⟨bound, -⟩ := List.getElem?_eq_some_iff.mp set
    rw [List.length_cons]
    omega

/-- The relation finds the entries and exits of the schedule by number.  The numbers count
from `start`, which stays behind while a position is held and moves past the exit with it. -/
theorem lookup (h : s.Runs i held spans last) (start : Nat)
    (opened : match (motive := Option Nat → Prop) held with
      | none => start = i
      | some e => nextSet? s.entry start = some e ∧ i = e + 1) (k : Nat) :
    s.entryFrom? start k = (spans.map Prod.fst ++ last.toList)[k]? ∧
      s.exitFrom? start k = (spans.map Prod.snd)[k]? := by
  induction h generalizing start k with
  | idle none_set =>
    subst opened
    cases k with
    | zero => simp [exitFrom?, entryFrom?, none_set]
    | succ k =>
      have ends : s.entryFrom? start (k + 1) = none :=
        entryFrom?_succ_eq_none (by simp [none_set]) k
      simp [exitFrom?, ends]
  | enter entered _ ih =>
    subst opened
    exact ih start ⟨entered, rfl⟩ k
  | hold none_set =>
    obtain ⟨entered, rfl⟩ := opened
    cases k with
    | zero => simp [exitFrom?, entryFrom?, entered, none_set]
    | succ k =>
      have ends : s.entryFrom? start (k + 1) = none := by
        apply entryFrom?_succ_eq_none
        intro e' entered'
        rw [entered] at entered'
        cases entered'
        exact none_set
      simp [exitFrom?, ends]
  | leave left _ ih =>
    obtain ⟨entered, rfl⟩ := opened
    cases k with
    | zero => simp [exitFrom?, entryFrom?, entered, left]
    | succ k =>
      obtain ⟨entries, exits⟩ := ih _ rfl k
      rw [exitFrom?] at exits ⊢
      rw [entryFrom?_succ entered left]
      exact ⟨by simpa using entries, by simpa using exits⟩

end Runs

/-- From every bar on there is a schedule, since each entry and each exit uses up one of the
bars that remain. -/
theorem exists_runs (s : Signals) (remaining i : Nat) (held : Option Nat)
    (fits : max s.entry.length s.exit.length ≤ i + remaining) :
    ∃ spans last, s.Runs i held spans last := by
  induction remaining generalizing i held with
  | zero =>
    cases held with
    | none => exact ⟨[], none, .idle (nextSet?_of_length_le (by omega))⟩
    | some e => exact ⟨[], some e, .hold (nextSet?_of_length_le (by omega))⟩
  | succ remaining ih =>
    cases held with
    | none =>
      cases entered : nextSet? s.entry i with
      | none => exact ⟨[], none, .idle entered⟩
      | some e =>
        have hle := (nextSet?_eq_some_iff.mp entered).1
        obtain ⟨spans, last, runs⟩ := ih (e + 1) (some e) (by omega)
        exact ⟨spans, last, .enter entered runs⟩
    | some e =>
      cases left : nextSet? s.exit i with
      | none => exact ⟨[], some e, .hold left⟩
      | some x =>
        have hle := (nextSet?_eq_some_iff.mp left).1
        obtain ⟨spans, last, runs⟩ := ih (x + 1) none (by omega)
        exact ⟨(e, x) :: spans, last, .leave left runs⟩

/-- The spans of a run are those that the numbering finds. -/
theorem Runs.span?_eq {s : Signals} {spans : List (Nat × Nat)} {last : Option Nat}
    (h : s.Runs 0 none spans last) (k : Nat) : s.span? k = spans[k]? := by
  obtain ⟨entries, exits⟩ := h.lookup 0 rfl k
  rw [span?, entries, exits]
  by_cases bound : k < spans.length
  · simp [List.getElem?_append_left, bound]
  · simp [List.getElem?_eq_none (Nat.le_of_not_lt bound)]

theorem filterMap_range_getElem? {α : Type} (l : List α) (n : Nat) :
    (List.range n).filterMap (fun k => l[k]?) = l.take n := by
  induction n with
  | zero => simp
  | succ n ih =>
    rw [List.range_succ, List.filterMap_append, ih, List.take_add_one]
    cases next : l[n]? <;> simp [next]

theorem Runs.spans_eq {s : Signals} {spans : List (Nat × Nat)} {last : Option Nat}
    (h : s.Runs 0 none spans last) : s.spans = spans := by
  have lookup : s.span? = fun k => spans[k]? := funext h.span?_eq
  have bound : spans.length ≤ s.exit.length := by simpa using h.length_le
  rw [Signals.spans, lookup, filterMap_range_getElem?, List.take_of_length_le bound]

end Signals

end MarketRules
