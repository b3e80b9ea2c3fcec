import Mathlib.Algebra.BigOperators.Ring.List
import Mathlib.Algebra.Ring.Nat
import MarketRules.Proofs.Number.ExactSums
import MarketRules.Proofs.Strategy.FreshSignals

/-!
# The sums of the windows

A moving average adds every number to one sum and subtracts it again when it leaves the
window.  Each addition and each subtraction rounds, so the sum is that of the window only
if nothing is lost on the way.  That is so if the format has the sum of every window, and
the sum of every window with the next number, which is added before the oldest one is
subtracted.
-/

namespace MarketRules

namespace MovingAverage

open Binary64 (count? ofCount Representable)

/-! ## Windows -/

section

variable {α β : Type}

/-- The last `width` of the first `seen` entries, or all of these if they are fewer. -/
def window (width seen : Nat) (xs : List α) : List α := (xs.take seen).drop (seen - width)

theorem map_window (f : α → β) (width seen : Nat) (xs : List α) :
    (window width seen xs).map f = window width seen (xs.map f) := by
  rw [window, List.map_drop, List.map_take]
  rfl

variable {xs : List α} {width seen : Nat} {x y : α}

/-- The next entry comes. -/
theorem window_grow (next : xs[seen]? = some x) :
    window (width + 1) (seen + 1) xs = window width seen xs ++ [x] := by
  obtain ⟨inside, -⟩ := List.getElem?_eq_some_iff.mp next
  rw [window, window, Nat.add_sub_add_right, List.take_add_one, next, Option.toList_some,
    List.drop_append_of_le_length]
  rw [List.length_take]
  omega

/-- The oldest entry of a full window leaves. -/
theorem window_leave (full : width ≤ seen) (oldest : xs[seen - width]? = some y) :
    window (width + 1) (seen + 1) xs = y :: window width (seen + 1) xs := by
  have found : (xs.take (seen + 1))[seen - width]? = some y := by
    rw [List.getElem?_take_of_lt (by omega), oldest]
  obtain ⟨within, same⟩ := List.getElem?_eq_some_iff.mp found
  rw [window, window, Nat.add_sub_add_right, List.drop_eq_getElem_cons within, same,
    Nat.sub_add_comm full]

/-- A window that is not full has every entry. -/
theorem window_stay (short : seen < width) :
    window (width + 1) (seen + 1) xs = window width (seen + 1) xs := by
  rw [window, window, Nat.sub_eq_zero_of_le (by omega), Nat.sub_eq_zero_of_le short]

end

/-! ## The running sum -/

/-- The next sum: a number comes, and one may leave. -/
def slide (sum x : Binary64) : Option Binary64 → Binary64
  | some y => sum + x - y
  | none => sum + x

theorem runningSums_cons (sum x : Binary64) (out : Option Binary64) (xs : List Binary64)
    (outs : List (Option Binary64)) :
    runningSums sum (x :: xs) (out :: outs) =
      slide sum x out :: runningSums (slide sum x out) xs outs := by
  cases out <;> rfl

/-- What each bar preserves holds of the sum after every bar. -/
theorem runningSums_invariant (holds : Nat → Binary64 → Prop) {sum : Binary64}
    {xs : List Binary64} {outs : List (Option Binary64)} (first : holds 0 sum)
    (step : ∀ index s x out, xs[index]? = some x → outs[index]? = some out → holds index s →
      holds (index + 1) (slide s x out))
    {index : Nat} {s : Binary64} (found : (runningSums sum xs outs)[index]? = some s) :
    holds (index + 1) s := by
  induction xs generalizing holds sum outs index with
  | nil => simp [runningSums] at found
  | cons x xs ih =>
    cases outs with
    | nil => simp [runningSums] at found
    | cons out outs =>
      rw [runningSums_cons] at found
      have second : holds 1 (slide sum x out) := step 0 sum x out rfl rfl first
      cases index with
      | zero =>
        obtain rfl : slide sum x out = s := Option.some.inj found
        exact second
      | succ index =>
        exact ih (fun n => holds (n + 1)) second
          (fun n s x out next leaves => step (n + 1) s x out next leaves) found

/-- The number that leaves at a bar is the one a period before it. -/
theorem getElem?_leaving (period : Nat) {index : Nat} {xs : List Binary64}
    (inside : index < xs.length) :
    (leaving period xs)[index]? = some (if period ≤ index then xs[index - period]? else none) := by
  rw [leaving, List.getElem?_append, List.length_replicate, List.getElem?_replicate]
  by_cases full : period ≤ index
  · have behind : index - period < xs.length := by omega
    rw [Nat.min_eq_left (by omega), if_neg (by omega), if_pos full, List.getElem?_map,
      List.getElem?_eq_getElem behind]
    rfl
  · rw [if_pos (by omega), if_pos (by omega), if_neg full]

/-! ## The places that are looked up -/

/-- The sums by a loop that looks up the number to subtract in the series itself, by its
place.  There are none if the series has no such place. -/
def lookedUpSums? (period : Nat) (xs : List Binary64) (index : Nat) (sum : Binary64) :
    (rest : List Binary64) → Option (List Binary64)
  | [] => some []
  | x :: rest =>
    if period ≤ index then
      xs[index - period]?.bind fun y =>
        (lookedUpSums? period xs (index + 1) (sum + x - y) rest).map ((sum + x - y) :: ·)
    else (lookedUpSums? period xs (index + 1) (sum + x) rest).map ((sum + x) :: ·)
termination_by structural rest => rest

/-- Looking up the number that leaves never misses, and gives the sums of the sliding window.
-/
theorem lookedUpSums?_drop (period : Nat) (xs : List Binary64) (index : Nat) (sum : Binary64)
    (rest : List Binary64) (behind : xs.drop index = rest) :
    lookedUpSums? period xs index sum rest =
      some (runningSums sum rest ((leaving period xs).drop index)) := by
  induction rest generalizing index sum with
  | nil => rfl
  | cons x rest ih =>
    have inside : index < xs.length := by
      rw [← Nat.not_le, ← List.drop_eq_nil_iff, behind]
      exact List.cons_ne_nil x rest
    have next : xs.drop (index + 1) = rest := by rw [← List.tail_drop, behind, List.tail_cons]
    obtain ⟨within, same⟩ := List.getElem?_eq_some_iff.mp (getElem?_leaving period inside)
    rw [List.drop_eq_getElem_cons within, same, runningSums_cons, lookedUpSums?]
    by_cases full : period ≤ index
    · have place : index - period < xs.length := by omega
      rw [if_pos full, if_pos full, List.getElem?_eq_getElem place, Option.bind_some, ih _ _ next]
      rfl
    · rw [if_neg full, if_neg full, ih _ _ next]
      rfl

/-- The loop never looks outside of the series. -/
theorem lookedUpSums?_eq_some (period : Nat) (xs : List Binary64) :
    lookedUpSums? period xs 0 0 xs = some (windowSums period xs) :=
  lookedUpSums?_drop period xs 0 0 xs rfl

/-! ## Exact sums -/

/-- Numbers with these counts have windows whose sums the format has, also with the
number that leaves the window next. -/
structure ExactWindows (period : Nat) (counts : List Nat) : Prop where
  held : ∀ seen ≤ counts.length, Representable (window period seen counts).sum
  grown : ∀ seen ≤ counts.length, Representable (window (period + 1) seen counts).sum

section

variable {period : Nat} {xs : List Binary64} {counts : List Nat}

theorem getElem?_counts (counted : xs.map count? = counts.map some) {place : Nat} {x : Binary64}
    (found : xs[place]? = some x) : ∃ k, counts[place]? = some k ∧ x.count? = some k := by
  have same := congrArg (·[place]?) counted
  simp only [List.getElem?_map, found, Option.map_some] at same
  obtain ⟨k, there, isCount⟩ := Option.map_eq_some_iff.mp same.symm
  exact ⟨k, there, isCount.symm⟩

/-- One bar takes the sum of a window to that of the next window. -/
theorem slide_ofCount (counted : xs.map count? = counts.map some)
    (exact : ExactWindows period counts) {index : Nat} {x : Binary64} {out : Option Binary64}
    (next : xs[index]? = some x) (leaves : (leaving period xs)[index]? = some out) :
    slide (ofCount (window period index counts).sum) x out =
      ofCount (window period (index + 1) counts).sum := by
  obtain ⟨inside, -⟩ := List.getElem?_eq_some_iff.mp next
  have length : xs.length = counts.length := by simpa using congrArg List.length counted
  have inside' : index < counts.length := by rwa [← length]
  obtain ⟨k, there, isCount⟩ := getElem?_counts counted next
  have grown : (window (period + 1) (index + 1) counts).sum =
      (window period index counts).sum + k := by
    rw [window_grow there, List.sum_append, List.sum_singleton]
  have added : ofCount (window period index counts).sum + x =
      ofCount (window (period + 1) (index + 1) counts).sum := by
    rw [Binary64.ofCount_add (exact.held _ (Nat.le_of_lt inside')) isCount, grown]
  rw [getElem?_leaving period inside] at leaves
  obtain rfl := Option.some.inj leaves
  by_cases full : period ≤ index
  · have place : index - period < xs.length := by omega
    rw [if_pos full, List.getElem?_eq_getElem place]
    obtain ⟨l, there', isCount'⟩ := getElem?_counts counted (List.getElem?_eq_getElem place)
    have left : (window (period + 1) (index + 1) counts).sum =
        l + (window period (index + 1) counts).sum := by
      rw [window_leave full there', List.sum_cons]
    show ofCount _ + x - _ = _
    rw [added, Binary64.ofCount_sub (exact.grown _ inside') isCount' (left ▸ Nat.le_add_right l _),
      left, Nat.add_sub_cancel_left]
  · rw [if_neg full, ← window_stay (by omega)]
    exact added

/-- After every bar the running sum is the sum of the window. -/
theorem getElem?_windowSums (counted : xs.map count? = counts.map some)
    (exact : ExactWindows period counts) {index : Nat} (inside : index < xs.length) :
    (windowSums period xs)[index]? =
      some (ofCount (window period (index + 1) counts).sum) := by
  have inside' : index < (windowSums period xs).length := by
    rw [length_windowSums]
    exact inside
  have found := List.getElem?_eq_getElem inside'
  have start : (0 : Binary64) = ofCount (window period 0 counts).sum := by
    rw [window, List.take_zero, List.drop_nil]
    exact Binary64.zero_eq
  have exactly := runningSums_invariant
    (fun seen sum => sum = ofCount (window period seen counts).sum) start
    (fun index s x out next leaves held => by
      rw [held]
      exact slide_ofCount counted exact next leaves) found
  rw [found, exactly]

/-- While the sums of the windows are exact, every mean is that of its window. -/
theorem getElem?_averages_of_exact (counted : xs.map count? = counts.map some)
    (exact : ExactWindows period counts) {index : Nat} (inside : index < xs.length) :
    (averages period xs)[index]? =
      some (average? period (ofCount (window period (index + 1) counts).sum) index) := by
  rw [averages, List.getElem?_mapIdx, getElem?_windowSums counted exact inside]
  rfl

end

/-! ## Whole numbers -/

theorem window_eq_drop {α : Type} (width seen : Nat) (xs : List α) :
    window width seen xs =
      (window (width + 1) seen xs).drop (seen - width - (seen - (width + 1))) := by
  rw [window, window, List.drop_drop, Nat.add_sub_cancel' (by omega)]

/-- A wider window has no smaller sum. -/
theorem sum_window_le (width seen : Nat) (ks : List Nat) :
    (window width seen ks).sum ≤ (window (width + 1) seen ks).sum := by
  rw [window_eq_drop]
  generalize seen - width - (seen - (width + 1)) = left
  have parts := congrArg List.sum (List.take_append_drop left (window (width + 1) seen ks))
  rw [List.sum_append] at parts
  omega

/-- Counting in smaller units multiplies the sum of a window. -/
theorem sum_window_mul (width seen unit : Nat) (ks : List Nat) :
    (window width seen (ks.map (· * unit))).sum = (window width seen ks).sum * unit := by
  have scaled := List.sum_map_mul_right (window width seen ks) id unit
  rw [List.map_id] at scaled
  rw [← map_window, ← scaled]
  rfl

/-- The format has the sums of whole numbers up to `2^53`. -/
theorem exactWindows_of_whole {period : Nat} {ks : List Nat}
    (small : ∀ seen ≤ ks.length, (window (period + 1) seen ks).sum ≤ 2 ^ 53) :
    ExactWindows period (ks.map (· * Binary64.stepsPerUnit)) := by
  constructor
  · intro seen within
    rw [List.length_map] at within
    rw [sum_window_mul]
    exact Binary64.representable_whole (Nat.le_trans (sum_window_le ..) (small seen within))
  · intro seen within
    rw [List.length_map] at within
    rw [sum_window_mul]
    exact Binary64.representable_whole (small seen within)

/-- Whole numbers are counted in whole units. -/
theorem map_count?_of_whole {xs : List Binary64} {ks : List Nat}
    (whole : xs.map Binary64.whole? = ks.map fun k : Nat => some (k : Int)) :
    xs.map count? = (ks.map (· * Binary64.stepsPerUnit)).map some := by
  apply List.ext_getElem?
  intro index
  have same := congrArg (·[index]?) whole
  simp only [List.getElem?_map] at same ⊢
  cases there : xs[index]? with
  | none =>
    rw [there] at same
    rw [Option.map_eq_none_iff.mp same.symm]
    rfl
  | some x =>
    rw [there] at same
    obtain ⟨k, found, isWhole⟩ := Option.map_eq_some_iff.mp same.symm
    rw [found, Option.map_some, Binary64.count?_of_whole? isWhole.symm]
    rfl

end MovingAverage

end MarketRules
