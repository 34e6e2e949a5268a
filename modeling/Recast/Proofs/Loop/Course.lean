import Mathlib.Algebra.Order.Group.Unbundled.Int
import Mathlib.Tactic.Ring

/-!
# The values that a loop goes through

A loop over a range goes from a start by a step as long as it is short of a stop.  The languages put
this in different ways: as a list that is made up before the loop, cut from an interval of integers,
or as a variable that is tested and changed round by round.  Each way is defined here by itself, over
unbounded integers, and compared with the range.
-/

namespace Recast.Loop

/-! ## Ranges -/

/-- Whether a value is short of a bound, seen in the direction of the step. -/
def ShortOf (step bound value : Int) : Prop :=
  if 0 < step then value < bound else bound < value

instance (step bound value : Int) : Decidable (ShortOf step bound value) :=
  inferInstanceAs (Decidable (if 0 < step then value < bound else bound < value))

/-- The values are `start`, `start + step`, `start + 2 * step` and so on, all of those that are short
of `stop`. -/
structure IsRange (start stop step : Int) (values : List Int) : Prop where
  /-- Every value stands where the step puts it, short of the stop. -/
  at_index : ∀ (i : Nat) (h : i < values.length),
    values[i] = start + i * step ∧ ShortOf step stop values[i]
  /-- The next value would not be short of the stop. -/
  ends : ¬ShortOf step stop (start + values.length * step)

section Range

variable {start stop step value : Int} {values others : List Int}

theorem shortOf_of_pos (h : 0 < step) (stop value : Int) :
    ShortOf step stop value ↔ value < stop := by
  unfold ShortOf
  rw [if_pos h]

theorem shortOf_of_neg (h : step < 0) (stop value : Int) :
    ShortOf step stop value ↔ stop < value := by
  unfold ShortOf
  rw [if_neg (by omega)]

theorem isRange_nil : IsRange start stop step [] ↔ ¬ShortOf step stop start := by
  constructor
  · intro h
    simpa using h.ends
  · intro h
    exact ⟨by simp, by simpa using h⟩

/-- A range that is not empty is its start, followed by the range from the next value on. -/
theorem isRange_cons :
    IsRange start stop step (value :: values)
      ↔ value = start ∧ ShortOf step stop start ∧ IsRange (start + step) stop step values := by
  have hshift (i : Nat) : start + (i + 1 : Nat) * step = start + step + i * step := by
    push_cast
    ring
  constructor
  · intro h
    have hfirst := h.at_index 0 (by simp)
    simp only [List.getElem_cons_zero, Nat.cast_zero, zero_mul, add_zero] at hfirst
    refine ⟨hfirst.1, hfirst.1 ▸ hfirst.2, fun i hi ↦ ?_, ?_⟩
    · have hnext := h.at_index (i + 1) (by simpa using hi)
      rwa [List.getElem_cons_succ, hshift] at hnext
    · have hends := h.ends
      rwa [List.length_cons, hshift] at hends
  · rintro ⟨rfl, hshort, h⟩
    refine ⟨fun i hi ↦ ?_, ?_⟩
    · cases i with
      | zero => simpa using hshort
      | succ i =>
        rw [List.getElem_cons_succ, hshift]
        exact h.at_index i (by simpa using hi)
    · rw [List.length_cons, hshift]
      exact h.ends

/-- There is only one range from a start by a step to a stop. -/
theorem IsRange.eq (h : IsRange start stop step values) (h' : IsRange start stop step others) :
    values = others := by
  induction values generalizing start others with
  | nil =>
    cases others with
    | nil => rfl
    | cons value others => exact absurd (isRange_cons.1 h').2.1 (isRange_nil.1 h)
  | cons value values ih =>
    obtain ⟨rfl, hshort, hvalues⟩ := isRange_cons.1 h
    cases others with
    | nil => exact absurd hshort (isRange_nil.1 h')
    | cons other others =>
      obtain ⟨rfl, -, hothers⟩ := isRange_cons.1 h'
      rw [ih hvalues hothers]

/-- The stop that a course by the step needs to go on to the given one. -/
def past (step stop : Int) : Int :=
  if 0 < step then stop + 1 else stop - 1

theorem shortOf_past_iff :
    ShortOf step (past step stop) value ↔ ShortOf step stop value ∨ value = stop := by
  unfold ShortOf past
  split <;> omega

/-- Where no value is the stop, it does not matter whether the stop counts. -/
theorem IsRange.of_past (h : IsRange start (past step stop) step values)
    (hmisses : ∀ n : Nat, start + n * step ≠ stop) : IsRange start stop step values := by
  refine ⟨fun i hi ↦ ?_, fun hends ↦ h.ends (shortOf_past_iff.2 (.inl hends))⟩
  obtain ⟨hvalue, hshort⟩ := h.at_index i hi
  have hne : values[i] ≠ stop := hvalue ▸ hmisses i
  exact ⟨hvalue, (shortOf_past_iff.1 hshort).resolve_right hne⟩

/-- What some more steps lead to the stop is short of it. -/
theorem shortOf_of_meets (hstep : step ≠ 0) {n : Nat}
    (hmeets : value + (n + 1 : Nat) * step = stop) :
    ShortOf step stop value := by
  have hsplit : value + n * step + step = stop := by
    rw [← hmeets]
    push_cast
    ring
  unfold ShortOf
  split
  · rename_i hpos
    have := Int.mul_nonneg (Int.natCast_nonneg n) hpos.le
    omega
  · have := Int.mul_nonneg (Int.natCast_nonneg n) (show 0 ≤ -step by omega)
    rw [Int.mul_neg] at this
    omega

/-- Where the stop counts and is met, it is the last value. -/
theorem IsRange.past_of_meets (h : IsRange start stop step values) (hstep : step ≠ 0) {n : Nat}
    (hmeets : start + n * step = stop) :
    IsRange start (past step stop) step (values ++ [stop]) := by
  induction values generalizing start n with
  | nil =>
    cases n with
    | zero =>
      obtain rfl : start = stop := by simpa using hmeets
      have hnext : ¬ShortOf step (past step start) (start + step) := by
        unfold ShortOf past
        split <;> omega
      exact isRange_cons.2 ⟨rfl, shortOf_past_iff.2 (.inr rfl), isRange_nil.2 hnext⟩
    | succ n => exact absurd (shortOf_of_meets hstep hmeets) (isRange_nil.1 h)
  | cons value values ih =>
    obtain ⟨rfl, hshort, hvalues⟩ := isRange_cons.1 h
    cases n with
    | zero =>
      -- The stop itself is not short of the stop.
      obtain rfl : value = stop := by simpa using hmeets
      unfold ShortOf at hshort
      split at hshort <;> omega
    | succ n =>
      have hnext : value + step + n * step = stop := by
        rw [← hmeets]
        push_cast
        ring
      exact isRange_cons.2 ⟨rfl, shortOf_past_iff.2 (.inl hshort), ih hvalues hnext⟩

/-- What starts with a value that is short of the stop, and goes on from the next value in the same
way, is the range. -/
theorem isRange_of_unfold {list : Int → List Int} (hstep : step ≠ 0)
    (hlist : ∀ value, list value =
      if ShortOf step stop value then value :: list (value + step) else [])
    (start : Int) : IsRange start stop step (list start) := by
  -- Each round brings the value closer to the stop.
  have hbound (bound : Nat) : ∀ start : Int,
      ((if 0 < step then stop - start else start - stop) ≤ bound) →
        IsRange start stop step (list start) := by
    induction bound with
    | zero =>
      intro start hdistance
      rw [hlist, if_neg, isRange_nil]
      all_goals
        unfold ShortOf
        split at hdistance <;> split <;> omega
    | succ bound ih =>
      intro start hdistance
      rw [hlist]
      by_cases hshort : ShortOf step stop start
      · rw [if_pos hshort, isRange_cons]
        refine ⟨rfl, hshort, ih (start + step) ?_⟩
        split at hdistance <;> split <;> omega
      · rw [if_neg hshort, isRange_nil]
        exact hshort
  exact hbound (if 0 < step then stop - start else start - stop).toNat start (Int.self_le_toNat _)

end Range

/-! ## Lists -/

/-- How many values there are from `start` by `step` short of `stop`. -/
def rangeLength (start stop step : Int) : Nat :=
  if 0 < step then ((stop - start + step - 1) / step).toNat
  else ((start - stop - step - 1) / -step).toNat

/-- The list that a call of `range` makes up. -/
def rangeList (start stop step : Int) : List Int :=
  (List.range (rangeLength start stop step)).map fun i : Nat ↦ start + i * step

/-- The integers from `low` on that are less than `high`. -/
def interval (low high : Int) : List Int :=
  (List.range (high - low).toNat).map fun i : Nat ↦ low + i

/-- Leaves out as many items as `skip` says, takes the next one, and then one of every `n`. -/
def everyFrom (n : Nat) : (skip : Nat) → List Int → List Int
  | _, [] => []
  | 0, value :: values => value :: everyFrom n (n - 1) values
  | skip + 1, _ :: values => everyFrom n skip values

/-- The first item and every `n`-th one after it. -/
def every (n : Nat) (values : List Int) : List Int :=
  everyFrom n 0 values

section Lists

variable {start stop step low high : Int} {n : Nat}

theorem lt_rangeLength_iff (hstep : step ≠ 0) (i : Nat) :
    i < rangeLength start stop step ↔ ShortOf step stop (start + i * step) := by
  unfold rangeLength ShortOf
  split
  · rename_i hpos
    have hdiv := Int.le_ediv_iff_mul_le (a := (i : Int) + 1) (b := stop - start + step - 1) hpos
    rw [Int.add_mul, one_mul] at hdiv
    omega
  · rename_i hpos
    have hneg : 0 < -step := by omega
    have hdiv := Int.le_ediv_iff_mul_le (a := (i : Int) + 1) (b := start - stop - step - 1) hneg
    rw [Int.add_mul, one_mul, Int.mul_neg] at hdiv
    omega

theorem isRange_rangeList (start stop : Int) (hstep : step ≠ 0) :
    IsRange start stop step (rangeList start stop step) := by
  refine ⟨fun i hi ↦ ?_, ?_⟩
  · have hlength : i < rangeLength start stop step := by simpa [rangeList] using hi
    have hshort := (lt_rangeLength_iff hstep i).1 hlength
    simpa [rangeList] using hshort
  · rw [← lt_rangeLength_iff hstep]
    simp [rangeList]

theorem interval_of_lt (h : low < high) : interval low high = low :: interval (low + 1) high := by
  have hlength : (high - low).toNat = (high - (low + 1)).toNat + 1 := by omega
  unfold interval
  rw [hlength, List.range_succ_eq_map, List.map_cons, List.map_map]
  congr 1
  · simp
  · apply List.map_congr_left
    intro i _
    simp only [Function.comp_apply]
    push_cast
    ring

theorem interval_of_le (h : high ≤ low) : interval low high = [] := by
  unfold interval
  rw [Int.toNat_of_nonpos (by omega)]
  rfl

/-- The last integer of an interval comes first in the opposite direction. -/
theorem reverse_interval_of_lt (h : low < high) :
    (interval low high).reverse = (high - 1) :: (interval low (high - 1)).reverse := by
  have hlength : (high - low).toNat = (high - 1 - low).toNat + 1 := by omega
  unfold interval
  rw [hlength, List.range_succ, List.map_append, List.reverse_append]
  simp only [List.map_cons, List.map_nil, List.reverse_singleton, List.singleton_append]
  congr 1
  omega

theorem drop_interval (low high : Int) (n : Nat) :
    (interval low high).drop n = interval (low + n) high := by
  induction n generalizing low with
  | zero => simp
  | succ n ih =>
    rcases lt_or_ge low high with h | h
    · rw [interval_of_lt h, List.drop_succ_cons, ih]
      congr 1
      push_cast
      ring
    · rw [interval_of_le h, interval_of_le (by omega), List.drop_nil]

theorem drop_reverse_interval (low high : Int) (n : Nat) :
    (interval low high).reverse.drop n = (interval low (high - n)).reverse := by
  induction n generalizing high with
  | zero => simp
  | succ n ih =>
    rcases lt_or_ge low high with h | h
    · rw [reverse_interval_of_lt h, List.drop_succ_cons, ih]
      congr 2
      push_cast
      ring
    · rw [interval_of_le h, interval_of_le (by omega)]
      simp

theorem everyFrom_eq_every_drop (n skip : Nat) (values : List Int) :
    everyFrom n skip values = every n (values.drop skip) := by
  fun_induction everyFrom n skip values with
  | case1 => rw [List.drop_nil]; rfl
  | case2 value values ih => rfl
  | case3 skip value values ih => exact ih

theorem every_cons (n : Nat) (value : Int) (values : List Int) :
    every n (value :: values) = value :: every n (values.drop (n - 1)) := by
  unfold every
  rw [everyFrom, everyFrom_eq_every_drop]
  rfl

/-- Every `n`-th integer of an interval, from its lower end on. -/
theorem isRange_every_interval (hn : 0 < n) (low high : Int) :
    IsRange low high n (every n (interval low high)) := by
  apply isRange_of_unfold (by omega)
  intro value
  have hshort := shortOf_of_pos (Int.natCast_pos.2 hn) high value
  split
  · rename_i h
    rw [interval_of_lt (hshort.1 h), every_cons, drop_interval]
    congr 3
    omega
  · rename_i h
    rw [hshort] at h
    rw [interval_of_le (by omega)]
    rfl

/-- Every `n`-th integer of an interval, from its upper end on. -/
theorem isRange_every_reverse_interval (hn : 0 < n) (low high : Int) :
    IsRange high low (-n) (every n (interval (low + 1) (high + 1)).reverse) := by
  apply isRange_of_unfold (by omega)
  intro value
  have hshort := shortOf_of_neg (Int.neg_neg_of_pos (Int.natCast_pos.2 hn)) low value
  split
  · rename_i h
    rw [hshort] at h
    rw [reverse_interval_of_lt (by omega), every_cons, drop_reverse_interval]
    congr 4
    · omega
    · omega
  · rename_i h
    rw [hshort] at h
    rw [interval_of_le (by omega)]
    rfl

theorem every_one (values : List Int) : every 1 values = values := by
  induction values with
  | nil => rfl
  | cons value values ih => rw [every_cons, Nat.sub_self, List.drop_zero, ih]

end Lists

/-! ## Counting -/

/-- How the variable of a loop is compared with the bound. -/
inductive Comparison where
  | less
  | greater
  | atMost
  | atLeast
  deriving DecidableEq, Repr

/-- Whether the comparison holds of a value and a bound. -/
def Comparison.holds (bound value : Int) : Comparison → Bool
  | less => value < bound
  | greater => bound < value
  | atMost => value ≤ bound
  | atLeast => bound ≤ value

/-- The values of a variable from `start` on that is changed after each round, up to the first one
that fails the test. -/
inductive Counts (test : Comparison) (bound change : Int) : (start : Int) → List Int → Prop where
  | stop {value : Int} (h : test.holds bound value = false) : Counts test bound change value []
  | round {value : Int} {values : List Int} (h : test.holds bound value = true)
      (hvalues : Counts test bound change (value + change) values) :
      Counts test bound change value (value :: values)

section Counts

variable {test : Comparison} {start stop bound change : Int} {values others : List Int}

theorem Counts.eq (h : Counts test bound change start values)
    (h' : Counts test bound change start others) : values = others := by
  induction h generalizing others with
  | stop hfails =>
    cases h' with
    | stop => rfl
    | round hholds _ => exact absurd (hfails.symm.trans hholds) Bool.false_ne_true
  | round hholds _ ih =>
    cases h' with
    | stop hfails => exact absurd (hfails.symm.trans hholds) Bool.false_ne_true
    | round _ hothers => rw [ih hothers]

/-- Counting goes through a range if its test says whether a value is short of the stop. -/
theorem IsRange.counts (h : IsRange start stop change values)
    (htest : ∀ value, test.holds bound value ↔ ShortOf change stop value) :
    Counts test bound change start values := by
  induction values generalizing start with
  | nil =>
    apply Counts.stop
    rw [← Bool.not_eq_true, htest]
    exact isRange_nil.1 h
  | cons value values ih =>
    obtain ⟨rfl, hshort, hvalues⟩ := isRange_cons.1 h
    exact .round ((htest value).2 hshort) (ih hvalues)

end Counts

/-! ## Courses -/

/-- What a header says the variable of its loop goes through. -/
inductive Course where
  /-- The items of a list. -/
  | listed (values : List Int)
  /-- The values from `start` on, changed after each round, while the test holds. -/
  | counted (start : Int) (test : Comparison) (bound change : Int)
  deriving DecidableEq, Repr

/-- The values that the variable goes through. -/
def Course.Visits : Course → List Int → Prop
  | listed items, values => values = items
  | counted start test bound change, values => Counts test bound change start values

/-- A course goes through one sequence of values only. -/
theorem Course.Visits.eq {course : Course} {values others : List Int} (h : course.Visits values)
    (h' : course.Visits others) : values = others := by
  cases course with
  | listed items => exact Eq.trans h (Eq.symm h')
  | counted start test bound change => exact Counts.eq h h'

end Recast.Loop
