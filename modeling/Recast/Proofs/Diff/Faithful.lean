import Mathlib.Data.List.Basic
import Recast.Diff
import Recast.Proofs.Text.Lines

/-!
# Comparisons are faithful

A comparison of two texts holds the lines of both, each in its order, and nothing else.  Lines stand
side by side as long as both texts have some; what the longer text has beyond that is all added or
all removed, so only one of the two can happen.  Exchanging the texts exchanges the sides of every
entry.
-/

namespace Recast

/-! ## One place -/

namespace Change

/-- The change at a place, which either text may have left. -/
def ofPlace : Option Text → Option Text → Option Change
  | none, none => none
  | none, some after => some (added after)
  | some before, none => some (removed before)
  | some before, some after => some (ofLines before after)

/-- The change seen from the other text. -/
def mirror : Change → Change
  | unchanged line => unchanged line
  | changed before after => changed after before
  | added line => removed line
  | removed line => added line

theorem ofPlace_mirror (before? after? : Option Text) :
    ofPlace after? before? = (ofPlace before? after?).map mirror := by
  rcases before? with _ | before <;> rcases after? with _ | after
  · rfl
  · rfl
  · rfl
  · by_cases h : before = after
    · simp [ofPlace, ofLines, h, mirror]
    · simp [ofPlace, ofLines, h, Ne.symm h, mirror]

/-- A change shows what the texts have at its place, and that it is none if they have the same. -/
theorem sides_of_ofPlace {before? after? : Option Text} {change : Change}
    (h : ofPlace before? after? = some change) :
    change.before? = before? ∧ change.after? = after?
      ∧ (change.fate = .unchanged ↔ before? = after?) := by
  rcases before? with _ | before <;> rcases after? with _ | after
  · exact absurd h (by simp [ofPlace])
  · obtain rfl := Option.some.inj h
    simp [Change.before?, Change.after?, fate]
  · obtain rfl := Option.some.inj h
    simp [Change.before?, Change.after?, fate]
  · obtain rfl := Option.some.inj h
    by_cases hsame : before = after
    · simp [ofLines, hsame, Change.before?, Change.after?, fate]
    · simp [ofLines, hsame, Change.before?, Change.after?, fate]

end Change

open Change

/-! ## Lists of lines -/

theorem getElem?_compareLines (befores afters : List Text) (i : Nat) :
    (compareLines befores afters)[i]? = ofPlace befores[i]? afters[i]? := by
  fun_induction compareLines befores afters generalizing i with
  | case1 => rfl
  | case2 after afters ih | case3 before befores ih | case4 before befores after afters ih =>
    cases i with
    | zero => rfl
    | succ i => simpa using ih i

theorem compareLines_mirror (befores afters : List Text) :
    compareLines afters befores = (compareLines befores afters).map mirror := by
  apply List.ext_getElem?
  intro i
  rw [List.getElem?_map, getElem?_compareLines, getElem?_compareLines, ofPlace_mirror]

theorem length_compareLines (befores afters : List Text) :
    (compareLines befores afters).length = max befores.length afters.length := by
  fun_induction compareLines befores afters with
  | case1 => rfl
  | case2 after afters ih | case3 before befores ih | case4 before befores after afters ih =>
    simp only [List.length_cons, List.length_nil, ih]
    omega

theorem filterMap_before?_compareLines (befores afters : List Text) :
    (compareLines befores afters).filterMap before? = befores := by
  fun_induction compareLines befores afters with
  | case1 => rfl
  | case2 after afters ih => simpa [before?] using ih
  | case3 before befores ih => simpa [before?] using ih
  | case4 before befores after afters ih =>
    have hplace : ofPlace (some before) (some after) = some (ofLines before after) := rfl
    have hfirst := (sides_of_ofPlace hplace).1
    rw [List.filterMap_cons_some hfirst, ih]

theorem filterMap_after?_compareLines (befores afters : List Text) :
    (compareLines befores afters).filterMap after? = afters := by
  have hswap : after? = before? ∘ mirror := by
    funext change
    cases change <;> rfl
  rw [hswap, ← List.filterMap_map, ← compareLines_mirror, filterMap_before?_compareLines]

/-- Nothing was changed exactly if the lines are the same. -/
theorem forall_unchanged_iff {befores afters : List Text} :
    (∀ change ∈ compareLines befores afters, change.fate = .unchanged) ↔ befores = afters := by
  constructor
  · intro h
    apply List.ext_getElem?
    intro i
    cases hplace : ofPlace befores[i]? afters[i]? with
    | none => cases hbefore : befores[i]? <;> cases hafter : afters[i]? <;> simp_all [ofPlace]
    | some change =>
      have hmem : change ∈ compareLines befores afters :=
        List.mem_of_getElem? ((getElem?_compareLines befores afters i).trans hplace)
      exact (sides_of_ofPlace hplace).2.2.1 (h change hmem)
  · rintro rfl change hchange
    obtain ⟨i, hi⟩ := List.getElem?_of_mem hchange
    rw [getElem?_compareLines] at hi
    exact (sides_of_ofPlace hi).2.2.2 rfl

theorem compareLines_nil_left (afters : List Text) : compareLines [] afters = afters.map added := by
  induction afters with
  | nil => rw [compareLines, List.map_nil]
  | cons after afters ih => rw [compareLines, ih, List.map_cons]

theorem compareLines_nil_right (befores : List Text) :
    compareLines befores [] = befores.map removed := by
  rw [compareLines_mirror, compareLines_nil_left, List.map_map]
  rfl

/-- What one list has and the other lacks comes last, after the places that both have. -/
theorem exists_surplus (befores afters : List Text) :
    ∃ aligned surplus, compareLines befores afters = aligned ++ surplus
      ∧ (∀ change ∈ aligned, change.fate = .unchanged ∨ change.fate = .changed)
      ∧ ((∀ change ∈ surplus, change.fate = .added)
        ∨ ∀ change ∈ surplus, change.fate = .removed) := by
  induction befores generalizing afters with
  | nil =>
    rw [compareLines_nil_left]
    exact ⟨[], afters.map added, rfl, by simp, .inl (List.forall_mem_map.2 fun _ _ ↦ rfl)⟩
  | cons before befores ih =>
    cases afters with
    | nil =>
      rw [compareLines_nil_right]
      refine ⟨[], (before :: befores).map removed, rfl, by simp, .inr ?_⟩
      exact List.forall_mem_map.2 fun _ _ ↦ rfl
    | cons after afters =>
      obtain ⟨aligned, surplus, hsplit, haligned, hsurplus⟩ := ih afters
      refine ⟨ofLines before after :: aligned, surplus, ?_, ?_, hsurplus⟩
      · rw [compareLines, hsplit, List.cons_append]
      · refine List.forall_mem_cons.2 ⟨?_, haligned⟩
        rw [ofLines]
        split
        · exact .inl rfl
        · exact .inr rfl

/-! ## Entries -/

namespace Difference

/-- The entry seen from the other text. -/
def mirror (difference : Difference) : Difference :=
  { difference with change := difference.change.mirror }

end Difference

theorem map_change_numberFrom (number : Nat) (changes : List Change) :
    (numberFrom number changes).map Difference.change = changes := by
  induction changes generalizing number with
  | nil => rfl
  | cons change changes ih => rw [numberFrom, List.map_cons, ih]

theorem map_number_numberFrom (number : Nat) (changes : List Change) :
    (numberFrom number changes).map Difference.number = List.range' number changes.length := by
  induction changes generalizing number with
  | nil => rfl
  | cons change changes ih => rw [numberFrom, List.map_cons, ih, List.length_cons, List.range'_succ]

theorem numberFrom_map_mirror (number : Nat) (changes : List Change) :
    numberFrom number (changes.map Change.mirror)
      = (numberFrom number changes).map Difference.mirror := by
  induction changes generalizing number with
  | nil => rfl
  | cons change changes ih => rw [List.map_cons, numberFrom, ih, numberFrom, List.map_cons]; rfl

theorem numberFrom_append (number : Nat) (changes others : List Change) :
    numberFrom number (changes ++ others)
      = numberFrom number changes ++ numberFrom (number + changes.length) others := by
  induction changes generalizing number with
  | nil => rfl
  | cons change changes ih =>
    rw [List.cons_append, numberFrom, ih, numberFrom, List.length_cons, List.cons_append]
    congr 3
    omega

/-- The lines of the first text that the entries show. -/
def beforeLines (differences : List Difference) : List Text :=
  differences.filterMap (·.change.before?)

/-- The lines of the second text that the entries show. -/
def afterLines (differences : List Difference) : List Text :=
  differences.filterMap (·.change.after?)

theorem beforeLines_cons (difference : Difference) (differences : List Difference) :
    beforeLines (difference :: differences)
      = difference.change.before?.toList ++ beforeLines differences := by
  cases h : difference.change.before? <;> simp [beforeLines, h]

theorem afterLines_cons (difference : Difference) (differences : List Difference) :
    afterLines (difference :: differences)
      = difference.change.after?.toList ++ afterLines differences := by
  cases h : difference.change.after? <;> simp [afterLines, h]

theorem countFate_cons (fate : Fate) (difference : Difference) (differences : List Difference) :
    countFate fate (difference :: differences)
      = countFate fate differences + if difference.change.fate = fate then 1 else 0 := by
  simp [countFate, List.countP_cons]

/-- Every entry is counted once, and what it shows is counted where it shows it. -/
theorem countFate_sums (differences : List Difference) :
    countFate .unchanged differences + countFate .changed differences
        + countFate .added differences + countFate .removed differences = differences.length
      ∧ countFate .unchanged differences + countFate .changed differences
        + countFate .removed differences = (beforeLines differences).length
      ∧ countFate .unchanged differences + countFate .changed differences
        + countFate .added differences = (afterLines differences).length := by
  induction differences with
  | nil => exact ⟨rfl, rfl, rfl⟩
  | cons difference differences ih =>
    obtain ⟨number, change⟩ := difference
    simp only [countFate_cons, beforeLines_cons, afterLines_cons, List.length_append,
      List.length_cons]
    cases change <;> simp [fate, before?, after?] <;> omega

/-! ## Texts -/

/-- What a comparison of two lists of lines has to say. -/
structure Compares (befores afters : List Text) (differences : List Difference) : Prop where
  before : beforeLines differences = befores
  after : afterLines differences = afters
  numbers : differences.map Difference.number = List.range' 1 (max befores.length afters.length)
  /-- An entry shows the lines at its place, and whether they are the same. -/
  place : ∀ (i : Nat) (difference : Difference), differences[i]? = some difference →
    difference.change.before? = befores[i]? ∧ difference.change.after? = afters[i]?
      ∧ (difference.change.fate = .unchanged ↔ befores[i]? = afters[i]?)
  /-- Lines are added or removed at the end only, and never both. -/
  surplus : ∃ aligned surplus, differences = aligned ++ surplus
    ∧ (∀ difference ∈ aligned,
        difference.change.fate = .unchanged ∨ difference.change.fate = .changed)
    ∧ ((∀ difference ∈ surplus, difference.change.fate = .added)
      ∨ ∀ difference ∈ surplus, difference.change.fate = .removed)
  same : (∀ difference ∈ differences, difference.change.fate = .unchanged) ↔ befores = afters

theorem forall_mem_numberFrom {holds : Change → Prop} {number : Nat} {changes : List Change} :
    (∀ difference ∈ numberFrom number changes, holds difference.change)
      ↔ ∀ change ∈ changes, holds change := by
  rw [← List.forall_mem_map (f := Difference.change), map_change_numberFrom]

theorem filterMap_numberFrom (side : Change → Option Text) (number : Nat) (changes : List Change) :
    (numberFrom number changes).filterMap (fun difference ↦ side difference.change)
      = changes.filterMap side := by
  have h := congrArg (List.filterMap side) (map_change_numberFrom number changes)
  rwa [List.filterMap_map] at h

theorem compares_compareTexts (before after : Text) :
    Compares (Text.splitLines before) (Text.splitLines after) (compareTexts before after) where
  before := (filterMap_numberFrom before? 1 _).trans (filterMap_before?_compareLines _ _)
  after := (filterMap_numberFrom after? 1 _).trans (filterMap_after?_compareLines _ _)
  numbers := by rw [compareTexts, map_number_numberFrom, length_compareLines]
  place i difference h := by
    apply sides_of_ofPlace
    rw [← getElem?_compareLines, ← map_change_numberFrom 1 (compareLines _ _), List.getElem?_map]
    exact congrArg (Option.map Difference.change) h
  surplus := by
    obtain ⟨aligned, surplus, hsplit, haligned, hsurplus⟩ :=
      exists_surplus (Text.splitLines before) (Text.splitLines after)
    rw [compareTexts, hsplit, numberFrom_append]
    refine ⟨_, _, rfl, forall_mem_numberFrom.2 haligned, ?_⟩
    exact hsurplus.imp forall_mem_numberFrom.2 forall_mem_numberFrom.2
  same := forall_mem_numberFrom.trans forall_unchanged_iff

theorem compareTexts_mirror (before after : Text) :
    compareTexts after before = (compareTexts before after).map Difference.mirror := by
  rw [compareTexts, compareTexts, compareLines_mirror, numberFrom_map_mirror]

/-- Cutting a text at its line ends is cutting it at line feeds after the ends of two characters and
then the carriage returns have been replaced. -/
theorem splitLines_eq_splitOn (t : Text) :
    Text.splitLines t = Text.splitOn '\n'
      (Text.substitute ['\r'] ['\n'] (Text.substitute ['\r', '\n'] ['\n'] t)) := by
  rw [Text.splitLines_eq_lines, Text.unifyLineEnds_eq_substitute]
  rfl

/-- A comparison shows the lines of both texts and nothing else, it is turned round with the texts,
and its counts add up to the numbers of entries and of lines. -/
theorem compareTexts_faithful (before after : Text) :
    let befores := Text.splitLines before
    let afters := Text.splitLines after
    let differences := compareTexts before after
    let counts := ChangeCounts.ofDifferences differences
    Compares befores afters differences
      ∧ compareTexts after before = differences.map Difference.mirror
      ∧ counts.unchanged + counts.changed + counts.added + counts.removed = differences.length
      ∧ counts.unchanged + counts.changed + counts.removed = befores.length
      ∧ counts.unchanged + counts.changed + counts.added = afters.length
      ∧ ∀ t, Text.splitLines t = Text.splitOn '\n'
          (Text.substitute ['\r'] ['\n'] (Text.substitute ['\r', '\n'] ['\n'] t)) := by
  intro befores afters differences counts
  have hcompares : Compares befores afters differences := compares_compareTexts before after
  obtain ⟨htotal, hbefore, hafter⟩ := countFate_sums differences
  rw [hcompares.before] at hbefore
  rw [hcompares.after] at hafter
  exact ⟨hcompares, compareTexts_mirror before after, htotal, hbefore, hafter,
    splitLines_eq_splitOn⟩

end Recast
