import Recast.Proofs.Text.Characters

/-!
# Trimming

A text is its indentation, its trimmed text and the blanks behind it.  Blanks that are put around a
text are trimmed with its own, at either end without regard to the other.
-/

namespace Recast.Text

/-- Dropping what comes first is filtering, if what is dropped cannot come later. -/
theorem dropWhile_eq_filter {α : Type} {p : α → Bool} {l : List α}
    (h : l.Pairwise fun a b ↦ p b → p a) : l.dropWhile p = l.filter (!p ·) := by
  induction l with
  | nil => rfl
  | cons a l ih =>
    obtain ⟨ha, hl⟩ := List.pairwise_cons.1 h
    by_cases hp : p a
    · rw [List.dropWhile_cons_of_pos hp, ih hl, List.filter_cons_of_neg (by simpa using hp)]
    · have hall : ∀ b ∈ a :: l, !p b := by
        intro b hb
        rcases List.mem_cons.1 hb with rfl | hb
        · simpa using hp
        · simpa using mt (ha b hb) hp
      rw [List.dropWhile_cons_of_neg hp, List.filter_eq_self.2 hall]

/-- Nothing is dropped from an end that does not satisfy the condition. -/
theorem dropEndWhile_eq_self {p : Char → Bool} {t : Text} (h : ∀ c ∈ t.getLast?, p c = false) :
    dropEndWhile p t = t := by
  rw [dropEndWhile, ← List.head?_reverse] at *
  cases hrev : t.reverse with
  | nil => simp_all
  | cons d rest =>
    rw [hrev] at h
    rw [List.dropWhile_cons_of_neg (by simp [h d rfl]), ← hrev, List.reverse_reverse]

theorem trim_eq_self {t : Text} (hhead : ∀ c ∈ t.head?, isBlank c = false)
    (hlast : ∀ c ∈ t.getLast?, isBlank c = false) : trim t = t := by
  have hstart : trimStart t = t := by
    cases t with
    | nil => rfl
    | cons d rest => exact List.dropWhile_cons_of_neg (by simp [hhead d rfl])
  rw [trim, hstart]
  exact dropEndWhile_eq_self hlast

theorem trimEnd_append_of_blank (t : Text) {after : Text} (h : ∀ c ∈ after, isBlank c) :
    trimEnd (t ++ after) = trimEnd t := by
  have hreverse : ∀ c ∈ after.reverse, isBlank c := fun c hc ↦ h c (List.mem_reverse.1 hc)
  rw [trimEnd, dropEndWhile, List.reverse_append, List.dropWhile_append_of_pos hreverse]
  rfl

theorem trim_append_blank (t : Text) {after : Text} (h : ∀ c ∈ after, isBlank c) :
    trim (t ++ after) = trim t := by
  rw [trim, trimStart, List.dropWhile_append]
  split
  · rename_i hvoid
    rw [List.dropWhile_eq_nil_iff.2 h, trim, trimStart, List.isEmpty_iff.1 hvoid]
  · exact trimEnd_append_of_blank _ h

theorem trimEnd_append_of_ne_nil (t : Text) {u : Text} (h : trimEnd u ≠ []) :
    trimEnd (t ++ u) = t ++ trimEnd u := by
  rw [trimEnd, dropEndWhile] at h
  rw [trimEnd, dropEndWhile, List.reverse_append, List.dropWhile_append, if_neg (by simpa using h),
    List.reverse_append, List.reverse_reverse]
  rfl

theorem trimEnd_cons {c : Char} (hc : isBlank c = false) (t : Text) :
    trimEnd (c :: t) = c :: trimEnd t := by
  rw [trimEnd, dropEndWhile, List.reverse_cons, List.dropWhile_append, trimEnd, dropEndWhile]
  split
  · rename_i hvoid
    simp [hc, List.isEmpty_iff.1 hvoid]
  · simp

theorem trim_cons {c : Char} (hc : isBlank c = false) (t : Text) :
    trim (c :: t) = c :: trimEnd t := by
  rw [trim, trimStart, List.dropWhile_cons_of_neg (by simp [hc]), trimEnd_cons hc]

theorem trimEnd_trimEnd (t : Text) : trimEnd (trimEnd t) = trimEnd t := by
  have hgap : ∀ c ∈ gap t, isBlank c := fun c hc ↦ isBlank_of_mem_gap hc
  have h := trimEnd_append_of_blank (trimEnd t) hgap
  rwa [trimEnd_append_gap, eq_comm] at h

/-- A line is its indentation, its trimmed text and its gap. -/
theorem indentation_append_trim (t : Text) :
    indentation t ++ (trim t ++ gap (trimStart t)) = t := by
  rw [trim, trimEnd_append_gap, indentation_append_trimStart]

theorem isBlank_of_trimStart_eq_cons {t u : Text} {c : Char} (h : trimStart t = c :: u) :
    isBlank c = false := by
  have hhead := List.head?_dropWhile_not isBlank t
  rw [← trimStart, h] at hhead
  simpa using hhead

/-- The blanks at one end are taken off without regard to those at the other. -/
theorem trimStart_trimEnd (t : Text) : trimStart (trimEnd t) = trim t := by
  have hindent : ∀ c ∈ indentation t, isBlank c := fun c hc ↦ isBlank_of_mem_indentation hc
  cases hstart : trimStart t with
  | nil =>
    have hvoid : isVoid t := List.all_eq_true.2 (List.dropWhile_eq_nil_iff.1 hstart)
    have hend : trimEnd t = [] := by
      have h := trimEnd_append_of_blank [] (List.all_eq_true.1 hvoid)
      rwa [List.nil_append] at h
    rw [hend, trim_eq_nil_iff.2 hvoid]
    rfl
  | cons c u =>
    have hc := isBlank_of_trimStart_eq_cons hstart
    have hline : t = indentation t ++ c :: u := by rw [← hstart, indentation_append_trimStart]
    have hend : trimEnd (c :: u) = c :: trimEnd u := trimEnd_cons hc u
    calc
      trimStart (trimEnd t) = trimStart (indentation t ++ trimEnd (c :: u)) := by
        rw [← trimEnd_append_of_ne_nil _ (by simp [hend]), ← hline]
      _ = trimStart (c :: trimEnd u) := by
        rw [trimStart, List.dropWhile_append_of_pos hindent, hend, trimStart]
      _ = trimEnd (c :: u) := by
        rw [trimStart, List.dropWhile_cons_of_neg (by simp [hc]), hend]
      _ = trim t := by rw [trim, hstart]

theorem endsWith_singleton (t : Text) (c : Char) : endsWith t [c] = (t.getLast? == some c) := by
  rw [endsWith, List.isSuffixOf, List.reverse_singleton, ← List.head?_reverse]
  cases t.reverse with
  | nil => rfl
  | cons d u => simp [List.isPrefixOf, eq_comm]

/-- The last character of a text without its blanks is found from either end. -/
theorem getLast?_trim (t : Text) : (trim t).getLast? = (trimEnd t).getLast? := by
  rw [← trimStart_trimEnd]
  cases hstart : trimStart (trimEnd t) with
  | nil =>
    have hvoid : isVoid (trimEnd t) := List.all_eq_true.2 (List.dropWhile_eq_nil_iff.1 hstart)
    have hend := trimEnd_append_of_blank [] (List.all_eq_true.1 hvoid)
    rw [List.nil_append, trimEnd_trimEnd] at hend
    rw [hend]
    rfl
  | cons c u =>
    have h := indentation_append_trimStart (trimEnd t)
    rw [hstart] at h
    rw [← h, List.getLast?_append, List.getLast?_cons, Option.some_or]

theorem isBlank_of_getLast?_trimEnd {t : Text} {c : Char} (hc : c ∈ (trimEnd t).getLast?) :
    isBlank c = false := by
  have hhead := List.head?_dropWhile_not isBlank t.reverse
  rw [Option.mem_def, trimEnd, dropEndWhile, List.getLast?_reverse] at hc
  rw [hc] at hhead
  simpa using hhead

/-- A trimmed text starts and ends in ink. -/
theorem isBlank_of_trim_eq_self {t : Text} {c : Char} (ht : trim t = t)
    (hc : c ∈ t.head? ∨ c ∈ t.getLast?) : isBlank c = false := by
  rcases hc with hc | hc
  · obtain ⟨u, hu⟩ := List.head?_eq_some_iff.1 hc
    apply isBlank_of_trimStart_eq_cons (t := trimEnd t)
    rw [trimStart_trimEnd, ht, hu]
  · rw [← ht, getLast?_trim] at hc
    exact isBlank_of_getLast?_trimEnd hc

theorem trim_trimEnd (t : Text) : trim (trimEnd t) = trim t := by
  rw [trim, trimStart_trimEnd, trim, trimEnd_trimEnd]

theorem trim_trimStart (t : Text) : trim (trimStart t) = trim t := by
  have hindent : ∀ c ∈ indentation t, isBlank c := fun c hc ↦ isBlank_of_mem_indentation hc
  have h := trim_append_of_blank hindent (trimStart t)
  rw [indentation_append_trimStart] at h
  exact h.symm

theorem indentation_append_cons {before : Text} (h : ∀ c ∈ before, isBlank c) {c : Char}
    (hc : isBlank c = false) (t : Text) : indentation (before ++ c :: t) = before := by
  rw [indentation, List.takeWhile_append_of_pos h, List.takeWhile_cons_of_neg (by simp [hc]),
    List.append_nil]

theorem trim_trim (t : Text) : trim (trim t) = trim t := by
  have hindent : ∀ c ∈ indentation t, isBlank c := fun c hc ↦ isBlank_of_mem_indentation hc
  have hgap : ∀ c ∈ gap (trimStart t), isBlank c := fun c hc ↦ isBlank_of_mem_gap hc
  calc
    trim (trim t) = trim (indentation t ++ (trim t ++ gap (trimStart t))) := by
      rw [trim_append_of_blank hindent, trim_append_blank _ hgap]
    _ = trim t := by rw [indentation_append_trim]

/-- The indentation of a text ends where its ink starts. -/
theorem indentation_append_of_not_isVoid {t : Text} (h : isVoid t = false) (u : Text) :
    indentation (t ++ u) = indentation t := by
  have hshort : (t.takeWhile isBlank).length ≠ t.length := by
    intro hlength
    have hall := List.takeWhile_eq_self_iff.1
      ((List.takeWhile_prefix isBlank).eq_of_length hlength)
    exact absurd (List.all_eq_true.2 hall) (by simpa [isVoid] using h)
  rw [indentation, List.takeWhile_append, if_neg hshort, indentation]

/-- A trimmed text starts with ink. -/
theorem isBlank_of_mem_head?_trim {c : Char} {t : Text} (h : c ∈ (trim t).head?) :
    isBlank c = false := by
  cases hstart : trimStart t with
  | nil =>
    rw [trim, hstart] at h
    exact absurd h (by simp [trimEnd, dropEndWhile])
  | cons d u =>
    have hd := isBlank_of_trimStart_eq_cons hstart
    rw [trim, hstart, trimEnd_cons hd, List.head?_cons, Option.mem_some_iff] at h
    rwa [← h]

end Recast.Text
