import Recast.Layout.Balance
import Recast.Proofs.Language.Profile

/-!
# What balancing can reach

Missing closing braces are added, so only a surplus can stay.  It is taken off the bottom: from
lines that are nothing but a brace, then from the ends of lines.  A brace at the end of a line need
not stand in code, and taking it off then changes no count; a brace before the end of a line is
never taken off.  The braces come out balanced exactly if the surplus is no greater than the number
of braces that are reached in code.
-/

namespace Recast.Layout

/-! ## Counts -/

section Counts

variable {target : Profile} {c : Char} {line : Text} {lines others : List Text}

@[simp]
theorem countInLines_nil : countInLines target c [] = 0 := rfl

@[simp]
theorem countInLines_cons :
    countInLines target c (line :: lines)
      = target.markers.countInCode [c] line + countInLines target c lines := rfl

@[simp]
theorem countInLines_append :
    countInLines target c (lines ++ others)
      = countInLines target c lines + countInLines target c others := by
  induction lines with
  | nil => simp
  | cons line lines ih => simp [ih, Nat.add_assoc]

@[simp]
theorem countInLines_reverse :
    countInLines target c lines.reverse = countInLines target c lines := by
  induction lines with
  | nil => rfl
  | cons line lines ih => simp [ih, Nat.add_comm]

end Counts

variable {target : Language} {c : Char} {sieve : Char → Bool} {line : Text} {lines : List Text}
  {surplus : Nat}

theorem sift_blanks_append (hsieve : ∀ d, isBlank d → ¬sieve d) {blanks : Text}
    (hblanks : ∀ d ∈ blanks, isBlank d) (line : Text) :
    target.profile.markers.sift sieve (blanks ++ line)
      = target.profile.markers.sift sieve line :=
  Markers.sift_neutral_append (fun d hd ↦ target.isNeutral_of_isBlank (hblanks d hd))
    (fun d hd ↦ hsieve d (hblanks d hd)) line

/-- Blanks around a line leave no trace in its code. -/
theorem sift_trim (hsieve : ∀ d, isBlank d → ¬sieve d) (line : Text) :
    target.profile.markers.sift sieve (Text.trim line)
      = target.profile.markers.sift sieve line := by
  have hend {d : Char} (hd : d ∈ Text.gap (Text.trimStart line)) : isBlank d :=
    Text.isBlank_of_mem_gap hd
  calc
    target.profile.markers.sift sieve (Text.trim line)
      = target.profile.markers.sift sieve
          (Text.trim line ++ Text.gap (Text.trimStart line)) := by
        rw [Markers.sift_append_neutral _ (fun _ hd ↦ target.isNeutral_of_isBlank (hend hd))
          fun d hd ↦ hsieve d (hend hd)]
    _ = target.profile.markers.sift sieve (Text.trimStart line) := by
        rw [Text.trim, Text.trimEnd_append_gap]
    _ = target.profile.markers.sift sieve (Text.indentation line ++ Text.trimStart line) := by
        rw [sift_blanks_append hsieve fun _ hd ↦ Text.isBlank_of_mem_indentation hd]
    _ = target.profile.markers.sift sieve line := by
        rw [Text.indentation_append_trimStart]

/-- Blanks around a line count for nothing. -/
theorem countInCode_trim (hc : isBlank c = false) (line : Text) :
    target.profile.markers.countInCode [c] (Text.trim line)
      = target.profile.markers.countInCode [c] line := by
  have hcount := target.profile.markers.countInCode_eq_count_sift (!isBlank ·) (c := c)
    (by simp [hc])
  rw [hcount, hcount, sift_trim (by simp)]

/-! ## Lone braces -/

theorem countInCode_of_isLoneBrace (hc : isBlank c = false) (h : isLoneBrace line) :
    target.profile.markers.countInCode [c] line = if c = '}' then 1 else 0 := by
  have htrim : Text.trim line = ['}'] := by simpa [isLoneBrace] using h
  have hneutral : ∀ d ∈ ['}'], target.profile.markers.isNeutral d := by
    simpa using target.isNeutral_of_notMem (c := '}') (by decide)
  rw [← countInCode_trim hc, htrim, Markers.countInCode_singleton,
    Markers.codeFrom_eq_self hneutral]
  by_cases hbrace : c = '}'
  · simp [hbrace]
  · simp [hbrace, Ne.symm hbrace]

/-- Lone braces are dropped while there is a surplus. -/
theorem dropLoneBraces_fst (surplus : Nat) (lines : List Text) :
    (dropLoneBraces surplus lines).1 = surplus - lines.countP isLoneBrace := by
  fun_induction dropLoneBraces surplus lines with
  | case1 surplus => simp
  | case2 lines => simp
  | case3 surplus line lines hlone ih => simp [hlone, ih]
  | case4 surplus line lines hlone left kept hdrop ih =>
    rw [hdrop] at ih
    simpa [hlone] using ih

/-- If a surplus is left, no lone brace is. -/
theorem dropLoneBraces_snd (surplus : Nat) (lines : List Text)
    (h : (dropLoneBraces surplus lines).1 ≠ 0) :
    (dropLoneBraces surplus lines).2 = lines.filter (!isLoneBrace ·) := by
  fun_induction dropLoneBraces surplus lines with
  | case1 surplus => rfl
  | case2 lines => exact absurd rfl h
  | case3 surplus line lines hlone ih => simpa [hlone] using ih h
  | case4 surplus line lines hlone left kept hdrop ih =>
    rw [hdrop] at ih
    simpa [hlone] using ih h

theorem countInLines_dropLoneBraces (target : Language) (hc : isBlank c = false) (surplus : Nat)
    (lines : List Text) :
    countInLines target.profile c (dropLoneBraces surplus lines).2
        + (if c = '}' then surplus - (dropLoneBraces surplus lines).1 else 0)
      = countInLines target.profile c lines := by
  fun_induction dropLoneBraces surplus lines with
  | case1 surplus => simp
  | case2 lines => simp
  | case3 surplus line lines hlone ih =>
    have hleft := dropLoneBraces_fst surplus lines
    rw [countInLines_cons, countInCode_of_isLoneBrace hc hlone, ← ih]
    split <;> omega
  | case4 surplus line lines hlone left kept hdrop ih =>
    rw [hdrop] at ih
    rw [countInLines_cons, countInLines_cons, ← ih, Nat.add_assoc]

/-! ## Braces at the ends of lines -/

/-- Whether a character is passed over on the way from the end of a line. -/
def isBraceOrBlank (c : Char) : Bool :=
  c == '}' || isBlank c

/-- How many braces a line ends in, blanks between them aside. -/
def endBraces (line : Text) : Nat :=
  (line.reverse.takeWhile isBraceOrBlank).count '}'

theorem count_takeWhile_dropWhile_blank (t : Text) :
    ((t.dropWhile isBlank).takeWhile isBraceOrBlank).count '}'
      = (t.takeWhile isBraceOrBlank).count '}' := by
  induction t with
  | nil => rfl
  | cons d t ih =>
    by_cases hd : isBlank d
    · have hne : ¬d = '}' := by
        rintro rfl
        exact absurd hd (by decide)
      simp [hd, isBraceOrBlank, ih, hne]
    · simp [hd]

theorem isBlank_head?_dropWhile (t : Text) :
    ∀ d ∈ (t.dropWhile isBlank).head?, isBlank d = false := by
  intro d hd
  have h := List.head?_dropWhile_not isBlank t
  rw [Option.mem_def.1 hd] at h
  simpa using h

/-- Braces are dropped from the end of a line while there is a surplus, with the blanks between
them. -/
theorem dropEndBraces_spec (surplus : Nat) {t : Text} (ht : ∀ d ∈ t.head?, isBlank d = false) :
    (dropEndBraces surplus t).1 = surplus - (t.takeWhile isBraceOrBlank).count '}'
      ∧ ∃ dropped, t = dropped ++ (dropEndBraces surplus t).2 ∧ (∀ d ∈ dropped, isBraceOrBlank d)
        ∧ dropped.count '}' + (dropEndBraces surplus t).1 = surplus := by
  fun_induction dropEndBraces surplus t with
  | case1 surplus rest ih =>
    obtain ⟨hleft, dropped, hrest, hdropped, hcount⟩ := ih (isBlank_head?_dropWhile rest)
    have hblanks : ∀ d ∈ rest.takeWhile isBlank, isBlank d := fun d ↦ List.mem_takeWhile_imp
    have hnone : (rest.takeWhile isBlank).count '}' = 0 :=
      List.count_eq_zero.2 fun hmem ↦ absurd (hblanks _ hmem) (by decide)
    rw [count_takeWhile_dropWhile_blank] at hleft
    refine ⟨?_, '}' :: (rest.takeWhile isBlank ++ dropped), ?_, ?_, ?_⟩
    · rw [hleft, List.takeWhile_cons_of_pos (by decide), List.count_cons_self]
      omega
    · rw [List.cons_append, List.append_assoc, ← hrest, List.takeWhile_append_dropWhile]
    · intro d hd
      rcases List.mem_cons.1 hd with rfl | hd
      · decide
      · rcases List.mem_append.1 hd with hd | hd
        · exact Bool.or_eq_true_iff.2 (.inr (hblanks d hd))
        · exact hdropped d hd
    · rw [List.count_cons_self, List.count_append, hnone]
      omega
  | case2 surplus rest hstop =>
    refine ⟨?_, [], rfl, by simp, by simp⟩
    cases surplus with
    | zero => simp
    | succ surplus =>
      cases rest with
      | nil => simp
      | cons d rest =>
        have hbrace : d ≠ '}' := fun h ↦ hstop surplus rest rfl (by rw [h])
        have hblank : isBlank d = false := ht d rfl
        simp [isBraceOrBlank, hbrace, hblank]

theorem reverse_trimEnd (line : Text) :
    (Text.trimEnd line).reverse = line.reverse.dropWhile isBlank := by
  rw [Text.trimEnd, Text.dropEndWhile, List.reverse_reverse]

theorem endBraces_eq_zero (h : Text.endsWith (Text.trimEnd line) ['}'] = false) :
    endBraces line = 0 := by
  rw [endBraces, ← count_takeWhile_dropWhile_blank]
  rw [Text.endsWith, List.isSuffixOf, reverse_trimEnd] at h
  have hhead := isBlank_head?_dropWhile line.reverse
  cases hreverse : line.reverse.dropWhile isBlank with
  | nil => simp
  | cons d rest =>
    rw [hreverse] at h hhead
    have hbrace : d ≠ '}' := by
      rintro rfl
      simp [List.isPrefixOf] at h
    have hblank : isBlank d = false := hhead d rfl
    simp [isBraceOrBlank, hbrace, hblank]

/-- What a line loses at its end, and what is left of the surplus. -/
theorem trimBraces_spec (surplus : Nat) (line : Text) :
    (trimBraces surplus line).1 = surplus - endBraces line
      ∧ ∃ dropped, line = (trimBraces surplus line).2 ++ dropped
        ∧ (∀ d ∈ dropped, isBraceOrBlank d)
        ∧ dropped.count '}' + (trimBraces surplus line).1 = surplus := by
  rw [trimBraces]
  split
  · rename_i hkeep
    refine ⟨?_, [], by simp, by simp, by simp⟩
    rcases Bool.or_eq_true_iff.1 hkeep with hzero | hend
    · have hsurplus : surplus = 0 := by simpa using hzero
      simp [hsurplus]
    · simp [endBraces_eq_zero (by simpa using hend)]
  · obtain ⟨hleft, dropped, hstem, hdropped, hcount⟩ :=
      dropEndBraces_spec surplus (isBlank_head?_dropWhile line.reverse)
    rw [reverse_trimEnd]
    have hline : line = (dropEndBraces surplus (line.reverse.dropWhile isBlank)).2.reverse
        ++ (dropped.reverse ++ Text.gap line) := by
      calc
        line = Text.trimEnd line ++ Text.gap line := (Text.trimEnd_append_gap line).symm
        _ = (dropped ++ (dropEndBraces surplus (line.reverse.dropWhile isBlank)).2).reverse
              ++ Text.gap line := by
          rw [← hstem, ← reverse_trimEnd, List.reverse_reverse]
        _ = _ := by rw [List.reverse_append, List.append_assoc]
    have hgap : (Text.gap line).count '}' = 0 :=
      List.count_eq_zero.2 fun hmem ↦ absurd (Text.isBlank_of_mem_gap hmem) (by decide)
    refine ⟨hleft.trans ?_, dropped.reverse ++ Text.gap line, hline, ?_, ?_⟩
    · rw [count_takeWhile_dropWhile_blank, endBraces]
    · intro d hd
      rcases List.mem_append.1 hd with hd | hd
      · exact hdropped d (List.mem_reverse.1 hd)
      · exact Bool.or_eq_true_iff.2 (.inr (Text.isBlank_of_mem_gap hd))
    · rw [List.count_append, List.count_reverse, hgap]
      exact hcount

/-- The count of a line falls by the braces that it loses, if it ends in code. -/
theorem countInCode_trimBraces (target : Language) (hc : isBlank c = false) (surplus : Nat)
    (line : Text) :
    target.profile.markers.countInCode [c] line
      = target.profile.markers.countInCode [c] (trimBraces surplus line).2
        + if c = '}' ∧ target.profile.markers.endsInCode none line
          then surplus - (trimBraces surplus line).1 else 0 := by
  obtain ⟨-, dropped, hline, hdropped, hcount⟩ := trimBraces_spec surplus line
  have hneutral : ∀ d ∈ dropped, target.profile.markers.isNeutral d :=
    fun d hd ↦ target.isNeutral_of_eq_or_isBlank (by decide) (hdropped d hd)
  have hend := Markers.endsInCode_append_neutral (trimBraces surplus line).2 hneutral
  have hsum := Markers.countInCode_append_neutral (c := c) (trimBraces surplus line).2 hneutral
  rw [← hline] at hend hsum
  rw [hsum, ← hend]
  by_cases hbrace : c = '}'
  · have hlost : surplus - (trimBraces surplus line).1 = dropped.count '}' := by omega
    simp [hbrace, hlost]
  · have hnone : dropped.count c = 0 := by
      refine List.count_eq_zero.2 fun hmem ↦ absurd (hdropped c hmem) ?_
      simp [isBraceOrBlank, hbrace, hc]
    simp [hbrace, hnone]

/-- How many braces are taken off the ends of the lines, which are given from the bottom, before
one is met that does not stand in code. -/
def reachable (target : Profile) : List Text → Nat
  | [] => 0
  | line :: lines =>
    if endBraces line = 0 then reachable target lines
    else if target.markers.endsInCode none line then endBraces line + reachable target lines
    else 0

theorem countInLines_trimLineEnds_of_ne (hc : isBlank c = false) (hbrace : c ≠ '}')
    (surplus : Nat) (lines : List Text) :
    countInLines target.profile c (trimLineEnds surplus lines)
      = countInLines target.profile c lines := by
  induction lines generalizing surplus with
  | nil => rfl
  | cons line lines ih =>
    have hline := countInCode_trimBraces target hc surplus line
    rw [trimLineEnds, countInLines_cons, countInLines_cons, ih, hline]
    simp [hbrace]

/-- The count falls by the whole surplus exactly if so many braces are reached in code, and never
by more. -/
theorem countInLines_trimLineEnds (target : Language) (surplus : Nat) (lines : List Text) :
    countInLines target.profile '}' lines
        ≤ countInLines target.profile '}' (trimLineEnds surplus lines) + surplus
      ∧ (countInLines target.profile '}' (trimLineEnds surplus lines) + surplus
          = countInLines target.profile '}' lines ↔ surplus ≤ reachable target.profile lines) := by
  induction lines generalizing surplus with
  | nil => simp [trimLineEnds, reachable]
  | cons line lines ih =>
    obtain ⟨hleft, -⟩ := trimBraces_spec surplus line
    have hline := countInCode_trimBraces target (c := '}') (by decide) surplus line
    obtain ⟨hle, hiff⟩ := ih (trimBraces surplus line).1
    rw [trimLineEnds, countInLines_cons, countInLines_cons, hline, reachable]
    -- What the line loses beyond its code stays missing below, so equality fails there.
    by_cases hend : target.profile.markers.endsInCode none line
    · rw [if_pos ⟨rfl, hend⟩, if_pos hend]
      split <;> omega
    · rw [if_neg fun h ↦ hend h.2, if_neg hend]
      split <;> omega

/-! ## Balance -/

theorem countInLines_replicate_brace (hc : isBlank c = false) (n : Nat) :
    countInLines target.profile c (List.replicate n ['}']) = if c = '}' then n else 0 := by
  induction n with
  | zero => simp
  | succ n ih =>
    rw [List.replicate_succ, countInLines_cons, ih,
      countInCode_of_isLoneBrace hc (show isLoneBrace ['}'] by decide)]
    split <;> omega

/-- Taking a surplus away touches no opening brace, and it succeeds exactly if the surplus is no
greater than the lone braces and the braces that are reached in code. -/
theorem countInLines_dropSurplus (target : Language) (surplus : Nat) (lines : List Text) :
    countInLines target.profile '{' (dropSurplus surplus lines)
        = countInLines target.profile '{' lines
      ∧ countInLines target.profile '}' lines
        ≤ countInLines target.profile '}' (dropSurplus surplus lines) + surplus
      ∧ (countInLines target.profile '}' (dropSurplus surplus lines) + surplus
          = countInLines target.profile '}' lines
        ↔ surplus ≤ lines.countP isLoneBrace
          + reachable target.profile (lines.reverse.filter (!isLoneBrace ·))) := by
  have hleft := dropLoneBraces_fst surplus lines.reverse
  have hkept := dropLoneBraces_snd surplus lines.reverse
  have hopens := countInLines_dropLoneBraces target (c := '{') (by decide) surplus lines.reverse
  have hcloses := countInLines_dropLoneBraces target (c := '}') (by decide) surplus lines.reverse
  rw [List.countP_reverse] at hleft
  rw [countInLines_reverse] at hopens hcloses
  rw [dropSurplus]
  generalize dropLoneBraces surplus lines.reverse = dropped at *
  obtain ⟨left, kept⟩ := dropped
  obtain ⟨hle, hiff⟩ := countInLines_trimLineEnds target left kept
  simp only [countInLines_reverse,
    countInLines_trimLineEnds_of_ne (c := '{') (by decide) (by decide)]
  simp only [reduceIte, Nat.add_zero, show ('{' : Char) ≠ '}' by decide] at hopens hcloses
  dsimp only at hkept hleft
  refine ⟨hopens, by omega, ?_⟩
  by_cases hzero : left = 0
  · omega
  · rw [← hkept hzero]
    omega

/-- Balancing changes no opening brace and leaves no closing one missing.  A surplus of closing
braces is gone exactly if it is no greater than the lone braces and the braces that are reached in
code. -/
theorem balanceBraces_counts (target : Language) (lines : List Text) :
    countInLines target.profile '{' (balanceBraces target.profile lines)
        = countInLines target.profile '{' lines
      ∧ countInLines target.profile '{' (balanceBraces target.profile lines)
        ≤ countInLines target.profile '}' (balanceBraces target.profile lines)
      ∧ (countInLines target.profile '{' (balanceBraces target.profile lines)
          = countInLines target.profile '}' (balanceBraces target.profile lines)
        ↔ countInLines target.profile '}' lines
          ≤ countInLines target.profile '{' lines + lines.countP isLoneBrace
            + reachable target.profile (lines.reverse.filter (!isLoneBrace ·))) := by
  rw [balanceBraces]
  split
  · rename_i hmissing
    rw [countInLines_append, countInLines_append, countInLines_replicate_brace (by decide),
      countInLines_replicate_brace (by decide), if_neg (by decide), if_pos rfl]
    omega
  · obtain ⟨hopens, hle, hiff⟩ := countInLines_dropSurplus target
      (countInLines target.profile '}' lines - countInLines target.profile '{' lines) lines
    rw [hopens]
    omega

end Recast.Layout
