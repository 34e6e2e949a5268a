import Recast.Proofs.Layout.Refinish

/-!
# What balancing takes away

Balancing a program adds closing braces at its end, or takes surplus ones away.  What it takes away
are lines that are nothing but a brace, and braces at the ends of other lines, with the blanks
around them: never more of them than the surplus, whether they stand in code or not, and never so
many that a closing brace is missing.
-/

namespace Recast.Layout

/-- The second program is the first without some lines that are nothing but a closing brace, and
with braces and blanks cut off the ends of some lines. -/
inductive Cropped : List Text → List Text → Prop
  | nil : Cropped [] []
  | kept {line : Text} {lines cropped : List Text} (h : Cropped lines cropped) :
    Cropped (line :: lines) (line :: cropped)
  | cut {stem tail : Text} {lines cropped : List Text} (htail : ∀ c ∈ tail, isBraceOrBlank c)
    (hbrace : '}' ∈ tail) (h : Cropped lines cropped) :
    Cropped ((stem ++ tail) :: lines) (stem :: cropped)
  | dropped {line : Text} {lines cropped : List Text} (hlone : isLoneBrace line)
    (h : Cropped lines cropped) : Cropped (line :: lines) cropped

namespace Cropped

variable {lines cropped others rest : List Text}

theorem append (h : Cropped lines cropped) (hrest : Cropped others rest) :
    Cropped (lines ++ others) (cropped ++ rest) := by
  induction h with
  | nil => exact hrest
  | kept _ ih => exact .kept ih
  | cut htail hbrace _ ih => exact .cut htail hbrace ih
  | dropped hlone _ ih => exact .dropped hlone ih

theorem reverse (h : Cropped lines cropped) : Cropped lines.reverse cropped.reverse := by
  induction h with
  | nil => exact .nil
  | kept _ ih =>
    rw [List.reverse_cons, List.reverse_cons]
    exact ih.append (.kept .nil)
  | cut htail hbrace _ ih =>
    rw [List.reverse_cons, List.reverse_cons]
    exact ih.append (.cut htail hbrace .nil)
  | dropped hlone _ ih =>
    have hlast := ih.append (.dropped hlone .nil)
    rwa [List.append_nil, ← List.reverse_cons] at hlast

end Cropped

/-! ## Lone braces -/

section Lone

variable {line : Text} {lines cropped : List Text}

/-- Lines that were dropped before a program was cropped can be dropped while it is. -/
theorem cropped_of_dropLoneBraces (surplus : Nat)
    (h : Cropped (dropLoneBraces surplus lines).2 cropped) : Cropped lines cropped := by
  fun_induction dropLoneBraces surplus lines generalizing cropped with
  | case1 surplus => exact h
  | case2 lines => exact h
  | case3 surplus line lines hlone ih => exact .dropped hlone (ih h)
  | case4 surplus line lines hlone left kept hdrop ih =>
    rw [hdrop] at ih
    cases h with
    | kept h => exact .kept (ih h)
    | cut htail hbrace h => exact .cut htail hbrace (ih h)
    | dropped hbrace h => exact absurd hbrace hlone

theorem count_of_isLoneBrace (h : isLoneBrace line) : line.count '}' = 1 := by
  have htrim : Text.trim line = ['}'] := by simpa [isLoneBrace] using h
  have hblank {blanks : Text} (hblanks : ∀ c ∈ blanks, isBlank c) : blanks.count '}' = 0 :=
    List.count_eq_zero.2 fun hmem ↦ absurd (hblanks _ hmem) (by decide)
  have hgap := hblank fun c (hc : c ∈ Text.gap (Text.trimStart line)) ↦ Text.isBlank_of_mem_gap hc
  have hindent := hblank fun c (hc : c ∈ Text.indentation line) ↦ Text.isBlank_of_mem_indentation hc
  calc
    line.count '}'
      = (Text.indentation line
          ++ (Text.trim line ++ Text.gap (Text.trimStart line))).count '}' := by
        rw [Text.trim, Text.trimEnd_append_gap, Text.indentation_append_trimStart]
    _ = 1 := by simp [hindent, hgap, htrim]

/-- Each lone brace that is dropped is one brace of the surplus. -/
theorem count_dropLoneBraces (surplus : Nat) (lines : List Text) :
    (dropLoneBraces surplus lines).2.flatten.count '}' + surplus
      = lines.flatten.count '}' + (dropLoneBraces surplus lines).1 := by
  fun_induction dropLoneBraces surplus lines with
  | case1 surplus => rfl
  | case2 lines => rfl
  | case3 surplus line lines hlone ih =>
    rw [List.flatten_cons, List.count_append, count_of_isLoneBrace hlone]
    omega
  | case4 surplus line lines hlone left kept hdrop ih =>
    rw [hdrop] at ih
    simp only [List.flatten_cons, List.count_append] at ih ⊢
    omega

end Lone

/-! ## Ends of lines -/

theorem endBraces_ne_zero {line : Text} (h : Text.endsWith (Text.trimEnd line) ['}']) :
    endBraces line ≠ 0 := by
  rw [Text.endsWith_singleton, beq_iff_eq] at h
  obtain ⟨stem, hstem⟩ := List.getLast?_eq_some_iff.1 h
  have hreverse : line.reverse.dropWhile isBlank = '}' :: stem.reverse := by
    rw [← reverse_trimEnd, hstem, List.reverse_append]
    rfl
  rw [endBraces, ← count_takeWhile_dropWhile_blank, hreverse,
    List.takeWhile_cons_of_pos (by decide), List.count_cons_self]
  exact Nat.succ_ne_zero _

/-- A line stays as it is, or loses braces at its end. -/
theorem cropped_trimBraces (surplus : Nat) (line : Text) :
    Cropped [line] [(trimBraces surplus line).2] := by
  by_cases hkept : surplus = 0 || !Text.endsWith (Text.trimEnd line) ['}']
  · rw [trimBraces, if_pos hkept]
    exact .kept .nil
  · obtain ⟨hleft, tail, hline, htail, hcount⟩ := trimBraces_spec surplus line
    simp only [Bool.or_eq_true, decide_eq_true_eq, Bool.not_eq_true', not_or, Bool.not_eq_false]
      at hkept
    have hends := endBraces_ne_zero hkept.2
    have hbrace : '}' ∈ tail := List.count_pos_iff.1 (by omega)
    generalize (trimBraces surplus line).2 = stem at hline ⊢
    rw [hline]
    exact .cut htail hbrace .nil

theorem cropped_trimLineEnds (surplus : Nat) (lines : List Text) :
    Cropped lines (trimLineEnds surplus lines) := by
  induction lines generalizing surplus with
  | nil => exact .nil
  | cons line lines ih => exact (cropped_trimBraces surplus line).append (ih _)

theorem count_le_count_trimLineEnds (surplus : Nat) (lines : List Text) :
    lines.flatten.count '}' ≤ (trimLineEnds surplus lines).flatten.count '}' + surplus := by
  induction lines generalizing surplus with
  | nil => exact Nat.zero_le _
  | cons line lines ih =>
    obtain ⟨-, tail, hline, -, hcount⟩ := trimBraces_spec surplus line
    have hlost : line.count '}' = (trimBraces surplus line).2.count '}' + tail.count '}' := by
      rw [← List.count_append, ← hline]
    have hrest := ih (trimBraces surplus line).1
    rw [trimLineEnds]
    simp only [List.flatten_cons, List.count_append]
    omega

/-! ## Balance -/

theorem count_flatten_reverse (lines : List Text) (c : Char) :
    lines.reverse.flatten.count c = lines.flatten.count c := by
  rw [List.count_flatten, List.count_flatten, List.map_reverse, List.sum_reverse]

theorem cropped_dropSurplus (surplus : Nat) (lines : List Text) :
    Cropped lines (dropSurplus surplus lines) := by
  have hends := cropped_trimLineEnds (dropLoneBraces surplus lines.reverse).1
    (dropLoneBraces surplus lines.reverse).2
  have hcropped := (cropped_of_dropLoneBraces surplus hends).reverse
  rwa [List.reverse_reverse] at hcropped

/-- No more braces are taken away than the surplus, in code or not. -/
theorem count_le_count_dropSurplus (surplus : Nat) (lines : List Text) :
    lines.flatten.count '}' ≤ (dropSurplus surplus lines).flatten.count '}' + surplus := by
  have hlone := count_dropLoneBraces surplus lines.reverse
  have hends := count_le_count_trimLineEnds (dropLoneBraces surplus lines.reverse).1
    (dropLoneBraces surplus lines.reverse).2
  rw [count_flatten_reverse] at hlone
  rw [dropSurplus, count_flatten_reverse]
  omega

/-- A program with no closing brace too many is kept as it is, with the missing braces behind it.
From another one only lone braces and the ends of lines are taken, no more braces than there are
too many.  The opening braces stay, no closing brace is missing afterwards, and none is too many if
there were enough lone ones. -/
theorem balanceBraces_cropped (target : Language) (lines : List Text) :
    let opens := countInLines target.profile '{' lines
    let closes := countInLines target.profile '}' lines
    let balanced := balanceBraces target.profile lines
    (closes ≤ opens → balanced = lines ++ List.replicate (opens - closes) ['}'])
      ∧ (opens < closes → Cropped lines balanced
        ∧ lines.flatten.count '}' ≤ balanced.flatten.count '}' + (closes - opens)
        ∧ countInLines target.profile '{' balanced = opens
        ∧ opens ≤ countInLines target.profile '}' balanced
        ∧ (closes - opens ≤ lines.countP isLoneBrace →
          countInLines target.profile '}' balanced = opens)) := by
  intro opens closes balanced
  refine ⟨balanceBraces_eq_append, fun hsurplus ↦ ?_⟩
  have hbalanced : balanced = dropSurplus (closes - opens) lines :=
    if_neg (Nat.not_lt.2 hsurplus.le)
  obtain ⟨hopens, hle, hiff⟩ := countInLines_dropSurplus target (closes - opens) lines
  rw [hbalanced]
  refine ⟨cropped_dropSurplus _ _, count_le_count_dropSurplus _ _, hopens, by omega, ?_⟩
  intro hlone
  have hall := hiff.2 (by omega)
  omega

/-- A lone brace goes, then the braces at the end of a line; one in a string and one before a
comment stay. -/
theorem balanceBraces_cropped_line_end :
    let profile := Language.javascript.profile
    let lines : List Text :=
      ["f(); \x7d // \x7d", "if (x) \x7b", "  g(); \x7d \x7d", " \x7d ", "h('\x7d'); "]
    let balanced : List Text := ["f(); \x7d // \x7d", "if (x) \x7b", "  g();", "h('\x7d'); "]
    countInLines profile '{' lines < countInLines profile '}' lines
      ∧ balanceBraces profile lines = balanced ∧ Cropped lines balanced
      ∧ countInLines profile '}' balanced = countInLines profile '{' balanced := by
  intro profile lines balanced
  have hsurplus : countInLines profile '{' lines < countInLines profile '}' lines := by
    decide +kernel
  have hbalanced : balanceBraces profile lines = balanced := by decide +kernel
  have hcropped := ((balanceBraces_cropped .javascript lines).2 hsurplus).1
  exact ⟨hsurplus, hbalanced, hbalanced ▸ hcropped, by decide +kernel⟩

end Recast.Layout
