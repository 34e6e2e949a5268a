import Recast.Proofs.Layout.Finish
import Recast.Proofs.Layout.Forest
import Recast.Proofs.Pattern.Lazy
import Recast.Proofs.Pattern.Search
import Recast.Proofs.Text.Comment

/-!
# Finishing twice

A finished program whose braces could be balanced is a fixed point of each pass.  Its braces are
balanced, so none is added or taken away.  Its lines stand at the depth of their nesting, which is
read off the trimmed lines, so they stay where they are.  And it has its top-level declaration.
-/

namespace Recast.Layout

variable {target : Language} {lines others : List Text}

/-! ## Levels -/

theorem trim_indentAt_append (depth : Nat) (line : Text) :
    Text.trim (target.profile.indentAt depth ++ Text.trim line) = Text.trim line := by
  rw [Text.trim_append_of_blank fun _ hc ↦ isBlank_of_mem_indentAt hc, Text.trim_trim]

/-- Indenting moves lines and changes nothing else. -/
theorem map_trim_levelFrom (depth : Nat) (lines : List Text) :
    (levelFrom target.profile depth lines).map Text.trim = lines.map Text.trim := by
  induction lines generalizing depth with
  | nil => rfl
  | cons line lines ih =>
    rw [levelFrom]
    dsimp only
    split
    · rename_i hvoid
      rw [List.map_cons, List.map_cons, ih, List.isEmpty_iff.1 hvoid]
      rfl
    · split <;> rw [List.map_cons, List.map_cons, ih, trim_indentAt_append]

/-- The levels are read off the trimmed lines. -/
theorem levelFrom_congr (depth : Nat) (h : lines.map Text.trim = others.map Text.trim) :
    levelFrom target.profile depth lines = levelFrom target.profile depth others := by
  induction lines generalizing depth others with
  | nil =>
    rw [List.map_nil, eq_comm, List.map_eq_nil_iff] at h
    rw [h]
  | cons line lines ih =>
    cases others with
    | nil => exact absurd h (by simp)
    | cons other others =>
      obtain ⟨hline, hlines⟩ := List.cons.inj h
      have hcode : target.profile.codeOf line = target.profile.codeOf other := by
        rw [← target.codeOf_trim, hline, target.codeOf_trim]
      rw [levelFrom, levelFrom, hline, hcode]
      simp only [ih _ hlines]

theorem levelFrom_levelFrom (depth : Nat) (lines : List Text) :
    levelFrom target.profile depth (levelFrom target.profile depth lines)
      = levelFrom target.profile depth lines :=
  levelFrom_congr depth (map_trim_levelFrom depth lines)

theorem eq_nil_of_mem_levelFrom {depth : Nat} {line : Text}
    (h : line ∈ levelFrom target.profile depth lines) (hvoid : Text.isVoid line) : line = [] := by
  induction lines generalizing depth with
  | nil => exact absurd h List.not_mem_nil
  | cons other lines ih =>
    rw [levelFrom] at h
    dsimp only at h
    split at h
    · exact (List.mem_cons.1 h).elim id ih
    · rename_i hempty
      have hink (depth : Nat) : line ≠ target.profile.indentAt depth ++ Text.trim other := by
        rintro rfl
        rw [← Text.trim_eq_nil_iff, trim_indentAt_append] at hvoid
        exact hempty (List.isEmpty_iff.2 hvoid)
      split at h
      · exact (List.mem_cons.1 h).elim (fun heq ↦ absurd heq (hink _)) ih
      · exact (List.mem_cons.1 h).elim (fun heq ↦ absurd heq (hink _)) ih

/-- For a target with closers, the levels are read off the trimmed lines: indenting keeps those,
empties the blank lines, and makes no difference the second time. -/
theorem relevel_eq_of_map_trim_eq (hstyle : target.profile.blockStyle ≠ .indent)
    (h : lines.map Text.trim = others.map Text.trim) :
    let leveled := relevel target.profile lines
    leveled = relevel target.profile others ∧ leveled.length = lines.length
      ∧ leveled.map Text.trim = lines.map Text.trim
      ∧ (∀ line ∈ leveled, Text.isVoid line → line = [])
      ∧ relevel target.profile leveled = leveled := by
  have hlevel (lines : List Text) :
      relevel target.profile lines = levelFrom target.profile 0 lines := if_neg hstyle
  have htrim : (levelFrom target.profile 0 lines).map Text.trim = lines.map Text.trim :=
    map_trim_levelFrom 0 lines
  simp only [hlevel]
  refine ⟨levelFrom_congr 0 h, by simpa using congrArg List.length htrim, htrim, ?_,
    levelFrom_levelFrom 0 lines⟩
  exact fun line hline hvoid ↦ eq_nil_of_mem_levelFrom hline hvoid

/-- Blanks at the end of an open string, behind a backslash and around a comment make no
difference. -/
theorem relevel_eq_of_map_trim_eq_string :
    let profile := Language.javascript.profile
    let lines : List Text := ["  if (a) \x7b ", "x = 'b\\ ", " \t", "\x7d // c"]
    let others : List Text := ["if (a) \x7b", "\t x = 'b\\", "", "    \x7d // c  "]
    profile.blockStyle ≠ .indent ∧ lines.map Text.trim = others.map Text.trim
      ∧ relevel profile lines = [("if (a) \x7b" : Text), "  x = 'b\\", "", "\x7d // c"]
      ∧ relevel profile lines = relevel profile others := by
  intro profile lines others
  have hstyle : profile.blockStyle ≠ .indent := by decide
  have htrim : lines.map Text.trim = others.map Text.trim := by decide +kernel
  exact ⟨hstyle, htrim, by decide +kernel,
    (@relevel_eq_of_map_trim_eq .javascript _ _ hstyle htrim).1⟩

/-! ## Balance -/

theorem trimLineEnds_zero (lines : List Text) : trimLineEnds 0 lines = lines := by
  induction lines with
  | nil => rfl
  | cons line lines ih =>
    have hline : trimBraces 0 line = (0, line) := rfl
    rw [trimLineEnds, hline]
    exact congrArg (line :: ·) ih

/-- Where no closing brace is too many, the missing ones are put at the end. -/
theorem balanceBraces_eq_append {target : Profile}
    (h : countInLines target '}' lines ≤ countInLines target '{' lines) :
    balanceBraces target lines = lines
      ++ List.replicate (countInLines target '{' lines - countInLines target '}' lines) ['}'] := by
  rw [balanceBraces]
  split
  · rfl
  · have hnone : dropLoneBraces 0 lines.reverse = (0, lines.reverse) := by
      cases lines.reverse <;> rfl
    rw [Nat.sub_eq_zero_of_le h, Nat.sub_eq_zero_of_le (by omega), dropSurplus, hnone,
      List.replicate_zero, List.append_nil]
    exact (congrArg List.reverse (trimLineEnds_zero _)).trans lines.reverse_reverse

theorem balanceBraces_eq_self {target : Profile}
    (h : countInLines target '}' lines = countInLines target '{' lines) :
    balanceBraces target lines = lines := by
  rw [balanceBraces_eq_append h.le, h, Nat.sub_self, List.replicate_zero, List.append_nil]

/-! ## The top-level declaration -/

theorem readAt_lineStart_blanks {t : Text} (ht : ∀ c ∈ t.head?, isBlank c = false) :
    (Pattern.lineStart ++ Pattern.blanks).readAt ⟨none, t, []⟩ = some ⟨none, t, []⟩ :=
  Pattern.readAt_append rfl (Pattern.readAt_most_char (u := []) (by simp) ht)

/-- A program that starts with the declaration has it. -/
theorem occurs_declaration {topLevel : TopLevel} (h : topLevel ∈ target.profile.topLevel)
    (rest : Text) : topLevel.present.occurs (topLevel.declaration ++ '\n' :: rest) := by
  rw [Pattern.occurs_iff]
  refine ⟨[], _, rfl, ?_⟩
  cases target with
  | go =>
    obtain rfl := Option.mem_some.1 h
    have hkeyword := Pattern.readAt_append (readAt_lineStart_blanks (by simp; decide))
      (Pattern.readAt_text none "package" (" main" ++ '\n' :: rest) [])
    have hblank : Pattern.blanks1.readAt ⟨some 'e', " " ++ ("main" ++ '\n' :: rest), []⟩
        = some ⟨some ' ', "main" ++ '\n' :: rest, []⟩ :=
      Pattern.readAt_most1_char (List.all_eq_true.1 (by decide)) (by decide) (by simp; decide)
    have hname : Pattern.word.readAt ⟨some ' ', "main" ++ '\n' :: rest, []⟩
        = some ⟨some 'n', '\n' :: rest, []⟩ :=
      Pattern.readAt_most1_char (List.all_eq_true.1 (by decide)) (by decide) (by simp; decide)
    exact Option.isSome_of_eq_some
      (Pattern.readAt_append (Pattern.readAt_append hkeyword hblank) hname)
  | php =>
    obtain rfl := Option.mem_some.1 h
    have hmark := Pattern.readAt_append (readAt_lineStart_blanks (by simp; decide))
      (Pattern.readAt_text none "<?php" ('\n' :: rest) [])
    exact Option.isSome_of_eq_some hmark
  | _ => exact absurd h (by simp [Language.profile, curlyProfile])

theorem declareTopLevel_declareTopLevel (lines : List Text) :
    declareTopLevel target.profile (declareTopLevel target.profile lines)
      = declareTopLevel target.profile lines := by
  cases htop : target.profile.topLevel with
  | none => simp only [declareTopLevel, htop]
  | some topLevel =>
    by_cases hdeclared : lines.all Text.isVoid || topLevel.present.occurs (Text.unlines lines)
    · simp only [declareTopLevel, htop, if_pos hdeclared]
    · have hnow : topLevel.present.occurs (Text.unlines (topLevel.declaration :: [] :: lines)) := by
        rw [Text.unlines_cons_cons]
        exact occurs_declaration htop _
      simp only [declareTopLevel, htop, if_neg hdeclared, hnow, Bool.or_true, if_true]

/-- The declaration stands at the outermost level and opens nothing. -/
theorem levelFrom_declaration {topLevel : TopLevel} (h : topLevel ∈ target.profile.topLevel)
    (lines : List Text) :
    levelFrom target.profile 0 (topLevel.declaration :: [] :: lines)
      = topLevel.declaration :: [] :: levelFrom target.profile 0 lines := by
  have hplain : ∀ topLevel ∈ target.profile.topLevel,
      isPlain target.profile topLevel.declaration
        ∧ Text.trim topLevel.declaration = topLevel.declaration := by
    cases target <;> decide +kernel
  obtain ⟨hplain, htrim⟩ := hplain topLevel h
  rw [levelFrom_of_isPlain hplain, htrim]
  rfl

theorem levelFrom_declareTopLevel (h : levelFrom target.profile 0 lines = lines) :
    levelFrom target.profile 0 (declareTopLevel target.profile lines)
      = declareTopLevel target.profile lines := by
  rw [declareTopLevel]
  split
  · rename_i topLevel htop
    split
    · exact h
    · rw [levelFrom_declaration htop, h]
  · exact h

/-! ## Finished programs -/

/-- Where terminators are left on, a program is balanced, then indented, then declared. -/
theorem finishLines_eq_declareTopLevel (hbraces : target.profile.usesBraces)
    (hkeep : dropsTerminators target = false) (lines : List Text) :
    finishLines target.profile none false lines
      = declareTopLevel target.profile
          (levelFrom target.profile 0 (balanceBraces target.profile lines)) := by
  rw [finishLines_eq_cleanup hbraces, relevel, if_neg (blockStyle_ne_indent hbraces), cleanup,
    target.language_profile, hkeep]
  rfl

theorem declareTopLevel_ne_nil {target : Profile} (hne : lines ≠ []) :
    declareTopLevel target lines ≠ [] := by
  rw [declareTopLevel]
  split
  · split
    · exact hne
    · exact List.cons_ne_nil _ _
  · exact hne

theorem levelFrom_ne_nil (depth : Nat) (hne : lines ≠ []) :
    levelFrom target.profile depth lines ≠ [] := by
  intro h
  have htrim : (levelFrom target.profile depth lines).map Text.trim = lines.map Text.trim :=
    map_trim_levelFrom depth lines
  rw [h, List.map_nil, eq_comm, List.map_eq_nil_iff] at htrim
  exact hne htrim

theorem finishLines_ne_nil (hbraces : target.profile.usesBraces)
    (hkeep : dropsTerminators target = false) (hne : lines ≠ [])
    (h : countInLines target.profile '}' lines ≤ countInLines target.profile '{' lines) :
    finishLines target.profile none false lines ≠ [] := by
  rw [finishLines_eq_declareTopLevel hbraces hkeep, balanceBraces_eq_append h]
  exact declareTopLevel_ne_nil (levelFrom_ne_nil 0 (List.append_ne_nil_of_left_ne_nil hne _))

/-- Finished lines are a fixed point of each pass. -/
theorem finishLines_finishLines (hbraces : target.profile.usesBraces)
    (hkeep : dropsTerminators target = false)
    (h : countInLines target.profile '}' lines ≤ countInLines target.profile '{' lines) :
    finishLines target.profile none false (finishLines target.profile none false lines)
      = finishLines target.profile none false lines := by
  rw [finishLines_eq_declareTopLevel hbraces hkeep, finishLines_eq_declareTopLevel hbraces hkeep]
  set leveled := levelFrom target.profile 0 (balanceBraces target.profile lines) with hleveled
  have hcount {c : Char} (hbrace : c = '{' ∨ c = '}') :
      countInLines target.profile c (declareTopLevel target.profile leveled)
        = countInLines target.profile c (balanceBraces target.profile lines) := by
    rw [countInLines_eq_count_bracesOf hbrace, bracesOf_declareTopLevel, hleveled,
      bracesOf_levelFrom, countInLines_eq_count_bracesOf hbrace]
  have hbalanced : countInLines target.profile '}' (declareTopLevel target.profile leveled)
      = countInLines target.profile '{' (declareTopLevel target.profile leveled) := by
    rw [hcount (.inl rfl), hcount (.inr rfl)]
    exact ((balanceBraces_counts target lines).2.2.2 (by omega)).symm
  rw [balanceBraces_eq_self hbalanced, levelFrom_declareTopLevel (levelFrom_levelFrom 0 _),
    declareTopLevel_declareTopLevel]

/-- A program with no closing brace too many is finished once and for all. -/
theorem finish_finish (target : Language)
    (htarget : target ∈ [.javascript, .typescript, .java, .cpp, .rust, .csharp, .php])
    (code : Text)
    (h : countInLines target.profile '}' (Text.lines code)
      ≤ countInLines target.profile '{' (Text.lines code)) :
    finish target.profile none false (finish target.profile none false code)
      = finish target.profile none false code := by
  have hpasses : ∀ target ∈ ([.javascript, .typescript, .java, .cpp, .rust, .csharp, .php]
      : List Language), target.profile.usesBraces ∧ dropsTerminators target = false := by
    decide
  obtain ⟨hbraces, hkeep⟩ := hpasses target htarget
  have hlines : ∀ line ∈ finishLines target.profile none false (Text.lines code), '\n' ∉ line :=
    newline_notMem_of_mem_finishLines hbraces fun line hline ↦ Text.newline_notMem_of_mem_lines hline
  have hne := finishLines_ne_nil hbraces hkeep (Text.lines_ne_nil code) h
  rw [finish, finish, Text.lines_unlines hlines hne, finishLines_finishLines hbraces hkeep h]

/-- A brace in a string does not count, and the declaration is put in front of the program. -/
theorem finish_finish_string :
    let code : Text := "function f() \x7b\necho '\x7d';"
    finish Language.php.profile none false code
        = "<?php\n\nfunction f() \x7b\n    echo '\x7d';\n\x7d"
      ∧ finish Language.php.profile none false (finish Language.php.profile none false code)
        = finish Language.php.profile none false code :=
  ⟨by decide +kernel, finish_finish .php (by decide) _ (by decide +kernel)⟩

end Recast.Layout
