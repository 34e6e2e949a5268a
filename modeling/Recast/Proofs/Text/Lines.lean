import Recast.Text.LineEnds

/-!
# Cutting and joining lines

Joining lines and cutting the result again gives the lines back, as long as none of them holds a
line feed and there is at least one.  A program whose line ends are of any kind has the same lines
whether it is cut at its line ends directly or cut at line feeds after its line ends have been
unified, and the unification may be made in one pass or in two.
-/

namespace Recast.Text

/-! ## Pieces between separators -/

/-- Cutting from the right agrees with the library's cutting from the left. -/
theorem splitOn_eq_splitOn (separator : Char) (t : Text) :
    splitOn separator t = List.splitOn separator t := by
  induction t with
  | nil => rfl
  | cons c rest ih =>
    have hstep : splitOn separator (c :: rest) = splitStep separator c (splitOn separator rest) :=
      rfl
    rw [hstep, ih, List.splitOn_cons_eq_if_modifyHead]
    cases hrest : List.splitOn separator rest with
    | nil => exact absurd hrest (List.splitOn_ne_nil separator rest)
    | cons piece pieces => by_cases hc : c = separator <;> simp [splitStep, hc]

theorem splitOn_ne_nil (separator : Char) (t : Text) : splitOn separator t ≠ [] := by
  rw [splitOn_eq_splitOn]
  exact List.splitOn_ne_nil separator t

theorem splitOn_cons_self (separator : Char) (t : Text) :
    splitOn separator (separator :: t) = [] :: splitOn separator t := by
  rw [splitOn_eq_splitOn, splitOn_eq_splitOn, List.splitOn_cons_eq_if_modifyHead, if_pos (by simp)]

/-- A character that is no separator joins the first piece. -/
theorem splitOn_cons_of_ne {separator c : Char} (hc : c ≠ separator) (t : Text) :
    splitOn separator (c :: t) = (splitOn separator t).modifyHead (c :: ·) := by
  rw [splitOn_eq_splitOn, splitOn_eq_splitOn, List.splitOn_cons_eq_if_modifyHead,
    if_neg (by simpa using hc)]

/-- What stands before the first separator is the first piece. -/
theorem splitOn_append_cons {separator : Char} {piece : Text} (hpiece : separator ∉ piece)
    (t : Text) : splitOn separator (piece ++ separator :: t) = piece :: splitOn separator t := by
  induction piece with
  | nil => exact splitOn_cons_self separator t
  | cons c piece ih =>
    obtain ⟨hc, hpiece⟩ := List.ne_and_not_mem_of_not_mem_cons hpiece
    rw [List.cons_append, splitOn_cons_of_ne (Ne.symm hc), ih hpiece]
    rfl

theorem splitOn_joinWith {separator : Char} {pieces : List Text}
    (hpieces : ∀ piece ∈ pieces, separator ∉ piece) (hne : pieces ≠ []) :
    splitOn separator (joinWith [separator] pieces) = pieces := by
  rw [splitOn_eq_splitOn]
  exact List.splitOn_intercalate separator hpieces hne

theorem joinWith_splitOn (separator : Char) (t : Text) :
    joinWith [separator] (splitOn separator t) = t := by
  rw [splitOn_eq_splitOn]
  exact List.intercalate_splitOn separator

/-- No piece holds the separator. -/
theorem separator_notMem_of_mem_splitOn {separator : Char} {piece t : Text}
    (h : piece ∈ splitOn separator t) : separator ∉ piece := by
  induction t generalizing piece with
  | nil => simp_all [splitOn]
  | cons c rest ih =>
    by_cases hc : c = separator
    · subst hc
      rw [splitOn_cons_self, List.mem_cons] at h
      rcases h with rfl | h
      · exact List.not_mem_nil
      · exact ih h
    · rw [splitOn_cons_of_ne hc] at h
      cases hrest : splitOn separator rest with
      | nil => exact absurd hrest (splitOn_ne_nil separator rest)
      | cons first others =>
        rw [hrest, List.modifyHead_cons, List.mem_cons] at h
        rcases h with rfl | h
        · have hfirst : separator ∉ first := ih (by simp [hrest])
          simpa [hfirst] using Ne.symm hc
        · exact ih (by simp [hrest, h])

theorem infix_of_mem_splitOn {separator : Char} {piece t : Text} (h : piece ∈ splitOn separator t) :
    piece <:+: t := by
  rw [← joinWith_splitOn separator t]
  generalize splitOn separator t = pieces at h
  induction pieces with
  | nil => exact absurd h List.not_mem_nil
  | cons first others ih =>
    cases others with
    | nil => simp_all [joinWith]
    | cons second others =>
      rw [joinWith, List.intercalate_cons_cons, List.append_assoc]
      rcases List.mem_cons.1 h with rfl | h
      · exact (List.prefix_append _ _).isInfix
      · refine (ih h).trans (List.IsSuffix.isInfix ?_)
        exact (List.suffix_append _ _).trans (List.suffix_append _ _)

/-- Every character of a piece stands in the text. -/
theorem mem_of_mem_splitOn {separator c : Char} {piece t : Text} (h : piece ∈ splitOn separator t)
    (hc : c ∈ piece) : c ∈ t :=
  (infix_of_mem_splitOn h).subset hc

/-! ## Lines -/

theorem lines_unlines {ls : List Text} (hls : ∀ line ∈ ls, '\n' ∉ line) (hne : ls ≠ []) :
    lines (unlines ls) = ls :=
  splitOn_joinWith hls hne

theorem unlines_lines (t : Text) : unlines (lines t) = t :=
  joinWith_splitOn '\n' t

theorem unlines_cons_cons (first second : Text) (ls : List Text) :
    unlines (first :: second :: ls) = first ++ '\n' :: unlines (second :: ls) := by
  simp [unlines, joinWith, List.intercalate_cons_cons]

theorem lines_ne_nil (t : Text) : lines t ≠ [] :=
  splitOn_ne_nil '\n' t

theorem lines_newline_cons (t : Text) : lines ('\n' :: t) = [] :: lines t :=
  splitOn_cons_self '\n' t

theorem lines_cons_of_ne {c : Char} (hc : c ≠ '\n') (t : Text) :
    lines (c :: t) = (lines t).modifyHead (c :: ·) :=
  splitOn_cons_of_ne hc t

theorem newline_notMem_of_mem_lines {line t : Text} (h : line ∈ lines t) : '\n' ∉ line :=
  separator_notMem_of_mem_splitOn h

/-! ## Line ends -/

/-- What has been read of the piece so far stands in front of the first line of the rest. -/
theorem piecesFrom_eq_modifyHead (piece t : Text) :
    piecesFrom piece t = (lines (unifyLineEnds t)).modifyHead (piece.reverse ++ ·) := by
  fun_induction piecesFrom piece t with
  | case1 piece => simp [unifyLineEnds, lines, splitOn]
  | case2 piece rest ih =>
    rw [ih, unifyLineEnds, lines_newline_cons, List.modifyHead_cons]
    cases lines (unifyLineEnds rest) <;> simp
  | case3 piece c rest hpair hc ih =>
    have hend : (if c == '\r' then '\n' else c) = '\n' := by
      by_cases hreturn : c = '\r'
      · simp [hreturn]
      · simpa [hreturn] using hc
    have hunify : unifyLineEnds (c :: rest) = '\n' :: unifyLineEnds rest := by
      rw [unifyLineEnds]
      · rw [hend]
      · simpa using hpair
    rw [ih, hunify, lines_newline_cons, List.modifyHead_cons]
    cases lines (unifyLineEnds rest) <;> simp
  | case4 piece c rest hpair hc ih =>
    have hreturn : c ≠ '\r' := by rintro rfl; simp at hc
    have hnewline : c ≠ '\n' := by rintro rfl; simp at hc
    have hunify : unifyLineEnds (c :: rest) = c :: unifyLineEnds rest := by
      rw [unifyLineEnds]
      · simp [hreturn]
      · simpa using hpair
    rw [ih, hunify, lines_cons_of_ne hnewline]
    cases lines (unifyLineEnds rest) <;> simp

/-- Cutting at line ends of any kind is cutting at line feeds after the ends have been unified. -/
theorem splitLines_eq_lines (t : Text) : splitLines t = lines (unifyLineEnds t) := by
  rw [splitLines, piecesFrom_eq_modifyHead]
  cases lines (unifyLineEnds t) <;> rfl

/-- Replacing one character goes through the text character by character. -/
theorem substitute_singleton_cons (old new c : Char) (t : Text) :
    substitute [old] [new] (c :: t) = (if c = old then new else c) :: substitute [old] [new] t := by
  by_cases hc : c = old
  · subst hc
    simp [substitute, replaceFrom]
  · have hmatch : [old].isPrefixOf (c :: t) = false := by
      simpa [List.isPrefixOf] using Ne.symm hc
    rw [substitute, replaceFrom, hmatch, if_neg hc]
    rfl

/-- The two-character line end is not overlooked by a pass that replaces it before single carriage
returns. -/
theorem unifyLineEnds_eq_substitute (t : Text) :
    unifyLineEnds t = substitute ['\r'] ['\n'] (substitute ['\r', '\n'] ['\n'] t) := by
  fun_induction unifyLineEnds t with
  | case1 => rfl
  | case2 rest ih =>
    have hpair : substitute ['\r', '\n'] ['\n'] ('\r' :: '\n' :: rest)
        = '\n' :: substitute ['\r', '\n'] ['\n'] rest := rfl
    rw [hpair, substitute_singleton_cons, if_neg (by decide), ih]
  | case3 c rest hpair ih =>
    have hmatch : ['\r', '\n'].isPrefixOf (c :: rest) = false := by
      cases rest with
      | nil => simp [List.isPrefixOf]
      | cons d rest =>
        rw [Bool.eq_false_iff]
        intro h
        simp only [List.isPrefixOf_cons_cons, List.isPrefixOf_nil_left, Bool.and_true,
          Bool.and_eq_true, beq_iff_eq] at h
        exact hpair rest h.1.symm (by rw [← h.2])
    have hkeep : substitute ['\r', '\n'] ['\n'] (c :: rest)
        = c :: substitute ['\r', '\n'] ['\n'] rest := by
      rw [substitute, replaceFrom, hmatch]
      rfl
    rw [hkeep, substitute_singleton_cons, ih]
    simp

end Recast.Text
