import Recast.Proofs.Normalization.Settled
import Recast.Proofs.Normalization.Tidy

/-!
# Tidying moves blanks only

What tidying takes out of a line and puts into it is spacing, and only in code: strings and the
comment stay where they are, and without spacing the line reads as before.  A tidied program has
line feeds for line ends, as many as the program had line ends of any kind, and tidying it once more
changes nothing.
-/

namespace Recast

open Text

/-! ## What tidying leaves alone -/

/-- The text without spaces and tabs. -/
def Text.unspaced (t : Text) : Text :=
  t.filter (!isSpacing ·)

theorem Text.unspaced_append (t u : Text) : unspaced (t ++ u) = unspaced t ++ unspaced u :=
  List.filter_append t u

theorem Text.unspaced_eq_nil {t : Text} (h : ∀ c ∈ t, isSpacing c) : unspaced t = [] :=
  List.filter_eq_nil_iff.2 fun c hc ↦ by simp [h c hc]

/-- The strings and the comment of a line, in order. -/
def Markers.verbatim (marks : Markers) (line : Text) : List Segment :=
  (marks.segments line).filter (·.kind ≠ .code)

namespace Normalization

variable {profile? : Option Profile} {line t u : Text}

theorem SpacingSwap.unspaced_eq {old new : Text} (h : SpacingSwap old new) :
    unspaced new = unspaced old := by
  cases h with
  | comma _ hs | colon _ hs | wideBrace _ hs =>
    rw [unspaced_append, unspaced_eq_nil hs]
    rfl
  | @wideComma s hs =>
    have hcons := unspaced_append [','] s
    rw [unspaced_eq_nil hs] at hcons
    exact hcons.symm

theorem unspaced_eq_of_edits (h : Edits SpacingSwap t u) : unspaced u = unspaced t := by
  induction h with
  | nil => rfl
  | @keep c t u _ ih =>
    rw [← List.singleton_append, unspaced_append, ih, ← unspaced_append, List.singleton_append]
  | swap hswap _ ih => rw [unspaced_append, unspaced_append, hswap.unspaced_eq, ih]
  | trans _ _ ih ih' => rw [ih', ih]

theorem unspaced_tidyLine (profile? : Option Profile) (line : Text) :
    unspaced (tidyLine profile? line) = unspaced (trimEnd line) :=
  unspaced_eq_of_edits (edits_tidyLine profile? line)

theorem filter_tidied (segments : List Segment) :
    (tidied segments).filter (·.kind ≠ .code) = segments.filter (·.kind ≠ .code) := by
  induction segments with
  | nil => rfl
  | cons segment segments ih =>
    obtain ⟨kind, t⟩ := segment
    cases kind <;> simpa [tidied] using ih

theorem verbatim_tidyLine (hmarks : (markersOf profile?).IsUsual) (line : Text) :
    (markersOf profile?).verbatim (tidyLine profile? line)
      = (markersOf profile?).verbatim (trimEnd line) := by
  rw [Markers.verbatim, Markers.verbatim, segments_tidyLine hmarks, filter_tidied]

/-! ## Tidied programs -/

variable {code : Text}

theorem lines_tidy (profile? : Option Profile) (code : Text) :
    Text.lines (tidy profile? code) = tidyLines profile? code := by
  refine lines_unlines (fun line hline ↦ ?_) (by simp [tidyLines, lines_ne_nil])
  obtain ⟨piece, hpiece, rfl⟩ := List.mem_map.1 hline
  exact newline_notMem_tidyLine (newline_notMem_of_mem_lines hpiece)

theorem return_notMem_tidy (profile? : Option Profile) (code : Text) :
    '\r' ∉ tidy profile? code := by
  refine notMem_joinWith (by decide) fun line hline ↦ ?_
  obtain ⟨piece, hpiece, rfl⟩ := List.mem_map.1 hline
  refine return_notMem_tidyLine profile? fun hc ↦ ?_
  exact return_notMem_unifyLineEnds code (mem_of_mem_splitOn hpiece hc)

/-- Tidying a tidied program goes through its lines again. -/
theorem tidyLines_tidy (profile? : Option Profile) (code : Text) :
    tidyLines profile? (tidy profile? code) = (tidyLines profile? code).map (tidyLine profile?) := by
  rw [tidyLines, unifyLineEnds_eq_self (return_notMem_tidy profile? code), lines_tidy]

theorem tidyLine_tidyLine (hmarks : (markersOf profile?).IsUsual) (hline : '\n' ∉ line) :
    tidyLine profile? (tidyLine profile? line) = tidyLine profile? line :=
  (isTidy_tidyLine hmarks hline).tidyLine_eq (newline_notMem_tidyLine hline)

theorem tidy_tidy (hmarks : (markersOf profile?).IsUsual) (code : Text) :
    tidy profile? (tidy profile? code) = tidy profile? code := by
  have hagain : (tidyLines profile? code).map (tidyLine profile?) = tidyLines profile? code := by
    rw [tidyLines, List.map_map]
    refine List.map_congr_left fun line hline ↦ ?_
    exact tidyLine_tidyLine hmarks (newline_notMem_of_mem_lines hline)
  rw [tidy, tidyLines_tidy, hagain, ← tidy]

/-- Tidying twice is tidying once.  A tidied program holds no carriage return and has a line for
each piece between line ends of any kind.  Each of its lines ends in no blank and its code is tight;
it has the strings and the comment of the line it comes from, less trailing blanks, and differs from
it in spaces and tabs only. -/
theorem tidy_moves_spacing_only (language? : Option Language) (code : Text) :
    let profile? := language?.map Language.profile
    let marks := markersOf profile?
    tidy profile? (tidy profile? code) = tidy profile? code
    ∧ '\r' ∉ tidy profile? code
    ∧ (Text.lines (tidy profile? code)).length = (splitLines code).length
    ∧ List.Forall₂
        (fun line tidied ↦ IsTidy marks tidied
          ∧ marks.verbatim tidied = marks.verbatim (trimEnd line)
          ∧ unspaced tidied = unspaced (trimEnd line))
        (splitLines code) (Text.lines (tidy profile? code)) := by
  intro profile? marks
  have hmarks : marks.IsUsual := isUsual_markersOf language?
  refine ⟨tidy_tidy hmarks code, return_notMem_tidy profile? code, ?_, ?_⟩
  · rw [lines_tidy]
    exact (tidyLines_keepsLines profile? code).length_eq
  · rw [lines_tidy, splitLines_eq_lines, tidyLines, List.forall₂_map_right_iff, List.forall₂_same]
    intro line hline
    exact ⟨isTidy_tidyLine hmarks (newline_notMem_of_mem_lines hline), verbatim_tidyLine hmarks line,
      unspaced_tidyLine profile? line⟩

end Normalization

end Recast
