import Recast.Proofs.Normalization.Repeated
import Recast.Proofs.Normalization.Settled

/-!
# Normalizing twice

The corrections that come first, up to the braces, and the one that collapses terminators make no
work for each other or for tidying.  So normalizing a program twice gives what normalizing it once
does, unless the first time changed quotes or logical operators.
-/

namespace Recast

open Text Pattern

/-! ## Corrections that are not recorded -/

namespace Normalization

variable {source? target? : Option Profile} {normalization : Normalization}
  {correction : Correction} {before after : List Correction}

theorem mem_corrections_correct {other : Correction} (h : other ∈ normalization.corrections) :
    other ∈ (correct source? target? normalization correction).corrections := by
  simp only [correct]
  split
  · exact h
  · exact List.mem_append_left _ h

theorem mem_corrections_foldl {other : Correction} (h : other ∈ normalization.corrections)
    (corrections : List Correction) :
    other ∈ (corrections.foldl (correct source? target?) normalization).corrections := by
  induction corrections generalizing normalization with
  | nil => exact h
  | cons correction corrections ih => exact ih (mem_corrections_correct h)

/-- A correction that is not recorded has changed nothing when its turn came. -/
theorem apply_eq_self_of_notMem (htarget : ∀ target ∈ target?, target.IsSingleLine)
    (hall : Correction.all = before ++ correction :: after)
    (h : correction ∉ (Correction.all.foldl (correct source? target?) normalization).corrections) :
    correction.apply source? target?
        (Correction.applyAll source? target? before normalization.lines)
      = Correction.applyAll source? target? before normalization.lines := by
  rw [← lines_foldl_correct htarget before normalization]
  rw [hall, List.foldl_append, List.foldl_cons] at h
  generalize before.foldl (correct source? target?) normalization = earlier at h ⊢
  have hnot := mt (fun hmem ↦ mem_corrections_foldl hmem after) h
  simp only [correct] at hnot
  split at hnot
  · rename_i hchanged
    have hlength := (correction.apply_keepsLines source? htarget earlier.lines).length_eq
    exact eq_of_changedFrom hlength hchanged
  · exact absurd (List.mem_append_right _ (List.mem_singleton_self _)) hnot

/-- The corrections before quotes and terminators. -/
def openings : List Correction :=
  [.elseIfKeyword, .printStatement, .missingColon, .missingBrace]

theorem applyAll_openings {lines : List Text} :
    Correction.applyAll source? target? openings lines
      = Correction.missingBrace.apply source? target?
          (Correction.missingColon.apply source? target?
            (Correction.printStatement.apply source? target?
              (Correction.elseIfKeyword.apply source? target? lines))) :=
  rfl

/-- What is left to do if neither quotes nor logical operators are changed. -/
theorem lines_of_notMem (htarget : ∀ target ∈ target?, target.IsSingleLine) {opened : List Text}
    (hopened : Correction.applyAll source? target? openings normalization.lines = opened)
    (hquotes : .quotes ∉ (Correction.all.foldl (correct source? target?) normalization).corrections)
    (hlogic : .logicalOperators
      ∉ (Correction.all.foldl (correct source? target?) normalization).corrections) :
    Correction.quotes.apply source? target? opened = opened
      ∧ Correction.logicalOperators.apply source? target?
          (opened.map (Correction.mendTerminators source?))
        = opened.map (Correction.mendTerminators source?)
      ∧ (Correction.all.foldl (correct source? target?) normalization).lines
        = opened.map (Correction.mendTerminators source?) := by
  have hbefore : Correction.all
      = openings ++ .quotes :: [.duplicateTerminators, .logicalOperators] := rfl
  have hlast : Correction.all
      = (openings ++ [.quotes, .duplicateTerminators]) ++ .logicalOperators :: [] := rfl
  have hquotes := apply_eq_self_of_notMem htarget hbefore hquotes
  have hlogic := apply_eq_self_of_notMem htarget hlast hlogic
  rw [hopened] at hquotes
  have hterminators : Correction.applyAll source? target?
      (openings ++ [.quotes, .duplicateTerminators]) normalization.lines
        = opened.map (Correction.mendTerminators source?) := by
    rw [Correction.applyAll_append, hopened]
    exact congrArg (List.map (Correction.mendTerminators source?)) hquotes
  rw [hterminators] at hlogic
  refine ⟨hquotes, hlogic, ?_⟩
  rw [lines_foldl_correct htarget, hlast, Correction.applyAll_append, hterminators]
  exact hlogic

end Normalization

/-! ## What each correction leaves behind -/

namespace Correction

open Normalization

/-- A single line that tidying leaves alone. -/
structure IsPlain (source? : Option Language) (line : Text) : Prop where
  newline : '\n' ∉ line
  tidy : IsTidy (markersOf (source?.map Language.profile)) line

/-- A plain line that starts with no keyword of a branch but the target's. -/
structure HasKeyword (source? target? : Option Language) (line : Text) : Prop
    extends IsPlain source? line where
  keyword : ∀ target ∈ target?, KeepsBranch target line

/-- A line that is moreover no print statement. -/
structure HasCall (source? target? : Option Language) (line : Text) : Prop
    extends HasKeyword source? target? line where
  call : source? = some .python → PrintsByCall Language.python.profile line

/-- A line that moreover lacks no colon. -/
structure HasColon (source? target? : Option Language) (line : Text) : Prop
    extends HasCall source? target? line where
  colon : (source?.map Language.profile).all (·.blockStyle = .indent) →
    lacksColon (source?.map Language.profile) line = false

variable {source? target? : Option Language} {code : Text} {lines : List Text}

theorem isPlain_of_mem_tidyLines {line : Text}
    (h : line ∈ tidyLines (source?.map Language.profile) code) : IsPlain source? line := by
  obtain ⟨piece, hpiece, rfl⟩ := List.mem_map.1 h
  have hpiece : '\n' ∉ piece := newline_notMem_of_mem_lines hpiece
  exact ⟨newline_notMem_tidyLine hpiece, isTidy_tidyLine (isUsual_markersOf source?) hpiece⟩

theorem hasKeyword_apply (target? : Option Language) (h : ∀ line ∈ lines, IsPlain source? line) :
    ∀ line ∈ elseIfKeyword.apply (source?.map Language.profile) (target?.map Language.profile) lines,
      HasKeyword source? target? line := by
  cases target? with
  | none => exact fun line hline ↦ ⟨h line hline, by simp⟩
  | some target =>
    intro mended hmended
    obtain ⟨line, hline, rfl⟩ := List.mem_map.1 hmended
    have hplain := h line hline
    refine ⟨⟨newline_notMem_mendElseIf target.isSingleLine_profile hplain.newline,
      isTidy_mendElseIf (isUsual_markersOf source?) hplain.tidy target⟩, ?_⟩
    rintro _ ⟨⟩
    exact keepsBranch_mendElseIf target line

theorem hasCall_apply (h : ∀ line ∈ lines, HasKeyword source? target? line) :
    ∀ line ∈ printStatement.apply (source?.map Language.profile) (target?.map Language.profile) lines,
      HasCall source? target? line := by
  cases source? with
  | none => exact fun line hline ↦ ⟨h line hline, by simp⟩
  | some source =>
    simp only [apply, Option.map_some, Language.language_profile]
    split
    · rename_i hpython
      subst hpython
      intro mended hmended
      obtain ⟨line, hline, rfl⟩ := List.mem_map.1 hmended
      have hline := h line hline
      have hmarks : Language.python.profile.markers.IsUsual := isUsual_markersOf (some .python)
      have hnewline : '\n' ∉ mendPrint Language.python.profile line :=
        newline_notMem_mendPrint hline.newline
      have hkeyword : ∀ target ∈ target?, KeepsBranch target (mendPrint Language.python.profile line) :=
        fun target htarget ↦ (hline.keyword target htarget).mendPrint hmarks hline.tidy
      rcases mendPrint_cases hmarks hline.tidy with hcall | ⟨_, _, _, _, htidy, hcall⟩
      · rw [hcall.mendPrint_eq]
        exact ⟨hline, fun _ ↦ hcall⟩
      · exact ⟨⟨⟨hnewline, htidy⟩, hkeyword⟩, fun _ ↦ hcall⟩
    · rename_i hpython
      exact fun line hline ↦ ⟨h line hline, fun heq ↦ absurd (Option.some.inj heq) hpython⟩

theorem hasColon_apply (h : ∀ line ∈ lines, HasCall source? target? line) :
    ∀ line ∈ missingColon.apply (source?.map Language.profile) (target?.map Language.profile) lines,
      HasColon source? target? line := by
  rw [apply]
  split
  · intro mended hmended
    obtain ⟨line, hline, rfl⟩ := List.mem_map.1 hmended
    have hline := h line hline
    have hmarks := isUsual_markersOf source?
    obtain ⟨htidy, hcolon⟩ := isTidy_mendColon hmarks hline.tidy
    refine ⟨⟨⟨⟨newline_notMem_mendColon hline.newline, htidy⟩,
      fun target htarget ↦ (hline.keyword target htarget).mendColon hmarks⟩, ?_⟩, fun _ ↦ hcolon⟩
    rintro rfl
    exact (hline.call rfl).mendColon hmarks hline.tidy hline.newline
  · rename_i hindent
    exact fun line hline ↦ ⟨h line hline, fun hall ↦ absurd hall hindent⟩

theorem forall_mem_mendBraces {profile? : Option Profile} {p q : Text → Prop}
    (hmend : ∀ line following, p line → q (mendBrace profile? line following))
    (h : ∀ line ∈ lines, p line) : ∀ line ∈ mendBraces profile? lines, q line := by
  induction lines with
  | nil => simp [mendBraces]
  | cons line following ih =>
    obtain ⟨hfirst, hothers⟩ := List.forall_mem_cons.1 h
    exact List.forall_mem_cons.2 ⟨hmend line following hfirst, ih hothers⟩

theorem hasColon_apply_missingBrace (h : ∀ line ∈ lines, HasColon source? target? line) :
    ∀ line ∈ missingBrace.apply (source?.map Language.profile) (target?.map Language.profile) lines,
      HasColon source? target? line := by
  rw [apply]
  split
  · rename_i hbrace
    have hmarks := isUsual_markersOf source?
    refine forall_mem_mendBraces (fun line following hline ↦ ?_) h
    obtain ⟨htidy, -, hcolon⟩ := isTidy_mendBrace hmarks hline.tidy following
    refine ⟨⟨⟨⟨newline_notMem_mendBrace hline.newline, htidy⟩,
      fun target htarget ↦ (hline.keyword target htarget).mendBrace hmarks following⟩, ?_⟩,
      fun hindent ↦ hcolon (hline.colon hindent)⟩
    rintro rfl
    exact absurd hbrace (by decide)
  · exact h

theorem bracesStand_apply (h : ∀ line ∈ lines, HasColon source? target? line)
    (hbrace : (source?.map Language.profile).all (·.blockStyle = .brace)) :
    BracesStand (source?.map Language.profile)
      (missingBrace.apply (source?.map Language.profile) (target?.map Language.profile) lines) := by
  rw [apply, if_pos hbrace]
  exact bracesStand_mendBraces (isUsual_markersOf source?) fun line hline ↦ (h line hline).tidy

theorem HasColon.mendTerminators {line : Text} (h : HasColon source? target? line) :
    HasColon source? target? (mendTerminators (source?.map Language.profile) line) := by
  have hmarks := isUsual_markersOf source?
  refine ⟨⟨⟨⟨newline_notMem_mendTerminators h.newline, isTidy_mendTerminators hmarks h.tidy⟩,
    fun target htarget ↦ (h.keyword target htarget).mendTerminators⟩, ?_⟩,
    fun hindent ↦ lacksColon_mendTerminators hmarks (h.colon hindent)⟩
  rintro rfl
  exact (h.call rfl).mendTerminators hmarks h.newline

/-! ## Nothing left to do -/

theorem isSettled_map_mendTerminators (h : ∀ line ∈ lines, HasColon source? target? line)
    (hbraces : (source?.map Language.profile).all (·.blockStyle = .brace) →
      BracesStand (source?.map Language.profile) lines)
    (hquotes : quotes.apply (source?.map Language.profile) (target?.map Language.profile) lines = lines)
    (hlogic : logicalOperators.apply (source?.map Language.profile) (target?.map Language.profile)
      (lines.map (mendTerminators (source?.map Language.profile)))
        = lines.map (mendTerminators (source?.map Language.profile))) :
    IsSettled (source?.map Language.profile) (target?.map Language.profile)
      (lines.map (mendTerminators (source?.map Language.profile))) := by
  have hmarks := isUsual_markersOf source?
  have hmended : ∀ line ∈ lines.map (mendTerminators (source?.map Language.profile)),
      HasColon source? target? line :=
    List.forall_mem_map.2 fun line hline ↦ (h line hline).mendTerminators
  refine ⟨fun line hline ↦ (hmended line hline).tidy.tidyLine_eq (hmended line hline).newline,
    fun correction ↦ ?_⟩
  cases correction with
  | elseIfKeyword =>
    cases target? with
    | none => rfl
    | some target =>
      exact map_eq_self_iff.2 fun line hline ↦ ((hmended line hline).keyword target rfl).mendElseIf_eq
  | printStatement =>
    cases source? with
    | none => rfl
    | some source =>
      simp only [apply, Option.map_some, Language.language_profile]
      split
      · rename_i hpython
        subst hpython
        exact map_eq_self_iff.2 fun line hline ↦ ((hmended line hline).call rfl).mendPrint_eq
      · rfl
  | missingColon =>
    rw [apply]
    split
    · rename_i hindent
      refine map_eq_self_iff.2 fun line hline ↦ ?_
      rw [mendColon_eq, (hmended line hline).colon hindent]
      rfl
    · rfl
  | missingBrace =>
    rw [apply]
    split
    · rename_i hbrace
      exact ((hbraces hbrace).mendTerminators hmarks).mendBraces_eq
    · rfl
  | quotes =>
    rw [apply] at hquotes ⊢
    split at hquotes
    · rename_i hliterals
      rw [if_pos hliterals]
    · rename_i hliterals
      rw [if_neg hliterals, map_eq_self_iff, List.forall_mem_map]
      exact fun line hline ↦ mendQuotes_mendTerminators hmarks (map_eq_self_iff.1 hquotes line hline)
  | duplicateTerminators =>
    rw [apply, map_eq_self_iff, List.forall_mem_map]
    exact fun line _ ↦ mendTerminators_mendTerminators hmarks line
  | logicalOperators => exact hlogic

end Correction

namespace Normalization

variable {source? target? : Option Language} {code : Text}

/-- Nothing is left to do in a program in which neither quotes nor logical operators were changed. -/
theorem isSettled_ofCode (hquotes : .quotes ∉ (ofCode source? target? code).corrections)
    (hlogic : .logicalOperators ∉ (ofCode source? target? code).corrections) :
    IsSettled (source?.map Language.profile) (target?.map Language.profile)
      (ofCode source? target? code).lines := by
  have htidy : ∀ line ∈ (start (source?.map Language.profile) code).lines,
      Correction.IsPlain source? line := fun line ↦ Correction.isPlain_of_mem_tidyLines
  rw [ofCode] at hquotes hlogic ⊢
  obtain ⟨hquotes, hlogic, hlines⟩ :=
    lines_of_notMem isSingleLine_of_mem applyAll_openings hquotes hlogic
  rw [hlines]
  have hcolon :=
    Correction.hasColon_apply (Correction.hasCall_apply (Correction.hasKeyword_apply target? htidy))
  exact Correction.isSettled_map_mendTerminators (Correction.hasColon_apply_missingBrace hcolon)
    (Correction.bracesStand_apply hcolon) hquotes hlogic

/-- A second normalization changes nothing if and only if no step has anything left to do, and none
has if the first one left quotes and logical operators alone. -/
theorem text_ofCode_twice (source? target? : Option Language) (code : Text) :
    ((ofCode source? target? (ofCode source? target? code).text).text
        = (ofCode source? target? code).text
      ↔ IsSettled (source?.map Language.profile) (target?.map Language.profile)
          (ofCode source? target? code).lines)
      ∧ (.quotes ∉ (ofCode source? target? code).corrections →
        .logicalOperators ∉ (ofCode source? target? code).corrections →
        (ofCode source? target? (ofCode source? target? code).text).text
          = (ofCode source? target? code).text) :=
  ⟨text_ofCode_text_eq_iff, fun hquotes hlogic ↦
    text_ofCode_text_eq_iff.2 (isSettled_ofCode hquotes hlogic)⟩

/-- A print statement, a header without its colon and a row of terminators are mended for good. -/
theorem text_ofCode_twice_python :
    .printStatement ∈ (ofCode (some .python) none "print x ;;\nif y  # why").corrections
      ∧ (ofCode (some .python) none (ofCode (some .python) none "print x ;;\nif y  # why").text).text
        = (ofCode (some .python) none "print x ;;\nif y  # why").text :=
  ⟨by decide +kernel,
    (text_ofCode_twice (some .python) none "print x ;;\nif y  # why").2 (by decide +kernel)
      (by decide +kernel)⟩

/-- Of two words for an operator in a row, the second is seen only when the first has become a symbol. -/
theorem text_ofCode_twice_ne :
    (ofCode (some .javascript) none (ofCode (some .javascript) none "x and and y").text).text
      ≠ (ofCode (some .javascript) none "x and and y").text := by
  decide +kernel

end Normalization

end Recast
