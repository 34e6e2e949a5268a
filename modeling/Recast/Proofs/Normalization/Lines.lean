import Recast.Normalization.Basic
import Recast.Proofs.Language.Profile
import Recast.Proofs.Text.Characters
import Recast.Proofs.Text.Lines

/-!
# Normalization keeps lines apart

Every correction works on lines one by one, and what it puts into a line is no line feed.  So the
normalized program has as many lines as the program, and reading it back gives the same lines.
-/

namespace Recast

/-- There are as many lines after as before, and none that holds a line feed if none did. -/
structure KeepsLines (before after : List Text) : Prop where
  length_eq : after.length = before.length
  newline_notMem : (∀ line ∈ before, '\n' ∉ line) → ∀ line ∈ after, '\n' ∉ line

namespace KeepsLines

theorem refl (lines : List Text) : KeepsLines lines lines :=
  ⟨rfl, id⟩

theorem trans {first second third : List Text} (h : KeepsLines first second)
    (h' : KeepsLines second third) : KeepsLines first third :=
  ⟨h'.length_eq.trans h.length_eq, fun hfirst ↦ h'.newline_notMem (h.newline_notMem hfirst)⟩

theorem map {mend : Text → Text} (hmend : ∀ line, '\n' ∉ line → '\n' ∉ mend line)
    (lines : List Text) : KeepsLines lines (lines.map mend) := by
  refine ⟨List.length_map mend, fun hlines line hline ↦ ?_⟩
  obtain ⟨old, hold, rfl⟩ := List.mem_map.1 hline
  exact hmend old (hlines old hold)

end KeepsLines

/-! ## Tidying -/

namespace Normalization

theorem newline_notMem_tidyCode {last : Bool} {code : Text} (h : '\n' ∉ code) :
    '\n' ∉ tidyCode last code := by
  have hcomma : '\n' ∉ spacedComma.replace (fun _ ↦ ",") code :=
    Pattern.notMem_replace_const h (by decide)
  have hcommas : '\n' ∉ wideComma.replace (fun _ ↦ ", ") (spacedComma.replace (fun _ ↦ ",") code) :=
    Pattern.notMem_replace_const hcomma (by decide)
  rw [tidyCode]
  split
  · exact Pattern.notMem_replace_const (Pattern.notMem_replace_const hcommas (by decide))
      (by decide)
  · exact hcommas

theorem newline_notMem_tidySegments {segments : List Segment}
    (h : ∀ segment ∈ segments, '\n' ∉ segment.text) : '\n' ∉ tidySegments segments := by
  induction segments with
  | nil => simp [tidySegments]
  | cons segment segments ih =>
    have hfirst := h segment List.mem_cons_self
    have hothers := ih fun other hother ↦ h other (List.mem_cons_of_mem segment hother)
    rw [tidySegments]
    split
    · simp [newline_notMem_tidyCode hfirst, hothers]
    · simp [hfirst, hothers]

theorem newline_notMem_tidyLine {profile? : Option Profile} {line : Text} (h : '\n' ∉ line) :
    '\n' ∉ tidyLine profile? line := by
  apply newline_notMem_tidySegments
  intro segment hsegment hc
  exact h (Text.mem_of_mem_trimEnd (Markers.mem_of_mem_segments hsegment hc))

theorem tidyLines_keepsLines (profile? : Option Profile) (code : Text) :
    KeepsLines (Text.splitLines code) (tidyLines profile? code) := by
  rw [Text.splitLines_eq_lines]
  exact KeepsLines.map (fun _ ↦ newline_notMem_tidyLine) _

end Normalization

/-! ## Corrections -/

namespace Correction

variable {source? : Option Profile} {source target : Profile} {line : Text}

theorem newline_notMem_mendElseIf (htarget : target.IsSingleLine) (h : '\n' ∉ line) :
    '\n' ∉ mendElseIf target line := by
  rw [mendElseIf]
  split
  · rename_i reading hread
    have hindent : '\n' ∉ reading.get .indent :=
      fun hc ↦ h (Pattern.mem_of_mem_get hread hc)
    have hrest : '\n' ∉ reading.rest := fun hc ↦ h ((Pattern.rest_suffix hread).subset hc)
    simp [hindent, hrest, htarget.elseIfKeyword]
  · exact h

theorem newline_notMem_mendPrint (h : '\n' ∉ line) : '\n' ∉ mendPrint source line := by
  have hcode : '\n' ∉ (source.markers.splitComment line).1 := by grind
  have hcomment : '\n' ∉ (source.markers.splitComment line).2 := by grind
  rw [mendPrint]
  split
  rename_i code comment hsplit
  rw [hsplit] at hcode hcomment
  split
  · rename_i reading hread
    have hpart (slot : Slot) : '\n' ∉ reading.get slot :=
      fun hc ↦ hcode (Text.mem_of_mem_trimEnd (Pattern.mem_of_mem_get hread hc))
    have hgap : '\n' ∉ Text.gap code := by grind
    simp [hpart, hgap, hcomment]
  · exact h

/-- What is put between the code of a line and its comment brings in no other line feed. -/
theorem newline_notMem_beforeComment {markers : Markers} {opener : Text} (hopener : '\n' ∉ opener)
    (h : '\n' ∉ line) :
    '\n' ∉ Text.trimEnd (markers.splitComment line).1 ++ opener
      ++ Text.gap (markers.splitComment line).1 ++ (markers.splitComment line).2 := by
  have hcode : '\n' ∉ (markers.splitComment line).1 := by grind
  have hcomment : '\n' ∉ (markers.splitComment line).2 := by grind
  have hbare : '\n' ∉ Text.trimEnd (markers.splitComment line).1 := by grind
  have hgap : '\n' ∉ Text.gap (markers.splitComment line).1 := by grind
  simp [hbare, hopener, hgap, hcomment]

theorem newline_notMem_mendColon (h : '\n' ∉ line) : '\n' ∉ mendColon source? line := by
  simp only [mendColon]
  split
  · exact h
  · split
    · exact newline_notMem_beforeComment (by decide) h
    · exact h

theorem newline_notMem_mendBrace {following : List Text} (h : '\n' ∉ line) :
    '\n' ∉ mendBrace source? line following := by
  simp only [mendBrace]
  split
  · exact h
  · split
    · exact newline_notMem_beforeComment (by decide) h
    · exact h

theorem mendBraces_keepsLines (lines : List Text) :
    KeepsLines lines (mendBraces source? lines) := by
  induction lines with
  | nil => exact .refl []
  | cons line following ih =>
    refine ⟨congrArg (· + 1) ih.length_eq, fun hlines mended hmended ↦ ?_⟩
    rcases List.mem_cons.1 hmended with rfl | hmended
    · exact newline_notMem_mendBrace (hlines line List.mem_cons_self)
    · exact ih.newline_notMem (fun l hl ↦ hlines l (List.mem_cons_of_mem line hl)) mended hmended

theorem newline_notMem_unifyQuotes {literal : Text} (h : '\n' ∉ literal) :
    '\n' ∉ unifyQuotes literal := by
  unfold unifyQuotes
  split
  · rename_i rest
    have hinner : '\n' ∉ rest.dropLast :=
      fun hc ↦ h (List.mem_cons_of_mem _ ((List.dropLast_sublist rest).subset hc))
    dsimp only
    split
    · exact h
    · have hquoted : '\n' ∉ Text.substitute ['\\', '\''] ['\''] rest.dropLast :=
        Text.notMem_substitute hinner (by decide)
      simp [hquoted]
  · exact h

theorem newline_notMem_mendQuotes (h : '\n' ∉ line) : '\n' ∉ mendQuotes source? line := by
  rw [mendQuotes]
  split
  · exact h
  · intro hc
    obtain ⟨segment, hsegment, hc⟩ := List.mem_flatMap.1 hc
    have htext : '\n' ∉ segment.text := fun hc ↦ h (Markers.mem_of_mem_segments hsegment hc)
    split at hc
    · exact newline_notMem_unifyQuotes htext hc
    · exact htext hc

theorem newline_notMem_mendTerminators (h : '\n' ∉ line) :
    '\n' ∉ mendTerminators source? line := by
  rw [mendTerminators]
  split
  · exact h
  · exact Markers.notMem_mapCode h fun _ hcode ↦ Pattern.notMem_replace_const hcode (by decide)

theorem newline_notMem_mendLogic (h : '\n' ∉ line) : '\n' ∉ mendLogic source line := by
  rw [mendLogic]
  split
  · exact h
  · split
    · exact Markers.notMem_mapCode h fun _ ↦ Logic.newline_notMem_toWords
    · exact Markers.notMem_mapCode h fun _ ↦ Logic.newline_notMem_toSymbols
    · exact h

/-- No correction adds, joins or drops a line. -/
theorem apply_keepsLines (correction : Correction) (source? : Option Profile)
    {target? : Option Profile} (htarget : ∀ target ∈ target?, target.IsSingleLine)
    (lines : List Text) : KeepsLines lines (correction.apply source? target? lines) := by
  cases correction <;> simp only [apply]
  case elseIfKeyword =>
    split
    · rename_i target
      exact .map (fun _ ↦ newline_notMem_mendElseIf (htarget target rfl)) lines
    · exact .refl lines
  case printStatement =>
    split
    · split
      · exact .map (fun _ ↦ newline_notMem_mendPrint) lines
      · exact .refl lines
    · exact .refl lines
  case missingColon =>
    split
    · exact .map (fun _ ↦ newline_notMem_mendColon) lines
    · exact .refl lines
  case missingBrace =>
    split
    · exact mendBraces_keepsLines lines
    · exact .refl lines
  case quotes =>
    split
    · exact .refl lines
    · exact .map (fun _ ↦ newline_notMem_mendQuotes) lines
  case duplicateTerminators => exact .map (fun _ ↦ newline_notMem_mendTerminators) lines
  case logicalOperators =>
    split
    · exact .map (fun _ ↦ newline_notMem_mendLogic) lines
    · exact .refl lines

end Correction

/-! ## The whole normalization -/

namespace Normalization

theorem correct_keepsLines {source? target? : Option Profile}
    (htarget : ∀ target ∈ target?, target.IsSingleLine) (normalization : Normalization)
    (correction : Correction) :
    KeepsLines normalization.lines (correct source? target? normalization correction).lines := by
  simp only [correct]
  split
  · exact .refl _
  · exact Correction.apply_keepsLines correction source? htarget _

theorem foldl_correct_keepsLines {source? target? : Option Profile}
    (htarget : ∀ target ∈ target?, target.IsSingleLine) (corrections : List Correction)
    (normalization : Normalization) :
    KeepsLines normalization.lines
      (corrections.foldl (correct source? target?) normalization).lines := by
  induction corrections generalizing normalization with
  | nil => exact .refl _
  | cons correction corrections ih =>
    exact (correct_keepsLines htarget normalization correction).trans (ih _)

/-- A normalized program has the lines of the program, one for one. -/
theorem ofCode_keepsLines (source? target? : Option Language) (code : Text) :
    KeepsLines (Text.splitLines code) (ofCode source? target? code).lines := by
  have hstart :
      KeepsLines (Text.splitLines code) (start (source?.map Language.profile) code).lines :=
    tidyLines_keepsLines _ code
  refine hstart.trans (foldl_correct_keepsLines ?_ Correction.all (start _ code))
  intro target htarget
  obtain ⟨language, -, rfl⟩ := Option.map_eq_some_iff.1 htarget
  exact language.isSingleLine_profile

theorem newline_notMem_of_mem_ofCode {source? target? : Option Language} {code line : Text}
    (h : line ∈ (ofCode source? target? code).lines) : '\n' ∉ line := by
  refine (ofCode_keepsLines source? target? code).newline_notMem (fun piece hpiece ↦ ?_) line h
  rw [Text.splitLines_eq_lines] at hpiece
  exact Text.newline_notMem_of_mem_lines hpiece

/-- The text of a normalized program has the lines that it was made of. -/
theorem lines_text (source? target? : Option Language) (code : Text) :
    Text.lines (ofCode source? target? code).text = (ofCode source? target? code).lines := by
  apply Text.lines_unlines fun line hline ↦ newline_notMem_of_mem_ofCode hline
  apply List.ne_nil_of_length_pos
  rw [(ofCode_keepsLines source? target? code).length_eq, Text.splitLines_eq_lines]
  exact List.length_pos_iff.2 (Text.lines_ne_nil _)

end Normalization

end Recast
