import Recast.Proofs.Layout.Finish
import Recast.Proofs.Text.Comment

/-!
# Lines without their terminators

Taking the terminators off a line changes its code in one way: if the code ends in terminators, they
are gone.  As long as something is left the line stays where it was.
-/

namespace Recast.Layout

variable {target : Language} {line : Text}

/-- Whether the terminators at the end of a line are taken off. -/
def isTerminated (target : Profile) (line : Text) : Bool :=
  Text.endsWith (target.codeOf line) ";" && !Text.startsWith (target.codeOf line) "for "

/-- The code of a line without the terminators at its end. -/
def bareCode (target : Profile) (line : Text) : Text :=
  Text.trim (Text.dropEndWhile (· == ';') (target.codeOf line))

/-! ## Statements -/

theorem dropEndWhile_append_of_forall {p : Char → Bool} {before : Text}
    (h : ∀ c ∈ before, p c = false) (t : Text) :
    Text.dropEndWhile p (before ++ t) = before ++ Text.dropEndWhile p t := by
  have hbefore : before.reverse.dropWhile p = before.reverse := by
    cases hreverse : before.reverse with
    | nil => rfl
    | cons c u =>
      have hc : c ∈ before := List.mem_reverse.1 (hreverse ▸ List.mem_cons_self)
      rw [List.dropWhile_cons_of_neg (by simp [h c hc])]
  rw [Text.dropEndWhile, Text.dropEndWhile, List.reverse_append, List.dropWhile_append]
  split
  · rename_i hempty
    rw [hbefore, List.isEmpty_iff.1 hempty, List.reverse_reverse]
    exact (List.append_nil before).symm
  · rw [List.reverse_append, List.reverse_reverse]

/-- The indentation of a statement does not matter to what is left of it. -/
theorem trim_bareStatement (code : Text) :
    Text.trim (bareStatement code)
      = Text.trim (Text.dropEndWhile (· == ';') (Text.trim code)) := by
  have hblank : ∀ c ∈ Text.indentation (Text.trimEnd code), isBlank c :=
    fun c hc ↦ Text.isBlank_of_mem_indentation hc
  have hmark : ∀ c ∈ Text.indentation (Text.trimEnd code), (c == ';') = false := by
    intro c hc
    apply beq_eq_false_iff_ne.2
    rintro rfl
    exact absurd (hblank ';' hc) (by decide)
  have hline := Text.indentation_append_trimStart (Text.trimEnd code)
  rw [Text.trimStart_trimEnd] at hline
  calc
    Text.trim (bareStatement code)
      = Text.trim (Text.dropEndWhile (· == ';')
          (Text.indentation (Text.trimEnd code) ++ Text.trim code)) := by
        rw [bareStatement, Text.trim_trimEnd, hline]
    _ = Text.trim (Text.dropEndWhile (· == ';') (Text.trim code)) := by
        rw [dropEndWhile_append_of_forall hmark, Text.trim_append_of_blank hblank]

theorem bareCode_eq (target : Profile) (line : Text) :
    bareCode target line = Text.trim (bareStatement (target.markers.splitComment line).1) :=
  (trim_bareStatement (target.markers.splitComment line).1).symm

/-- The terminators of a line are those of its code. -/
theorem dropTerminator_eq (target : Profile) (line : Text) :
    dropTerminator target line
      = if isTerminated target line then
          if Text.isVoid (bareStatement (target.markers.splitComment line).1) then
            if (target.markers.splitComment line).2.isEmpty then []
            else Text.indentation line ++ (target.markers.splitComment line).2
          else if (target.markers.splitComment line).2.isEmpty then
            bareStatement (target.markers.splitComment line).1
          else bareStatement (target.markers.splitComment line).1
            ++ Text.orElse (Text.gap (target.markers.splitComment line).1) " "
            ++ (target.markers.splitComment line).2
        else line := by
  have hends : Text.endsWith (Text.trimEnd (target.markers.splitComment line).1) ";"
      = Text.endsWith (target.codeOf line) ";" := by
    have hlast := Text.getLast?_trim (target.markers.splitComment line).1
    change Text.endsWith _ [';'] = Text.endsWith _ [';']
    rw [Text.endsWith_singleton, Text.endsWith_singleton, Profile.codeOf, hlast]
  rw [dropTerminator]
  dsimp only
  rw [hends, Text.trimStart_trimEnd, ← Profile.codeOf, isTerminated, bareStatement]
  cases Text.endsWith (target.codeOf line) ";" <;>
    cases Text.startsWith (target.codeOf line) "for " <;> rfl

/-! ## Code and width -/

/-- A bare statement is the code of what it stands in. -/
theorem codeOf_bareStatement_append {code comment : Text}
    (hend : target.profile.markers.endsInCode none code)
    (hcomment : target.profile.markers.startsComment comment) :
    target.profile.codeOf (bareStatement code ++ Text.orElse (Text.gap code) " " ++ comment)
      = Text.trim (bareStatement code) := by
  have hbare : target.profile.markers.endsInCode none (bareStatement code) := by
    rw [endsInCode_bareStatement]
    exact hend
  have hblank : ∀ d ∈ Text.orElse (Text.gap code) " ", isBlank d :=
    fun d hd ↦ isBlank_of_mem_orElse hd
  have hneutral : ∀ d ∈ Text.orElse (Text.gap code) " ", target.profile.markers.isNeutral d :=
    fun d hd ↦ target.isNeutral_of_isBlank (hblank d hd)
  rw [Profile.codeOf, Markers.splitComment_fst, List.append_assoc,
    Markers.untilComment_append_of_endsInCode hbare
      (isNeutral_of_mem_head?_orElse target code comment),
    Markers.untilComment_neutral_append hneutral,
    Markers.untilComment_of_startsComment hcomment, List.append_nil,
    Text.trim_append_blank _ hblank]

/-- The code of a line loses the terminators at its end. -/
theorem codeOf_dropTerminator (target : Language) (line : Text) :
    target.profile.codeOf (dropTerminator target.profile line)
      = if isTerminated target.profile line then bareCode target.profile line
        else target.profile.codeOf line := by
  rw [dropTerminator_eq]
  by_cases hterminated : isTerminated target.profile line
  swap
  · rw [if_neg hterminated, if_neg hterminated]
  rw [if_pos hterminated, if_pos hterminated, bareCode_eq]
  have hcode := Markers.splitComment_fst target.profile.markers line
  have hcases := Markers.splitComment_cases target.profile.markers line
  generalize target.profile.markers.splitComment line = parts at hcode hcases ⊢
  obtain ⟨code, comment⟩ := parts
  dsimp only at hcode hcases ⊢
  rcases hcases with hnone | ⟨hstart, hend, -⟩
  · obtain ⟨rfl, rfl⟩ := Prod.mk.inj hnone
    by_cases hvoid : Text.isVoid (bareStatement code)
    · rw [if_pos hvoid, Text.trim_eq_nil_iff.2 hvoid]
      rfl
    · obtain ⟨dropped, hline, -⟩ := exists_bareStatement_append code
      have hbare : target.profile.markers.untilComment none (bareStatement code)
          = bareStatement code := by
        rw [hline] at hcode
        exact Markers.untilComment_of_append hcode.symm
      rw [if_neg hvoid, List.isEmpty_nil, if_pos rfl, Profile.codeOf, Markers.splitComment_fst,
        hbare]
  · have hne : comment.isEmpty = false := by
      rw [List.isEmpty_eq_false_iff]
      rintro rfl
      exact absurd hstart (by simp [Markers.startsComment_nil])
    have hindent : ∀ c ∈ Text.indentation line, isBlank c :=
      fun c hc ↦ Text.isBlank_of_mem_indentation hc
    rw [hne]
    by_cases hvoid : Text.isVoid (bareStatement code)
    · rw [if_pos hvoid, Text.trim_eq_nil_iff.2 hvoid, if_neg (by simp), Profile.codeOf,
        Markers.splitComment_fst, Markers.untilComment_neutral_append
          fun c hc ↦ target.isNeutral_of_isBlank (hindent c hc),
        Markers.untilComment_of_startsComment hstart, Text.trim_append_of_blank hindent]
      rfl
    · rw [if_neg hvoid, if_neg (by simp), codeOf_bareStatement_append hend hstart]

/-- A line of which something is left stays at its width. -/
theorem width_dropTerminator (h : bareCode target.profile line ≠ []) :
    Text.width (dropTerminator target.profile line) = Text.width line := by
  have hcode := Markers.splitComment_append target.profile.markers line
  rw [bareCode_eq, ne_eq, Text.trim_eq_nil_iff, Bool.not_eq_true] at h
  rw [dropTerminator_eq]
  generalize target.profile.markers.splitComment line = parts at hcode h ⊢
  obtain ⟨code, comment⟩ := parts
  obtain ⟨dropped, hline, -⟩ := exists_bareStatement_append code
  have hwidth (u : Text) : Text.width (bareStatement code ++ u) = Text.width line := by
    rw [← hcode, hline, List.append_assoc, Text.width, Text.width,
      Text.indentation_append_of_not_isVoid h, ← hline, Text.indentation_append_of_not_isVoid h]
  dsimp only at h ⊢
  split
  · rw [if_neg (by simp [h])]
    split
    · rw [← List.append_nil (bareStatement code), hwidth]
    · rw [List.append_assoc, hwidth]
  · rfl

end Recast.Layout
