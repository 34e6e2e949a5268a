import Recast.Layout.Finish
import Recast.Proofs.Layout.Conservation
import Recast.Proofs.Text.Lines

/-!
# The balance of a finished program

The passes after balancing keep the braces of the code, and none writes a line feed.  So the
finished program is balanced exactly if the balancing succeeded.
-/

namespace Recast.Layout

variable {target : Language} {c : Char} {line : Text} {lines : List Text}

/-! ## Line feeds

No pass writes a line feed into a line, so the lines of the finished text are those of the last
pass. -/

theorem newline_notMem_recastMarker {source : Profile} (hline : '\n' ∉ line) :
    '\n' ∉ recastMarker source target.profile line := by
  rw [recastMarker]
  dsimp only
  split
  · exact hline
  · rename_i marker hfind
    split
    · have hindent : '\n' ∉ Text.indentation line := fun h ↦ hline (Text.mem_of_mem_indentation h)
      have hbody : '\n' ∉ (Text.trimStart line).drop marker.length :=
        fun h ↦ hline (Text.mem_of_mem_trimStart (List.mem_of_mem_drop h))
      simp [hindent, hbody, target.isSingleLine_profile.lineComment]
    · exact hline

theorem newline_notMem_closer (target : Language) : '\n' ∉ target.profile.closer := by
  cases target <;> decide

theorem mem_of_mem_dropOwn {width : Nat} {indent : Text} {stack : List Text}
    (h : indent ∈ dropOwn width stack) : indent ∈ stack := by
  cases stack with
  | nil => exact h
  | cons own stack =>
    rw [dropOwn] at h
    split at h
    · exact List.mem_cons_of_mem own h
    · exact h

theorem mem_of_mem_stackAfter {effect : Effect} {indent own : Text} {stack : List Text}
    (h : indent ∈ stackAfter effect own stack) : indent = own ∨ indent ∈ stack := by
  have hleft {left : List Text} (hsubset : ∀ other ∈ left, other ∈ stack)
      (h : indent ∈ if effect.reopens then own :: left else left) :
      indent = own ∨ indent ∈ stack := by
    split at h
    · exact (List.mem_cons.1 h).imp_right (hsubset indent)
    · exact .inr (hsubset indent h)
  refine hleft (fun other hother ↦ ?_) h
  have hsuffix : ∀ other ∈ stack.dropWhile (isEnded effect own.length), other ∈ stack :=
    fun other hother ↦ (List.dropWhile_suffix _).subset hother
  split at hother
  · exact hsuffix other hother
  · exact hsuffix other (mem_of_mem_dropOwn hother)

theorem newline_notMem_of_mem_closeFrom {stack blanks : List Text}
    (hstack : ∀ indent ∈ stack, '\n' ∉ indent) (hblanks : ∀ blank ∈ blanks, '\n' ∉ blank)
    (hlines : ∀ line ∈ lines, '\n' ∉ line) :
    ∀ line ∈ closeFrom target.profile stack blanks lines, '\n' ∉ line := by
  have hclosers {stack : List Text} (hstack : ∀ indent ∈ stack, '\n' ∉ indent) :
      ∀ line ∈ stack.map (· ++ target.profile.closer), '\n' ∉ line := by
    simpa [newline_notMem_closer target] using hstack
  induction lines generalizing stack blanks with
  | nil =>
    rw [closeFrom]
    exact List.forall_mem_append.2 ⟨hclosers hstack, hblanks⟩
  | cons line lines ih =>
    obtain ⟨hline, hlines⟩ := List.forall_mem_cons.1 hlines
    rw [closeFrom]
    split
    · exact ih hstack (List.forall_mem_append.2 ⟨hblanks, by simpa using hline⟩) hlines
    · have hended : ∀ indent ∈ stack.takeWhile (isEnded (effect target.profile line)
          (Text.indentation line).length), '\n' ∉ indent :=
        fun indent hindent ↦ hstack indent ((List.takeWhile_prefix _).subset hindent)
      have hafter : ∀ indent ∈ stackAfter (effect target.profile line) (Text.indentation line)
          stack, '\n' ∉ indent := by
        intro indent hindent
        rcases mem_of_mem_stackAfter hindent with rfl | hindent
        · exact fun h ↦ hline (Text.mem_of_mem_indentation h)
        · exact hstack indent hindent
      simp only [List.forall_mem_append]
      exact ⟨⟨⟨hclosers hended, hblanks⟩, by simpa using hline⟩, ih hafter (by simp) hlines⟩

theorem mem_of_mem_dropLoneBraces {surplus : Nat} (h : line ∈ (dropLoneBraces surplus lines).2) :
    line ∈ lines := by
  fun_induction dropLoneBraces surplus lines with
  | case1 surplus => exact h
  | case2 lines => exact h
  | case3 surplus other lines hlone ih => exact List.mem_cons_of_mem other (ih h)
  | case4 surplus other lines hlone left kept hdrop ih =>
    rw [hdrop] at ih
    exact List.mem_cons.2 ((List.mem_cons.1 h).imp_right ih)

theorem newline_notMem_of_mem_trimLineEnds {surplus : Nat} (hlines : ∀ line ∈ lines, '\n' ∉ line) :
    ∀ line ∈ trimLineEnds surplus lines, '\n' ∉ line := by
  induction lines generalizing surplus with
  | nil => exact hlines
  | cons line lines ih =>
    obtain ⟨hline, hlines⟩ := List.forall_mem_cons.1 hlines
    obtain ⟨-, dropped, hdropped, -⟩ := trimBraces_spec surplus line
    rw [trimLineEnds]
    refine List.forall_mem_cons.2 ⟨fun h ↦ hline ?_, ih hlines⟩
    rw [hdropped]
    exact List.mem_append_left dropped h

theorem newline_notMem_of_mem_balanceBraces {target : Profile}
    (hlines : ∀ line ∈ lines, '\n' ∉ line) :
    ∀ line ∈ balanceBraces target lines, '\n' ∉ line := by
  rw [balanceBraces]
  split
  · refine List.forall_mem_append.2 ⟨hlines, fun line hline ↦ ?_⟩
    rw [List.eq_of_mem_replicate hline]
    decide
  · intro line hline
    rw [dropSurplus, List.mem_reverse] at hline
    refine newline_notMem_of_mem_trimLineEnds (fun other hother ↦ hlines other ?_) line hline
    exact List.mem_reverse.1 (mem_of_mem_dropLoneBraces hother)

theorem newline_notMem_of_mem_levelFrom {depth : Nat} (hlines : ∀ line ∈ lines, '\n' ∉ line) :
    ∀ line ∈ levelFrom target.profile depth lines, '\n' ∉ line := by
  have hindented (depth : Nat) {line : Text} (hline : '\n' ∉ line) :
      '\n' ∉ target.profile.indentAt depth ++ Text.trim line := by
    have hindent : '\n' ∉ target.profile.indentAt depth := by
      simp [Profile.indentAt, target.isSingleLine_profile.indentUnit]
    have htrim : '\n' ∉ Text.trim line := fun h ↦ hline (Text.mem_of_mem_trim h)
    simp [hindent, htrim]
  induction lines generalizing depth with
  | nil => exact hlines
  | cons line lines ih =>
    obtain ⟨hline, hlines⟩ := List.forall_mem_cons.1 hlines
    rw [levelFrom]
    dsimp only
    split
    · exact List.forall_mem_cons.2 ⟨List.not_mem_nil, ih hlines⟩
    · split
      · exact List.forall_mem_cons.2 ⟨hindented depth hline, ih hlines⟩
      · exact List.forall_mem_cons.2 ⟨hindented _ hline, ih hlines⟩

theorem newline_notMem_dropTerminator {target : Profile} (hline : '\n' ∉ line) :
    '\n' ∉ dropTerminator target line := by
  generalize hsplit : target.markers.splitComment line = parts
  obtain ⟨code, comment⟩ := parts
  have hcode : '\n' ∉ code := by
    intro h
    have hmem : '\n' ∈ (target.markers.splitComment line).1 := by rwa [hsplit]
    exact hline (Markers.mem_of_mem_splitComment_fst hmem)
  have hcomment : '\n' ∉ comment := by
    intro h
    have hmem : '\n' ∈ (target.markers.splitComment line).2 := by rwa [hsplit]
    exact hline (Markers.mem_of_mem_splitComment_snd hmem)
  have hbare : '\n' ∉ bareStatement code := fun h ↦
    hcode (Text.mem_of_mem_trimEnd (Text.mem_of_mem_dropEndWhile (Text.mem_of_mem_trimEnd h)))
  have hgap : '\n' ∉ Text.orElse (Text.gap code) " " := by
    rw [Text.orElse]
    split
    · decide
    · exact fun h ↦ hcode (Text.mem_of_mem_gap h)
  have hindent : '\n' ∉ Text.indentation line := fun h ↦ hline (Text.mem_of_mem_indentation h)
  rcases dropTerminator_cases target line hsplit with h | ⟨-, h | ⟨-, h⟩⟩ | ⟨-, h | ⟨-, h⟩⟩
  · rwa [h]
  · rwa [h]
  · rw [h]
    exact List.not_mem_nil
  · simpa only [h, List.mem_append, not_or] using ⟨⟨hbare, hgap⟩, hcomment⟩
  · simpa only [h, List.mem_append, not_or] using ⟨hindent, hcomment⟩

theorem newline_notMem_of_mem_declareTopLevel (hlines : ∀ line ∈ lines, '\n' ∉ line) :
    ∀ line ∈ declareTopLevel target.profile lines, '\n' ∉ line := by
  rw [declareTopLevel]
  split
  · rename_i topLevel htop
    have hdeclaration := target.isSingleLine_profile.topLevel topLevel htop
    split
    · exact hlines
    · simpa only [List.forall_mem_cons] using ⟨hdeclaration, List.not_mem_nil, hlines⟩
  · exact hlines

theorem newline_notMem_of_mem_cleanup (hlines : ∀ line ∈ lines, '\n' ∉ line) :
    ∀ line ∈ cleanup target.profile lines, '\n' ∉ line := by
  rw [cleanup]
  apply newline_notMem_of_mem_declareTopLevel
  split
  · exact List.forall_mem_map.2 fun line hline ↦ newline_notMem_dropTerminator (hlines line hline)
  · exact hlines

/-! ## Balance -/

/-- The lines whose braces are balanced: comments are those of the target, and blocks that end by
indentation have been closed. -/
def prepare (target : Profile) (source? : Option Profile) (closeByIndent : Bool)
    (lines : List Text) : List Text :=
  let lines := match source? with
    | some source => recastComments source target lines
    | none => lines
  if closeByIndent && target.blockStyle ≠ .indent then closeBlocks target lines else lines

theorem finishLines_eq_cleanup {target : Profile} (hbraces : target.usesBraces)
    (source? : Option Profile) (closeByIndent : Bool) (lines : List Text) :
    finishLines target source? closeByIndent lines
      = cleanup target (relevel target
          (balanceBraces target (prepare target source? closeByIndent lines))) := by
  have hstyle : target.blockStyle ≠ .keyword := by
    intro h
    simp [Profile.usesBraces, h] at hbraces
  unfold finishLines
  dsimp only
  rw [if_pos hbraces, if_neg hstyle]
  rfl

theorem newline_notMem_of_mem_prepare {source? : Option Profile} {closeByIndent : Bool}
    (hlines : ∀ line ∈ lines, '\n' ∉ line) :
    ∀ line ∈ prepare target.profile source? closeByIndent lines, '\n' ∉ line := by
  have hcomments {source : Profile} :
      ∀ line ∈ recastComments source target.profile lines, '\n' ∉ line := by
    rw [recastComments]
    split
    · exact hlines
    · exact List.forall_mem_map.2 fun line hline ↦ newline_notMem_recastMarker (hlines line hline)
  have hclose {lines : List Text} (hlines : ∀ line ∈ lines, '\n' ∉ line) :
      ∀ line ∈ (if closeByIndent && target.profile.blockStyle ≠ .indent
        then closeBlocks target.profile lines else lines), '\n' ∉ line := by
    split
    · exact newline_notMem_of_mem_closeFrom (by simp) (by simp) hlines
    · exact hlines
  cases source? with
  | none => exact hclose hlines
  | some source => exact hclose hcomments

theorem newline_notMem_of_mem_finishLines (hbraces : target.profile.usesBraces)
    {source? : Option Profile} {closeByIndent : Bool} (hlines : ∀ line ∈ lines, '\n' ∉ line) :
    ∀ line ∈ finishLines target.profile source? closeByIndent lines, '\n' ∉ line := by
  rw [finishLines_eq_cleanup hbraces, relevel, if_neg (blockStyle_ne_indent hbraces)]
  exact newline_notMem_of_mem_cleanup (newline_notMem_of_mem_levelFrom
    (newline_notMem_of_mem_balanceBraces (newline_notMem_of_mem_prepare hlines)))

theorem bracesOf_lines_unlines {target : Profile} (hlines : ∀ line ∈ lines, '\n' ∉ line) :
    bracesOf target (Text.lines (Text.unlines lines)) = bracesOf target lines := by
  cases lines with
  | nil => rfl
  | cons line lines => rw [Text.lines_unlines hlines (List.cons_ne_nil line lines)]

/-- The braces in the code of the finished text are those after balancing, in their order. -/
theorem bracesOf_finish (hbraces : target.profile.usesBraces) (source? : Option Profile)
    (closeByIndent : Bool) (code : Text) :
    bracesOf target.profile (Text.lines (finish target.profile source? closeByIndent code))
      = bracesOf target.profile (balanceBraces target.profile
          (prepare target.profile source? closeByIndent (Text.lines code))) := by
  have hfinished : ∀ line ∈ finishLines target.profile source? closeByIndent (Text.lines code),
      '\n' ∉ line :=
    newline_notMem_of_mem_finishLines hbraces fun line hline ↦ Text.newline_notMem_of_mem_lines hline
  rw [finish, bracesOf_lines_unlines hfinished, finishLines_eq_cleanup hbraces, bracesOf_cleanup,
    bracesOf_relevel (blockStyle_ne_indent hbraces)]

/-- What is counted in the finished text is what is counted after balancing. -/
theorem countInLines_finish (hbraces : target.profile.usesBraces) (hbrace : c = '{' ∨ c = '}')
    (source? : Option Profile) (closeByIndent : Bool) (code : Text) :
    countInLines target.profile c
        (Text.lines (finish target.profile source? closeByIndent code))
      = countInLines target.profile c (balanceBraces target.profile
          (prepare target.profile source? closeByIndent (Text.lines code))) := by
  rw [countInLines_eq_count_bracesOf hbrace, bracesOf_finish hbraces,
    countInLines_eq_count_bracesOf hbrace]

/-- A finished program has the opening braces of its lines and never too few closing ones.  It has
too many exactly if the surplus is greater than the lone braces and the braces at ends of lines
that are reached in code. -/
theorem finish_balanced_iff (target : Language) (hbraces : target.profile.usesBraces)
    (source? : Option Profile) (closeByIndent : Bool) (code : Text) :
    let prepared := prepare target.profile source? closeByIndent (Text.lines code)
    let finished := Text.lines (finish target.profile source? closeByIndent code)
    countInLines target.profile '{' finished = countInLines target.profile '{' prepared
      ∧ countInLines target.profile '{' finished ≤ countInLines target.profile '}' finished
      ∧ (countInLines target.profile '{' finished = countInLines target.profile '}' finished
        ↔ countInLines target.profile '}' prepared
          ≤ countInLines target.profile '{' prepared + prepared.countP isLoneBrace
            + reachable target.profile (prepared.reverse.filter (!isLoneBrace ·))) := by
  intro prepared finished
  have hopens := countInLines_finish hbraces (.inl rfl) source? closeByIndent code
  have hcloses := countInLines_finish hbraces (.inr rfl) source? closeByIndent code
  rw [hopens, hcloses]
  exact balanceBraces_counts target prepared

/-- Two braces at the end of a line are both taken off. -/
theorem finish_balanced_iff_line_end :
    Language.javascript.profile.usesBraces
      ∧ countInLines Language.javascript.profile '{'
          (Text.lines (finish Language.javascript.profile none false "f(); \x7d \x7d"))
        = countInLines Language.javascript.profile '}'
          (Text.lines (finish Language.javascript.profile none false "f(); \x7d \x7d")) :=
  ⟨by decide, (finish_balanced_iff .javascript (by decide) none false "f(); \x7d \x7d").2.2.2
    (by decide +kernel)⟩

/-- A brace in a comment is taken off in place of the one in front of the comment. -/
theorem finish_unbalanced_comment :
    finish Language.javascript.profile none false "f(); \x7d // \x7d" = ("f(); \x7d //" : Text)
      ∧ countInLines Language.javascript.profile '{'
          (Text.lines (finish Language.javascript.profile none false "f(); \x7d // \x7d"))
        ≠ countInLines Language.javascript.profile '}'
          (Text.lines (finish Language.javascript.profile none false "f(); \x7d // \x7d")) := by
  decide +kernel

end Recast.Layout
