import Recast.Proofs.Layout.Indent
import Recast.Proofs.Layout.Terminator
import Recast.Proofs.Pattern.Search

/-!
# Blocks that are not empty

A program that delimits its blocks by indentation needs a line inside every block.  Indenting gives
each block one: a line of its own, or the statement that does nothing.  Then the terminators are
taken off, and with them a line may go on which a block rested, or a colon may come to the end of
its line.  So the finished program has a line inside every block exactly if no terminator hides a
colon, and every block has a line that is more than terminators.
-/

namespace Recast.Layout

/-! ## Filled blocks -/

/-- Whether code opens a block by the colon at its end, and closes none by a brace at its start. -/
def opensByColon (code : Text) : Bool :=
  Text.endsWith code [':'] && !Text.startsWith code ['}']

/-- Whether a line is a header of a block. -/
def endsInColon (target : Profile) (line : Text) : Bool :=
  isCodeLine target line && opensByColon (target.codeOf line)

/-- Whether a line becomes a header once its terminators are taken off. -/
def hidesColon (target : Profile) (line : Text) : Bool :=
  isTerminated target line && opensByColon (bareCode target line)

/-- Whether something is left of the code of a line without its terminators. -/
def hasStatement (target : Profile) (line : Text) : Bool :=
  !(bareCode target line).isEmpty

/-- Whether each line that opens a block is followed by a deeper one, among the lines that count. -/
def fillsBlocks (opens counts : Text → Bool) : List Text → Bool
  | [] => true
  | line :: lines =>
    (!opens line || (lines.find? counts).any (Text.width line < Text.width ·))
      && fillsBlocks opens counts lines

section Filled

variable {opens counts others : Text → Bool} {f : Text → Text} {lines : List Text}

theorem fillsBlocks_append {before : List Text} (h : ∀ line ∈ before, opens line = false) :
    fillsBlocks opens counts (before ++ lines) = fillsBlocks opens counts lines := by
  induction before with
  | nil => rfl
  | cons line before ih =>
    obtain ⟨hline, hbefore⟩ := List.forall_mem_cons.1 h
    rw [List.cons_append, fillsBlocks, hline, ih hbefore]
    rfl

/-- Lines may be changed as long as those that count stay at their width. -/
theorem fillsBlocks_map (hwidth : ∀ line, counts (f line) → Text.width (f line) = Text.width line)
    (hopens : ∀ line, opens (f line) → counts (f line)) (lines : List Text) :
    fillsBlocks opens counts (lines.map f)
      = fillsBlocks (fun line ↦ opens (f line)) (fun line ↦ counts (f line)) lines := by
  induction lines with
  | nil => rfl
  | cons line lines ih =>
    rw [List.map_cons, fillsBlocks, fillsBlocks, ih, List.find?_map, Option.any_map]
    cases hline : opens (f line) with
    | false => rfl
    | true =>
      have hnext : (lines.find? (counts ∘ f)).any
            (fun next ↦ Text.width (f line) < Text.width (f next))
          = (lines.find? (counts ∘ f)).any (Text.width line < Text.width ·) := by
        cases hfind : lines.find? (counts ∘ f) with
        | none => rfl
        | some next =>
          have hcounts : (counts ∘ f) next := List.find?_some hfind
          rw [Option.any_some, Option.any_some, hwidth line (hopens line hline),
            hwidth next hcounts]
      exact congrArg (fun next ↦ (!true || next)
        && fillsBlocks (fun line ↦ opens (f line)) (fun line ↦ counts (f line)) lines) hnext

/-- A program fills blocks of two kinds exactly if it fills both. -/
theorem fillsBlocks_or (lines : List Text) :
    fillsBlocks (fun line ↦ opens line || others line) counts lines
      = (fillsBlocks opens counts lines && fillsBlocks others counts lines) := by
  induction lines with
  | nil => rfl
  | cons line lines ih =>
    rw [fillsBlocks, fillsBlocks, fillsBlocks, ih]
    grind

end Filled

/-! ## Code by indentation -/

section Code

variable {line : Text}

theorem isComment_python (t : Text) :
    Language.python.profile.isComment t = Language.python.profile.markers.startsComment t := by
  have hcomments : Language.python.profile.markers.comments = [("#" : Text)] := rfl
  have hbraces : Language.python.profile.usesBraces = false := rfl
  rw [Profile.isComment, hbraces, hcomments, Markers.startsComment, hcomments, List.find?_cons,
    Text.startsWithAny, List.any_cons, Text.startsWith]
  cases List.isPrefixOf ("#" : Text) t <;> rfl

/-- A line has code unless it is blank or a comment. -/
theorem isCodeLine_iff_codeOf_ne_nil :
    isCodeLine Language.python.profile line ↔ Language.python.profile.codeOf line ≠ [] := by
  rw [isCodeLine_iff, Profile.isCommentLine, isComment_python, ← Language.codeOf_trim,
    Bool.eq_false_iff, ne_eq, ← Text.trim_eq_nil_iff, Profile.codeOf, Markers.splitComment_fst]
  have hink : ∀ c ∈ (Text.trim line).head?, isBlank c = false :=
    fun c hc ↦ Text.isBlank_of_mem_head?_trim hc
  cases htrim : Text.trim line with
  | nil => simp [Markers.untilComment, Text.trim, Text.trimEnd, Text.trimStart, Text.dropEndWhile]
  | cons c t =>
    rw [htrim] at hink
    rw [Markers.untilComment_none_cons]
    split
    · rename_i hcomment
      simp [hcomment, Text.trim, Text.trimEnd, Text.trimStart, Text.dropEndWhile]
    · rename_i hcomment
      rw [Text.trim_cons (hink c rfl)]
      simpa using hcomment

/-- The code of a line opens a block exactly if it ends in a colon. -/
theorem opensBlock_codeOf_iff :
    Language.python.profile.opensBlock (Language.python.profile.codeOf line)
      ↔ Text.endsWith (Language.python.profile.codeOf line) [':'] := by
  have hoccurs : Language.python.profile.opensBlock (Language.python.profile.codeOf line)
      ↔ ∃ u w, Language.python.profile.codeOf line = u ++ ':' :: w ∧ ∀ c ∈ w, isBlank c :=
    Pattern.occurs_mark_end_iff
  rw [Text.endsWith_singleton, beq_iff_eq]
  refine Iff.trans hoccurs ⟨?_, ?_⟩
  · rintro ⟨u, w, hcode, hw⟩
    have hsplit : u ++ ':' :: w = (u ++ [':']) ++ w := by simp
    have hmark : Text.trimEnd (u ++ [':']) = u ++ [':'] :=
      Text.trimEnd_append_of_ne_nil u (u := [':']) (by decide)
    have htrim : Language.python.profile.codeOf line = u ++ [':'] := by
      have hself : Text.trimEnd (Language.python.profile.codeOf line)
          = Language.python.profile.codeOf line := Text.trimEnd_trimEnd _
      rw [← hself, hcode, hsplit, Text.trimEnd_append_of_blank _ hw, hmark]
    rw [htrim, List.getLast?_append, List.getLast?_singleton, Option.some_or]
  · intro hlast
    obtain ⟨u, hcode⟩ := List.getLast?_eq_some_iff.1 hlast
    exact ⟨u, [], hcode, by simp⟩

theorem codeOf_eq_nil (h : isCodeLine Language.python.profile line = false) :
    Language.python.profile.codeOf line = [] := by
  by_contra hne
  exact absurd (isCodeLine_iff_codeOf_ne_nil.2 hne) (by simp [h])

theorem endsInColon_eq (line : Text) :
    endsInColon Language.python.profile line
      = opensByColon (Language.python.profile.codeOf line) := by
  rw [endsInColon]
  cases hcode : isCodeLine Language.python.profile line with
  | true => rfl
  | false =>
    rw [codeOf_eq_nil hcode]
    rfl

/-! ## Terminators -/

theorem bareCode_of_getLast? {target : Profile}
    (h : (target.codeOf line).getLast? ≠ some ';') :
    bareCode target line = target.codeOf line := by
  have hdrop : Text.dropEndWhile (· == ';') (target.codeOf line) = target.codeOf line := by
    apply Text.dropEndWhile_eq_self
    rintro c hc
    apply beq_eq_false_iff_ne.2
    rintro rfl
    exact h hc
  rw [bareCode, hdrop, Profile.codeOf, Text.trim_trim]

/-- A line of terminators ends in one. -/
theorem getLast?_codeOf_of_bareCode {target : Profile} (h : bareCode target line = []) :
    ∀ c ∈ (target.codeOf line).getLast?, c = ';' := by
  intro c hc
  by_contra hne
  rw [bareCode_of_getLast? fun hmark ↦ hne (Option.some.inj (hc.symm.trans hmark))] at h
  rw [h] at hc
  exact absurd hc (by simp)

/-- What is left of a loop header is never nothing. -/
theorem bareCode_ne_nil_of_startsWith {target : Profile}
    (h : Text.startsWith (target.codeOf line) "for ") : bareCode target line ≠ [] := by
  obtain ⟨rest, hcode⟩ := List.isPrefixOf_iff_prefix.1 h
  have hfirst : target.codeOf line = ['f'] ++ ("or " ++ rest) := hcode.symm
  rw [bareCode, hfirst, dropEndWhile_append_of_forall (by simp), List.singleton_append,
    Text.trim_cons (by decide)]
  exact List.cons_ne_nil _ _

/-- A line has code after its terminators are gone exactly if it had more code than them. -/
theorem isCodeLine_dropTerminator (line : Text) :
    isCodeLine Language.python.profile (dropTerminator Language.python.profile line)
      = hasStatement Language.python.profile line := by
  rw [Bool.eq_iff_iff, isCodeLine_iff_codeOf_ne_nil, codeOf_dropTerminator, hasStatement,
    Bool.not_eq_true', List.isEmpty_eq_false_iff]
  split
  · rfl
  · rename_i hterminated
    rw [isTerminated, Bool.and_eq_true, Bool.not_eq_true', not_and, Bool.not_eq_false]
      at hterminated
    by_cases hends : Text.endsWith (Language.python.profile.codeOf line) ";"
    · have hfor := hterminated hends
      have hbare := bareCode_ne_nil_of_startsWith hfor
      have hcode : Language.python.profile.codeOf line ≠ [] := by
        intro hnil
        rw [hnil] at hfor
        exact absurd hfor (by decide)
      exact iff_of_true hcode hbare
    · have hlast : (Language.python.profile.codeOf line).getLast? ≠ some ';' := by
        intro hlast
        apply hends
        change Text.endsWith _ [';']
        rw [Text.endsWith_singleton, hlast]
        rfl
      rw [bareCode_of_getLast? hlast]

theorem getLast?_of_isTerminated {target : Profile} (h : isTerminated target line) :
    (target.codeOf line).getLast? = some ';' := by
  have hends : Text.endsWith (target.codeOf line) [';'] := (Bool.and_eq_true_iff.1 h).1
  rwa [Text.endsWith_singleton, beq_iff_eq] at hends

theorem opensByColon_of_isTerminated {target : Profile} (h : isTerminated target line) :
    opensByColon (target.codeOf line) = false := by
  rw [opensByColon, Text.endsWith_singleton, getLast?_of_isTerminated h]
  rfl

/-- A line is a header after its terminators are gone if it was one, or hid one behind them. -/
theorem endsInColon_dropTerminator (line : Text) :
    endsInColon Language.python.profile (dropTerminator Language.python.profile line)
      = (endsInColon Language.python.profile line
        || hidesColon Language.python.profile line) := by
  rw [endsInColon_eq, endsInColon_eq, codeOf_dropTerminator, hidesColon]
  split
  · rename_i hterminated
    have hnot := opensByColon_of_isTerminated hterminated
    rw [hterminated, hnot, Bool.true_and, Bool.false_or]
  · rename_i hterminated
    simp [hterminated]

theorem fillsBlocks_dropTerminator (lines : List Text) :
    fillsBlocks (endsInColon Language.python.profile) (isCodeLine Language.python.profile)
        (lines.map (dropTerminator Language.python.profile))
      = (fillsBlocks (endsInColon Language.python.profile) (hasStatement Language.python.profile)
          lines
        && fillsBlocks (hidesColon Language.python.profile) (hasStatement Language.python.profile)
          lines) := by
  have hwidth : ∀ line, isCodeLine Language.python.profile
      (dropTerminator Language.python.profile line) →
      Text.width (dropTerminator Language.python.profile line) = Text.width line := by
    intro line hline
    rw [isCodeLine_dropTerminator, hasStatement, Bool.not_eq_true', List.isEmpty_eq_false_iff]
      at hline
    exact width_dropTerminator hline
  have hopens : ∀ line, endsInColon Language.python.profile
      (dropTerminator Language.python.profile line) →
      isCodeLine Language.python.profile (dropTerminator Language.python.profile line) :=
    fun line hline ↦ (Bool.and_eq_true_iff.1 hline).1
  rw [fillsBlocks_map hwidth hopens, ← fillsBlocks_or]
  congr 1
  · funext line
    exact endsInColon_dropTerminator line
  · funext line
    exact isCodeLine_dropTerminator line

end Code

/-! ## What a step writes -/

section Steps

variable {line rest text : Text} {lines : List Text} {closed left stack after : List Frame}

theorem codeOf_indentAt_append (target : Language) (depth : Nat) (rest : Text) :
    target.profile.codeOf (target.profile.indentAt depth ++ rest) = target.profile.codeOf rest := by
  rw [← target.codeOf_trim, Text.trim_append_of_blank fun c hc ↦ isBlank_of_mem_indentAt hc,
    target.codeOf_trim]

theorem width_indentAt_append (target : Language) (depth : Nat) {c : Char}
    (hc : isBlank c = false) (rest : Text) :
    Text.width (target.profile.indentAt depth ++ c :: rest)
      = (target.profile.indentAt depth).length := by
  rw [Text.width, Text.indentation_append_cons (fun c hc ↦ isBlank_of_mem_indentAt hc) hc]

theorem length_indentAt_mono {target : Profile} {depth deeper : Nat} (h : depth ≤ deeper) :
    (target.indentAt depth).length ≤ (target.indentAt deeper).length := by
  rw [length_indentAt, length_indentAt]
  exact Nat.mul_le_mul_right _ h

theorem length_indentAt_lt (depth : Nat) :
    (Language.python.profile.indentAt depth).length
      < (Language.python.profile.indentAt (depth + 1)).length := by
  have hunit : Language.python.profile.indentUnit.length = 4 := rfl
  rw [length_indentAt, length_indentAt, hunit]
  omega

/-- Only the statement that does nothing is written while frames are closed. -/
theorem exists_of_mem_closing {target : Profile} (h : text ∈ closing target closed left) :
    ∃ depth, text = target.indentAt depth ++ "pass" ∧ depth ≤ closed.length + left.length := by
  induction closed with
  | nil => exact absurd h List.not_mem_nil
  | cons frame closed ih =>
    rw [closing, List.mem_append] at h
    rcases h with h | h
    · cases frame with
      | literal => exact absurd h List.not_mem_nil
      | block opened hasBody =>
        cases hasBody with
        | true => exact absurd h List.not_mem_nil
        | false =>
          refine ⟨closed.length + left.length + 1, List.mem_singleton.1 h, ?_⟩
          rw [List.length_cons]
          omega
    · obtain ⟨depth, htext, hdepth⟩ := ih h
      exact ⟨depth, htext, by rw [List.length_cons]; omega⟩

/-- A line that is written is empty, or it stands at a whole number of units and is the end of a
line or the statement that does nothing. -/
theorem exists_of_mem_indentFrom (target : Language) (stack : List Frame) (lines : List Text) :
    ∀ text ∈ indentFrom target.profile stack lines,
      text = [] ∨ ∃ depth rest, text = target.profile.indentAt depth ++ rest
        ∧ (∀ c ∈ rest.head?, isBlank c = false)
        ∧ (rest = "pass" ∨ ∃ line ∈ lines, rest <:+ Text.trim line) := by
  have hfiller : ∀ c ∈ ("pass" : Text).head?, isBlank c = false := by
    intro c hc
    obtain rfl : 'p' = c := Option.some.inj hc
    rfl
  induction lines generalizing stack with
  | nil =>
    intro text htext
    rw [indentFrom, closeFrames_eq_closing] at htext
    obtain ⟨depth, rfl, -⟩ := exists_of_mem_closing htext
    exact .inr ⟨depth, "pass", rfl, hfiller, .inl rfl⟩
  | cons line lines ih =>
    obtain ⟨written, after, hstep, hindent⟩ := exists_step target stack line
    rw [hindent]
    refine List.forall_mem_append.2 ⟨fun text htext ↦ ?_, fun text htext ↦ ?_⟩
    · cases hstep with
      | silent hsilent hwritten =>
        rcases hwritten with rfl | rfl
        · exact .inl (List.mem_singleton.1 htext)
        · exact .inr ⟨stack.length, Text.trim line, List.mem_singleton.1 htext,
            fun c hc ↦ Text.isBlank_of_mem_head?_trim hc,
            .inr ⟨line, List.mem_cons_self, List.suffix_rfl⟩⟩
      | dropped =>
        obtain ⟨depth, rfl, -⟩ := exists_of_mem_closing htext
        exact .inr ⟨depth, "pass", rfl, hfiller, .inl rfl⟩
      | @placed closed left _ rest hcode hwhole hink hsuffix =>
        rcases List.mem_append.1 htext with htext | htext
        · obtain ⟨depth, rfl, -⟩ := exists_of_mem_closing htext
          exact .inr ⟨depth, "pass", rfl, hfiller, .inl rfl⟩
        · obtain ⟨c, t, rfl, hc⟩ := hink
          exact .inr ⟨left.length, c :: t, List.mem_singleton.1 htext, by simpa using hc,
            .inr ⟨line, List.mem_cons_self, hsuffix⟩⟩
    · rcases ih after text htext with hnil | ⟨depth, rest, htext, hink, hrest⟩
      · exact .inl hnil
      refine .inr ⟨depth, rest, htext, hink, ?_⟩
      rcases hrest with hfill | ⟨own, hown, hsuffix⟩
      · exact .inl hfill
      · exact .inr ⟨own, List.mem_cons_of_mem line hown, hsuffix⟩

theorem fillsBlocks_closing_append (closed left : List Frame) (opens counts : Text → Bool)
    (hopens : ∀ depth, opens (Language.python.profile.indentAt depth ++ "pass") = false)
    (lines : List Text) :
    fillsBlocks opens counts (closing Language.python.profile closed left ++ lines)
      = fillsBlocks opens counts lines := by
  apply fillsBlocks_append
  intro text htext
  obtain ⟨depth, rfl, -⟩ := exists_of_mem_closing htext
  exact hopens depth

theorem endsInColon_filler (depth : Nat) :
    endsInColon Language.python.profile (Language.python.profile.indentAt depth ++ "pass")
      = false := by
  rw [endsInColon_eq, codeOf_indentAt_append]
  decide

theorem hidesColon_filler (depth : Nat) :
    hidesColon Language.python.profile (Language.python.profile.indentAt depth ++ "pass")
      = false := by
  rw [hidesColon, isTerminated, codeOf_indentAt_append]
  have hcode : Text.endsWith (Language.python.profile.codeOf "pass") ";" = false := by decide
  rw [hcode]
  rfl

theorem isCodeLine_filler (depth : Nat) :
    isCodeLine Language.python.profile (Language.python.profile.indentAt depth ++ "pass") := by
  rw [isCodeLine_iff_codeOf_ne_nil, codeOf_indentAt_append]
  decide

theorem width_filler (depth : Nat) :
    Text.width (Language.python.profile.indentAt depth ++ "pass")
      = (Language.python.profile.indentAt depth).length :=
  width_indentAt_append .python depth (by decide) ("ass" : Text)

theorem width_le_of_mem_closing (h : text ∈ closing Language.python.profile closed left) :
    Text.width text
      ≤ (Language.python.profile.indentAt (closed ++ left).length).length := by
  obtain ⟨depth, rfl, hdepth⟩ := exists_of_mem_closing h
  rw [width_filler, List.length_append]
  exact length_indentAt_mono hdepth

/-- A line whose code ends in a terminator opens nothing. -/
theorem eq_markBody_of_getLast? {width : Nat}
    (h : ∀ c ∈ (Language.python.profile.codeOf rest).getLast?, c = ';')
    (hafter : after = openFrame Language.python.profile width
        (Language.python.profile.codeOf rest) (markBody left)
      ∨ Text.startsWith rest ['}'] ∧ after = markBody left) :
    after = markBody left := by
  have hends {c : Char} (hc : c ≠ ';') :
      Text.endsWith (Language.python.profile.codeOf rest) [c] = false := by
    rw [Text.endsWith_singleton, beq_eq_false_iff_ne]
    exact fun hlast ↦ hc (h c hlast)
  have hopens :
      Language.python.profile.opensBlock (Language.python.profile.codeOf rest) = false := by
    rw [Bool.eq_false_iff, ne_eq, opensBlock_codeOf_iff, hends (by decide)]
    exact Bool.false_ne_true
  rcases hafter with hafter | ⟨-, hafter⟩
  · rw [hafter, openFrame, hopens, hends (by decide)]
    rfl
  · exact hafter

/-- A header that is written opens a block. -/
theorem eq_block_of_endsInColon {depth width : Nat}
    (h : endsInColon Language.python.profile (Language.python.profile.indentAt depth ++ rest))
    (hafter : after = openFrame Language.python.profile width
        (Language.python.profile.codeOf rest) (markBody left)
      ∨ Text.startsWith rest ['}'] ∧ after = markBody left) :
    after = .block width false :: markBody left := by
  rw [endsInColon_eq, codeOf_indentAt_append, opensByColon, Bool.and_eq_true,
    Bool.not_eq_true'] at h
  obtain ⟨hcolon, hbrace⟩ := h
  rcases hafter with hafter | ⟨hstart, -⟩
  · rw [hafter, openFrame, if_pos (opensBlock_codeOf_iff.2 hcolon)]
  · obtain ⟨t, rfl⟩ := List.isPrefixOf_iff_prefix.1 hstart
    have htrim := Language.python.startsWith_trim_of_codeOf
      (Language.python.isNeutral_of_notMem (by decide)) (by decide) hbrace
    rw [List.singleton_append, Text.trim_cons (by decide)] at htrim
    exact absurd htrim (by simp [Text.startsWith])

/-- An open block without a body is followed by a deeper line: the first line that it gets, or the
statement that does nothing when it is closed. -/
theorem find?_closing_any {opened : Nat} {outer : List Frame} (hne : closed ≠ [])
    (hstack : closed ++ left = .block opened false :: outer) (lines : List Text) :
    ((closing Language.python.profile closed left ++ lines).find?
        (isCodeLine Language.python.profile)).any
      ((Language.python.profile.indentAt outer.length).length < Text.width ·) := by
  obtain ⟨frame, closed, rfl⟩ := List.exists_cons_of_ne_nil hne
  rw [List.cons_append] at hstack
  obtain ⟨rfl, rfl⟩ := List.cons.inj hstack
  rw [closing, frameEnd, List.singleton_append, List.cons_append,
    List.find?_cons_of_pos (isCodeLine_filler _), Option.any_some, width_filler,
    List.length_append]
  exact decide_eq_true (length_indentAt_lt _)

/-- A line of code that is placed in a block is deeper than the frames around the block. -/
theorem find?_placed_any {c : Char} {t : Text} (hc : isBlank c = false)
    (hcode : isCodeLine Language.python.profile (c :: t)) (depth : Nat) (lines : List Text) :
    (((Language.python.profile.indentAt (depth + 1) ++ c :: t) :: lines).find?
        (isCodeLine Language.python.profile)).any
      ((Language.python.profile.indentAt depth).length < Text.width ·) := by
  have hplaced : isCodeLine Language.python.profile
      (Language.python.profile.indentAt (depth + 1) ++ c :: t) := by
    rw [isCodeLine_iff_codeOf_ne_nil] at hcode ⊢
    rwa [codeOf_indentAt_append]
  rw [List.find?_cons_of_pos hplaced, Option.any_some, width_indentAt_append .python _ hc]
  exact decide_eq_true (length_indentAt_lt depth)

end Steps

/-! ## Indented programs -/

/-- Indenting leaves no block empty, and a block without a body gets one from what follows. -/
theorem fillsBlocks_indentFrom (stack : List Frame) (lines : List Text) :
    fillsBlocks (endsInColon Language.python.profile) (isCodeLine Language.python.profile)
        (indentFrom Language.python.profile stack lines)
      ∧ ∀ opened outer, stack = .block opened false :: outer →
        ((indentFrom Language.python.profile stack lines).find?
            (isCodeLine Language.python.profile)).any
          ((Language.python.profile.indentAt outer.length).length < Text.width ·) := by
  induction lines generalizing stack with
  | nil =>
    rw [indentFrom, closeFrames_eq_closing, ← List.append_nil (closing _ _ _)]
    refine ⟨?_, ?_⟩
    · rw [fillsBlocks_closing_append _ _ _ _ endsInColon_filler]
      rfl
    · rintro opened outer rfl
      exact find?_closing_any (List.cons_ne_nil _ _) (List.append_nil _) []
  | cons line lines ih =>
    obtain ⟨written, after, hstep, hindent⟩ := exists_step .python stack line
    rw [hindent]
    cases hstep with
    | @silent _ text hsilent =>
      refine ⟨?_, fun opened outer hstack ↦ ?_⟩
      · rw [List.singleton_append, fillsBlocks, endsInColon, hsilent]
        exact (ih stack).1
      · rw [List.singleton_append, List.find?_cons_of_neg (by simp [hsilent])]
        exact (ih stack).2 opened outer hstack
    | @dropped closed =>
      refine ⟨?_, fun opened outer hstack ↦ ?_⟩
      · rw [fillsBlocks_closing_append _ _ _ _ endsInColon_filler]
        exact (ih after).1
      · by_cases hclosed : closed = []
        · subst hclosed
          exact (ih after).2 opened outer hstack
        · exact find?_closing_any hclosed hstack _
    | @placed closed left _ rest hcode hwhole hink hsuffix hafter =>
      obtain ⟨c, t, rfl, hc⟩ := hink
      rw [List.append_assoc, List.singleton_append]
      refine ⟨?_, fun opened outer hstack ↦ ?_⟩
      · rw [fillsBlocks_closing_append _ _ _ _ endsInColon_filler, fillsBlocks, (ih after).1,
          Bool.and_true, width_indentAt_append .python left.length hc]
        cases hcolon : endsInColon Language.python.profile
          (Language.python.profile.indentAt left.length ++ c :: t) with
        | false => rfl
        | true =>
          have hnext := (ih after).2 _ _ (eq_block_of_endsInColon hcolon hafter)
          rwa [length_markBody] at hnext
      · by_cases hclosed : closed = []
        · subst hclosed
          have hdepth : left.length = outer.length + 1 := by
            rw [List.nil_append] at hstack
            rw [hstack, List.length_cons]
          have hwritten : isCodeLine Language.python.profile (c :: t) := by
            rw [isCodeLine_iff_codeOf_ne_nil] at hcode ⊢
            rwa [hwhole rfl, Language.codeOf_trim]
          rw [closing, List.nil_append, hdepth]
          exact find?_placed_any hc hwritten outer.length _
        · exact find?_closing_any hclosed hstack _

/-- The next line that is more than terminators is no deeper than the open frames. -/
theorem width_le_of_mem_indentFrom (stack : List Frame) (lines : List Text) :
    ∀ next ∈ (indentFrom Language.python.profile stack lines).find?
        (hasStatement Language.python.profile),
      Text.width next ≤ (Language.python.profile.indentAt stack.length).length := by
  induction lines generalizing stack with
  | nil =>
    intro next hnext
    rw [indentFrom, closeFrames_eq_closing] at hnext
    have hle := width_le_of_mem_closing (List.mem_of_find?_eq_some hnext)
    rwa [List.append_nil] at hle
  | cons line lines ih =>
    obtain ⟨written, after, hstep, hindent⟩ := exists_step .python stack line
    rw [hindent]
    intro next hnext
    rw [Option.mem_def, List.find?_append, Option.or_eq_some_iff] at hnext
    cases hstep with
    | @silent _ text hsilent =>
      rcases hnext with hnext | ⟨-, hnext⟩
      · have hstatement := List.find?_some hnext
        rw [List.mem_singleton.1 (List.mem_of_find?_eq_some hnext), hasStatement, bareCode,
          codeOf_eq_nil hsilent] at hstatement
        exact absurd hstatement (by decide)
      · exact ih stack next hnext
    | @dropped closed =>
      rcases hnext with hnext | ⟨-, hnext⟩
      · exact width_le_of_mem_closing (List.mem_of_find?_eq_some hnext)
      · refine (ih after next hnext).trans (length_indentAt_mono ?_)
        rw [List.length_append]
        omega
    | @placed closed left _ rest hcode hwhole hink hsuffix hafter =>
      obtain ⟨c, t, rfl, hc⟩ := hink
      have hleft : (Language.python.profile.indentAt left.length).length
          ≤ (Language.python.profile.indentAt (closed ++ left).length).length := by
        apply length_indentAt_mono
        rw [List.length_append]
        omega
      rcases hnext with hnext | ⟨hnone, hnext⟩
      · rcases List.mem_append.1 (List.mem_of_find?_eq_some hnext) with hnext | hnext
        · exact width_le_of_mem_closing hnext
        · rwa [List.mem_singleton.1 hnext, width_indentAt_append .python left.length hc]
      · -- A line of terminators opens nothing, so the search goes on with the same frames.
        have hbare : bareCode Language.python.profile (c :: t) = [] := by
          have hplaced := List.find?_eq_none.1 hnone _ (List.mem_append_right _ List.mem_cons_self)
          rw [hasStatement, bareCode, codeOf_indentAt_append, ← bareCode] at hplaced
          simpa using hplaced
        have hlast := getLast?_codeOf_of_bareCode hbare
        have hle := ih after next hnext
        rw [eq_markBody_of_getLast? hlast hafter, length_markBody] at hle
        exact hle.trans hleft

/-- A colon that terminators hide comes out above no deeper line, so none may be hidden. -/
theorem hidesColon_of_fillsBlocks (stack : List Frame) (lines : List Text)
    (hfills : fillsBlocks (hidesColon Language.python.profile)
      (hasStatement Language.python.profile) (indentFrom Language.python.profile stack lines)) :
    ∀ line ∈ indentFrom Language.python.profile stack lines,
      hidesColon Language.python.profile line = false := by
  have hclosing {closed left : List Frame} :
      ∀ line ∈ closing Language.python.profile closed left,
        hidesColon Language.python.profile line = false := by
    intro line hline
    obtain ⟨depth, rfl, -⟩ := exists_of_mem_closing hline
    exact hidesColon_filler depth
  induction lines generalizing stack with
  | nil =>
    rw [indentFrom, closeFrames_eq_closing]
    exact hclosing
  | cons line lines ih =>
    obtain ⟨written, after, hstep, hindent⟩ := exists_step .python stack line
    rw [hindent] at hfills ⊢
    cases hstep with
    | @silent _ text hsilent =>
      have htext : hidesColon Language.python.profile text = false := by
        rw [hidesColon, isTerminated, codeOf_eq_nil hsilent]
        rfl
      rw [fillsBlocks_append (by simpa using htext)] at hfills
      exact List.forall_mem_append.2 ⟨by simpa using htext, ih stack hfills⟩
    | @dropped closed =>
      rw [fillsBlocks_append hclosing] at hfills
      exact List.forall_mem_append.2 ⟨hclosing, ih after hfills⟩
    | @placed closed left _ rest hcode hwhole hink hsuffix hafter =>
      obtain ⟨c, t, rfl, hc⟩ := hink
      rw [List.append_assoc, List.singleton_append] at hfills ⊢
      rw [fillsBlocks_append hclosing, fillsBlocks, Bool.and_eq_true, Bool.or_eq_true,
        Bool.not_eq_true', width_indentAt_append .python left.length hc] at hfills
      obtain ⟨hplaced, hfills⟩ := hfills
      refine List.forall_mem_append.2 ⟨hclosing, List.forall_mem_cons.2 ⟨?_, ih after hfills⟩⟩
      by_contra hhides
      rw [Bool.not_eq_false] at hhides
      have hnext := hplaced.resolve_left (by simp [hhides])
      obtain ⟨next, hfind, hdeeper⟩ := (Option.any_eq_true _ _).1 hnext
      have hlast := getLast?_of_isTerminated (Bool.and_eq_true_iff.1 hhides).1
      rw [codeOf_indentAt_append] at hlast
      have hle := width_le_of_mem_indentFrom after lines next hfind
      rw [eq_markBody_of_getLast? (by simp [hlast]) hafter, length_markBody] at hle
      exact absurd (of_decide_eq_true hdeeper) (by omega)

/-! ## Finished programs -/

theorem newline_notMem_of_mem_indentFrom {stack : List Frame} {lines : List Text}
    (hlines : ∀ line ∈ lines, '\n' ∉ line) :
    ∀ line ∈ indentFrom Language.python.profile stack lines, '\n' ∉ line := by
  intro text htext
  rcases exists_of_mem_indentFrom .python stack lines text htext with
    rfl | ⟨depth, rest, rfl, -, hrest⟩
  · exact List.not_mem_nil
  have hindent : '\n' ∉ Language.python.profile.indentAt depth := by
    simp [Profile.indentAt, Language.python.isSingleLine_profile.indentUnit]
  rw [List.mem_append, not_or]
  refine ⟨hindent, ?_⟩
  rcases hrest with rfl | ⟨line, hline, hsuffix⟩
  · decide
  · exact fun h ↦ hlines line hline (Text.mem_of_mem_trim (hsuffix.subset h))

/-- By indentation a program is finished in three passes. -/
theorem finishLines_eq_map_dropTerminator (source? : Option Profile) (closeByIndent : Bool)
    (lines : List Text) :
    finishLines Language.python.profile source? closeByIndent lines
      = (relevel Language.python.profile
          (prepare Language.python.profile source? closeByIndent lines)).map
        (dropTerminator Language.python.profile) := by
  have hbraces : ¬Language.python.profile.usesBraces := by decide
  have hkeyword : Language.python.profile.blockStyle ≠ .keyword := by decide
  have htop : Language.python.profile.topLevel = none := rfl
  have hdrops : dropsTerminators Language.python.profile.language := rfl
  have hcleanup (lines : List Text) : cleanup Language.python.profile lines
      = lines.map (dropTerminator Language.python.profile) := by
    rw [cleanup, if_pos hdrops, declareTopLevel, htop]
  unfold finishLines
  dsimp only
  rw [if_neg hbraces, if_neg hkeyword, hcleanup]
  rfl

theorem relevel_eq_indentFrom (lines : List Text) :
    relevel Language.python.profile lines = indentFrom Language.python.profile [] lines :=
  if_pos rfl

/-- The lines of the finished text are those of the last pass, but for a program of which nothing
is left. -/
theorem fillsBlocks_lines_finish (source? : Option Profile) (closeByIndent : Bool) (code : Text) :
    fillsBlocks (endsInColon Language.python.profile) (isCodeLine Language.python.profile)
        (Text.lines (finish Language.python.profile source? closeByIndent code))
      = fillsBlocks (endsInColon Language.python.profile) (isCodeLine Language.python.profile)
        (finishLines Language.python.profile source? closeByIndent (Text.lines code)) := by
  have hnewline : ∀ line ∈ finishLines Language.python.profile source? closeByIndent
      (Text.lines code), '\n' ∉ line := by
    rw [finishLines_eq_map_dropTerminator, relevel_eq_indentFrom]
    refine List.forall_mem_map.2 fun line hline ↦ newline_notMem_dropTerminator ?_
    exact newline_notMem_of_mem_indentFrom (newline_notMem_of_mem_prepare
      fun line hline ↦ Text.newline_notMem_of_mem_lines hline) line hline
  rw [finish]
  cases hlines : finishLines Language.python.profile source? closeByIndent (Text.lines code) with
  | nil => rfl
  | cons line lines =>
    rw [hlines] at hnewline
    rw [Text.lines_unlines hnewline (List.cons_ne_nil line lines)]

/-- Indenting leaves no block of a program empty.  The finished program has no empty block exactly
if each block has a line that is more than terminators, and no colon is hidden behind
terminators. -/
theorem finish_fillsBlocks_iff (source? : Option Profile) (closeByIndent : Bool) (code : Text) :
    let leveled := relevel Language.python.profile
      (prepare Language.python.profile source? closeByIndent (Text.lines code))
    let finished := Text.lines (finish Language.python.profile source? closeByIndent code)
    fillsBlocks (endsInColon Language.python.profile) (isCodeLine Language.python.profile) leveled
      ∧ (fillsBlocks (endsInColon Language.python.profile) (isCodeLine Language.python.profile)
          finished
        ↔ fillsBlocks (endsInColon Language.python.profile) (hasStatement Language.python.profile)
            leveled
          ∧ ∀ line ∈ leveled, hidesColon Language.python.profile line = false) := by
  intro leveled finished
  have hleveled : leveled = indentFrom Language.python.profile []
      (prepare Language.python.profile source? closeByIndent (Text.lines code)) :=
    relevel_eq_indentFrom _
  have hhides : fillsBlocks (hidesColon Language.python.profile)
      (hasStatement Language.python.profile) leveled
        ↔ ∀ line ∈ leveled, hidesColon Language.python.profile line = false := by
    refine ⟨fun h ↦ ?_, fun h ↦ ?_⟩
    · rw [hleveled] at h ⊢
      exact hidesColon_of_fillsBlocks [] _ h
    · rw [← List.append_nil leveled, fillsBlocks_append h]
      rfl
  refine ⟨?_, ?_⟩
  · rw [hleveled]
    exact (fillsBlocks_indentFrom [] _).1
  · rw [fillsBlocks_lines_finish, finishLines_eq_map_dropTerminator, fillsBlocks_dropTerminator,
      Bool.and_eq_true, hhides]

/-- A block of terminators only is left empty. -/
theorem finish_terminators_empty :
    finish Language.python.profile none false "if x:\n  ;;" = ("if x:\n" : Text)
      ∧ fillsBlocks (endsInColon Language.python.profile) (isCodeLine Language.python.profile)
          (Text.lines (finish Language.python.profile none false "if x:\n  ;;")) = false := by
  decide +kernel

end Recast.Layout
