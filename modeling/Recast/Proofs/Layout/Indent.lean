import Recast.Proofs.Layout.Finish
import Recast.Proofs.Layout.Forest
import Recast.Proofs.Text.Comment

/-!
# Indentation by the open frames

One step of the pass that writes a program by indentation: what it writes for a line, and which
frames are open after it.  A line is blank, a comment, or code.  The closers that a line of code
starts with are taken off first, and what is left of it is placed.
-/

namespace Recast.Layout

variable {target : Profile} {stack : List Frame} {line rest : Text} {lines : List Text}
  {opened width : Nat} {hasBody : Bool}

/-! ## Frames -/

@[simp]
theorem length_markBody (stack : List Frame) : (markBody stack).length = stack.length := by
  fun_cases markBody stack <;> rfl

/-- A block that has no body yet holds every line. -/
theorem dropWhile_isOutside_of_lt (h : opened < width) :
    (Frame.block opened hasBody :: stack).dropWhile (isOutside width)
      = .block opened hasBody :: stack := by
  have hinside : isOutside width (.block opened hasBody) = false := by
    cases hasBody with
    | false => rfl
    | true => simpa [isOutside] using h
  rw [List.dropWhile_cons_of_neg (by simp [hinside])]

theorem length_indentAt (target : Profile) (depth : Nat) :
    (target.indentAt depth).length = depth * target.indentUnit.length := by
  simp [Profile.indentAt]

/-! ## Blank lines and comments -/

theorem indentFrom_of_isVoid (h : Text.isVoid line) :
    indentFrom target stack (line :: lines) = [] :: indentFrom target stack lines := by
  rw [indentFrom, Text.trim_eq_nil_iff.2 h]
  rfl

theorem indentFrom_of_isCommentLine (hvoid : Text.isVoid line = false)
    (h : target.isCommentLine line) :
    indentFrom target stack (line :: lines)
      = (target.indentAt stack.length ++ Text.trim line) :: indentFrom target stack lines := by
  have hempty : (Text.trim line).isEmpty = false := by
    rw [List.isEmpty_eq_false_iff, ne_eq, Text.trim_eq_nil_iff, hvoid]
    simp
  rw [Profile.isCommentLine] at h
  simp [indentFrom, hempty, h]

/-! ## Code -/

/-- What is left of a line is dropped if it is nothing, a terminator or an opening brace. -/
def isDropped (rest : Text) : Bool :=
  rest.isEmpty || rest == ";" || rest == ['{']

/-- Of a line of code the closers are taken off, and the rest is placed or dropped. -/
theorem indentFrom_of_isCodeLine (h : isCodeLine target line) :
    let unclosed := leadingClosers target stack (Text.trim line)
    let placed := placeLine target (Text.width line) unclosed.stack unclosed.rest
    indentFrom target stack (line :: lines)
      = if isDropped unclosed.rest then unclosed.written ++ indentFrom target unclosed.stack lines
        else unclosed.written ++ placed.1 ++ indentFrom target placed.2 lines := by
  have hcomment : target.isComment (Text.trim line) = false := (isCodeLine_iff.1 h).2
  simp [indentFrom, isEmpty_trim_of_isCodeLine h, hcomment, isDropped]

theorem leadingClosers_of_not_startsWith (h : Text.startsWith rest ['}'] = false) :
    leadingClosers target stack rest = ⟨[], stack, rest⟩ := by
  fun_cases leadingClosers target stack rest with
  | case1 width hasBody stack rest => exact absurd h (by simp [Text.startsWith, List.isPrefixOf])
  | case2 => rfl

/-- A line that starts with no closer is placed as a whole. -/
theorem indentFrom_of_not_startsWith (h : isCodeLine target line)
    (hbrace : Text.startsWith (Text.trim line) ['}'] = false)
    (hkept : isDropped (Text.trim line) = false) :
    indentFrom target stack (line :: lines)
      = (placeLine target (Text.width line) stack (Text.trim line)).1
        ++ indentFrom target
          (placeLine target (Text.width line) stack (Text.trim line)).2 lines := by
  rw [indentFrom_of_isCodeLine h, leadingClosers_of_not_startsWith hbrace]
  simp [hkept]

/-- A terminator or an opening brace that has a line to itself leaves no trace. -/
theorem indentFrom_of_isDropped (h : isCodeLine target line)
    (hdropped : isDropped (Text.trim line)) :
    indentFrom target stack (line :: lines) = indentFrom target stack lines := by
  have hbrace : Text.startsWith (Text.trim line) ['}'] = false := by
    have hcases := hdropped
    simp only [isDropped, isEmpty_trim_of_isCodeLine h, Bool.false_or, Bool.or_eq_true, beq_iff_eq]
      at hcases
    rcases hcases with htrim | htrim <;> rw [htrim] <;> decide
  rw [indentFrom_of_isCodeLine h, leadingClosers_of_not_startsWith hbrace]
  simp [hdropped]

/-- A line that neither closes nor continues a block is written in the innermost frame that it is
not outside of. -/
theorem placeLine_of_not_continues (hbrace : Text.startsWith rest ['}'] = false)
    (hcontinues : target.continuesBlock (target.codeOf rest) = false) :
    placeLine target width stack rest
      = ([target.indentAt (stack.dropWhile (isOutside width)).length ++ rest],
          openFrame target width (target.codeOf rest)
            (markBody (stack.dropWhile (isOutside width)))) := by
  simp [placeLine, hbrace, hcontinues]

/-- A line that continues a block is written beside the innermost frame, which is closed. -/
theorem placeLine_of_continues (hbrace : Text.startsWith rest ['}'] = false)
    (hcontinues : target.continuesBlock (target.codeOf rest)) :
    placeLine target width stack rest
      = ((closeBranch target stack).1
            ++ [target.indentAt (closeBranch target stack).2.length ++ rest],
          openFrame target width (target.codeOf rest) (markBody (closeBranch target stack).2)) := by
  simp [placeLine, hbrace, hcontinues]

/-! ## Steps

Whatever a line does to the frames, it closes some from the top, and it may then write what is left
of it and open one more. -/

/-- What is written while frames are closed, with others open behind them. -/
def closing (target : Profile) : (closed left : List Frame) → List Text
  | [], _ => []
  | frame :: closed, left =>
    frameEnd target (closed.length + left.length) frame ++ closing target closed left

theorem closing_append (closed others left : List Frame) :
    closing target (closed ++ others) left
      = closing target closed (others ++ left) ++ closing target others left := by
  induction closed with
  | nil => rfl
  | cons frame closed ih =>
    rw [List.cons_append, closing, closing, ih, List.append_assoc, List.length_append,
      List.length_append, Nat.add_assoc]

theorem closeFrames_eq_closing (stack : List Frame) :
    closeFrames target stack = closing target stack [] := by
  induction stack with
  | nil => rfl
  | cons frame stack ih => rw [closeFrames, closing, ih, List.length_nil, Nat.add_zero]

/-- Frames that a line is outside of are closed without a word. -/
theorem closing_takeWhile_isOutside (left : List Frame) :
    closing target (stack.takeWhile (isOutside width)) left = [] := by
  induction stack with
  | nil => rfl
  | cons frame stack ih =>
    rw [List.takeWhile_cons]
    split
    · rename_i houtside
      rw [closing, ih, List.append_nil]
      fun_cases frameEnd target _ frame with
      | case1 => exact absurd houtside (by simp [isOutside])
      | case2 => rfl
    · rfl

/-- The closers of a line close frames, and what is left of it starts with ink. -/
theorem leadingClosers_spec (target : Profile) (stack : List Frame) (rest : Text)
    (hink : ∀ c ∈ rest.head?, isBlank c = false) :
    let unclosed := leadingClosers target stack rest
    ∃ closed, stack = closed ++ unclosed.stack
      ∧ unclosed.written = closing target closed unclosed.stack
      ∧ (closed = [] → unclosed.rest = rest)
      ∧ (∀ c ∈ unclosed.rest.head?, isBlank c = false) ∧ unclosed.rest <:+ rest := by
  fun_induction leadingClosers target stack rest with
  | case1 width hasBody stack rest unclosed ih =>
    have htrim : ∀ c ∈ (Text.trimStart rest).head?, isBlank c = false := by
      intro c hc
      obtain ⟨others, hrest⟩ := List.head?_eq_some_iff.1 hc
      exact Text.isBlank_of_trimStart_eq_cons hrest
    obtain ⟨closed, hstack, hwritten, -, hink, hsuffix⟩ := ih htrim
    refine ⟨.block width hasBody :: closed, congrArg (_ :: ·) hstack, ?_,
      fun h ↦ absurd h (List.cons_ne_nil _ _), hink, ?_⟩
    · rw [closing, hwritten, ← List.length_append, ← hstack]
    · exact (hsuffix.trans (List.dropWhile_suffix _)).trans (List.suffix_cons _ _)
  | case2 stack rest hnot => exact ⟨[], rfl, rfl, fun _ ↦ rfl, hink, List.suffix_rfl⟩

/-- What is left of a line is written in some frame that is left open. -/
theorem placeLine_spec (target : Profile) (width : Nat) (stack : List Frame) (rest : Text) :
    ∃ closed left, stack = closed ++ left
      ∧ (placeLine target width stack rest).1
        = closing target closed left ++ [target.indentAt left.length ++ rest]
      ∧ ((placeLine target width stack rest).2
          = openFrame target width (target.codeOf rest) (markBody left)
        ∨ Text.startsWith rest ['}'] ∧ (placeLine target width stack rest).2 = markBody left) := by
  have hbranch : ∃ closed left, stack = closed ++ left
      ∧ closeBranch target stack = (closing target closed left, left) := by
    fun_cases closeBranch target stack with
    | case1 width hasBody stack => exact ⟨[_], stack, rfl, by simp [closing]⟩
    | case2 => exact ⟨[], stack, rfl, rfl⟩
  have hfirst : ∃ closed left, stack = closed ++ left
      ∧ (if target.continuesBlock (target.codeOf rest) then closeBranch target stack
        else if Text.startsWith rest ['}'] then ([], stack)
        else ([], stack.dropWhile (isOutside width))) = (closing target closed left, left) := by
    split
    · exact hbranch
    split
    · exact ⟨[], stack, rfl, rfl⟩
    · exact ⟨stack.takeWhile (isOutside width), stack.dropWhile (isOutside width),
        List.takeWhile_append_dropWhile.symm, by rw [closing_takeWhile_isOutside]⟩
  obtain ⟨closed, left, hstack, hfirst⟩ := hfirst
  rw [placeLine]
  dsimp only
  rw [hfirst]
  dsimp only
  split
  · rename_i left hbrace
    refine ⟨closed ++ [.literal], left, by simpa using hstack, ?_, .inr ⟨hbrace, rfl⟩⟩
    rw [closing_append]
    simp [closing, frameEnd]
  · exact ⟨closed, _, hstack, rfl, .inl rfl⟩

/-- What a line writes, and the frames before and after it. -/
inductive Step (target : Profile) (line : Text) : List Frame → List Text → List Frame → Prop
  /-- A blank line or a comment is written as one. -/
  | silent {stack : List Frame} {text : Text} (hsilent : isCodeLine target text = false)
    (htext : text = [] ∨ text = target.indentAt stack.length ++ Text.trim line) :
    Step target line stack [text] stack
  /-- Nothing of the line is left behind its closers. -/
  | dropped {closed left : List Frame} : Step target line (closed ++ left)
      (closing target closed left) left
  /-- What is left of the line is written in the frames that are left open. -/
  | placed {closed left after : List Frame} {rest : Text} (hcode : isCodeLine target line)
    (hwhole : closed = [] → rest = Text.trim line) (hink : ∃ c t, rest = c :: t ∧ isBlank c = false)
    (hsuffix : rest <:+ Text.trim line)
    (hafter : after = openFrame target (Text.width line) (target.codeOf rest) (markBody left)
      ∨ Text.startsWith rest ['}'] ∧ after = markBody left) :
    Step target line (closed ++ left)
      (closing target closed left ++ [target.indentAt left.length ++ rest]) after

theorem step_of_isCodeLine {target : Profile} (h : isCodeLine target line) (stack : List Frame) :
    ∃ written after, Step target line stack written after
      ∧ ∀ lines, indentFrom target stack (line :: lines)
        = written ++ indentFrom target after lines := by
  have hink : ∀ c ∈ (Text.trim line).head?, isBlank c = false :=
    fun c hc ↦ Text.isBlank_of_mem_head?_trim hc
  obtain ⟨closed, hstack, hwritten, hwhole, hhead, hsuffix⟩ :=
    leadingClosers_spec target stack (Text.trim line) hink
  have hstep (lines : List Text) := @indentFrom_of_isCodeLine target stack line lines h
  generalize leadingClosers target stack (Text.trim line) = unclosed at *
  by_cases hdropped : isDropped unclosed.rest
  · refine ⟨unclosed.written, unclosed.stack, ?_, fun lines ↦ (hstep lines).trans (if_pos hdropped)⟩
    rw [hwritten, hstack]
    exact .dropped
  · obtain ⟨outside, left, hleft, hplaced, hafter⟩ :=
      placeLine_spec target (Text.width line) unclosed.stack unclosed.rest
    refine ⟨unclosed.written ++ (placeLine target (Text.width line) unclosed.stack unclosed.rest).1,
      (placeLine target (Text.width line) unclosed.stack unclosed.rest).2, ?_,
      fun lines ↦ (hstep lines).trans (if_neg hdropped)⟩
    have hclosing : unclosed.written
          ++ (placeLine target (Text.width line) unclosed.stack unclosed.rest).1
        = closing target (closed ++ outside) left
          ++ [target.indentAt left.length ++ unclosed.rest] := by
      rw [hwritten, hplaced, closing_append, hleft, List.append_assoc]
    have hframes : stack = closed ++ outside ++ left := by
      rw [hstack, hleft, List.append_assoc]
    have hkept : unclosed.rest ≠ [] := by
      intro hnil
      rw [hnil] at hdropped
      exact hdropped rfl
    rw [hclosing, hframes]
    refine .placed h (fun hnone ↦ hwhole (List.append_eq_nil_iff.1 hnone).1) ?_ hsuffix hafter
    obtain ⟨c, t, hrest⟩ := List.exists_cons_of_ne_nil hkept
    exact ⟨c, t, hrest, hhead c (by rw [hrest, List.head?_cons, Option.mem_some_iff])⟩

/-- Each line makes a step. -/
theorem exists_step (target : Language) (stack : List Frame) (line : Text) :
    ∃ written after, Step target.profile line stack written after
      ∧ ∀ lines, indentFrom target.profile stack (line :: lines)
        = written ++ indentFrom target.profile after lines := by
  by_cases hvoid : Text.isVoid line
  · exact ⟨[[]], stack, .silent rfl (.inl rfl), fun lines ↦ indentFrom_of_isVoid hvoid⟩
  by_cases hcomment : target.profile.isCommentLine line
  · refine ⟨[target.profile.indentAt stack.length ++ Text.trim line], stack, .silent ?_ (.inr rfl),
      fun lines ↦ indentFrom_of_isCommentLine (by simpa using hvoid) hcomment⟩
    have htrim : Text.trim (target.profile.indentAt stack.length ++ Text.trim line)
        = Text.trim line := by
      rw [Text.trim_append_of_blank fun c hc ↦ isBlank_of_mem_indentAt hc, Text.trim_trim]
    rw [isCodeLine, Profile.isCommentLine, htrim, ← Profile.isCommentLine, hcomment]
    simp
  · have hcode := isCodeLine_iff.2 ⟨by simpa using hvoid, by simpa using hcomment⟩
    exact step_of_isCodeLine hcode stack

end Recast.Layout
