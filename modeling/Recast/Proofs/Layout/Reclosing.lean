import Mathlib.Data.List.DropRight
import Recast.Proofs.Layout.Finish
import Recast.Proofs.Layout.Ledger
import Recast.Proofs.Text.Trim

/-!
# Closing twice

A closer that has been written is a line of the width of its block, and takes the block over when
the lines are read again.  So a second run meets each closer with its block innermost, and comes to
the line that ended the block with the blocks that the first run had left open there.
-/

namespace Recast.Layout

/-! ## Closers as lines -/

section Closers

variable {indent : Text} {stack lines : List Text} (target : Language)

theorem effect_closer (hindent : ∀ c ∈ indent, isBlank c) :
    effect target.profile (indent ++ target.profile.closer) = .closes := by
  have hcomment := (isCodeLine_iff.1 (isCodeLine_closer target hindent)).2
  simp [effect, hcomment, codeOf_closer target hindent, continuesBlock_closer]

theorem indentation_closer (hindent : ∀ c ∈ indent, isBlank c) :
    Text.indentation (indent ++ target.profile.closer) = indent := by
  obtain ⟨c, rest, hcloser, hc⟩ : ∃ c rest, target.profile.closer = c :: rest
      ∧ isBlank c = false := by
    cases target <;> exact ⟨_, _, rfl, by decide⟩
  rw [hcloser, Text.indentation_append_cons hindent hc]

/-- A closer takes over the block that it was written for. -/
theorem closeFrom_closer (hindent : ∀ c ∈ indent, isBlank c) :
    closeFrom target.profile (indent :: stack) [] ((indent ++ target.profile.closer) :: lines)
      = (indent ++ target.profile.closer) :: closeFrom target.profile stack [] lines := by
  have hvoid := (isCodeLine_iff.1 (isCodeLine_closer target hindent)).1
  have hnot : isEnded .closes indent.length indent = false := by
    simp [isEnded, Effect.endsOwnDepth]
  have hafter : stackAfter .closes indent (indent :: stack) = stack := by
    simp [stackAfter, hnot, Effect.endsOwnDepth, Effect.reopens, dropOwn]
  rw [closeFrom_cons hvoid, effect_closer target hindent, Text.width,
    indentation_closer target hindent, hafter, List.takeWhile_cons_of_neg (by simp [hnot])]
  rfl

/-- The closers of the innermost blocks take them over one after another. -/
theorem closeFrom_closers (ended stack lines : List Text)
    (hended : ∀ indent ∈ ended, ∀ c ∈ indent, isBlank c) :
    closeFrom target.profile (ended ++ stack) []
        (ended.map (· ++ target.profile.closer) ++ lines)
      = ended.map (· ++ target.profile.closer) ++ closeFrom target.profile stack [] lines := by
  induction ended with
  | nil => rfl
  | cons indent ended ih =>
    obtain ⟨hindent, hended⟩ := List.forall_mem_cons.1 hended
    rw [List.map_cons, List.cons_append, List.cons_append, closeFrom_closer target hindent,
      ih hended, List.cons_append]

end Closers

/-! ## Two runs -/

section Runs

variable {stack blanks lines : List Text}

/-- Blank lines are held back, however many there are. -/
theorem closeFrom_blanks {target : Profile} (held : List Text)
    (hblanks : ∀ blank ∈ blanks, Text.isVoid blank) :
    closeFrom target stack held (blanks ++ lines)
      = closeFrom target stack (held ++ blanks) lines := by
  induction blanks generalizing held with
  | nil => rw [List.nil_append, List.append_nil]
  | cons blank blanks ih =>
    obtain ⟨hblank, hblanks⟩ := List.forall_mem_cons.1 hblanks
    rw [List.cons_append, closeFrom_of_isVoid hblank, ih _ hblanks, List.append_assoc]
    rfl

theorem takeWhile_dropWhile_self (p : Text → Bool) (stack : List Text) :
    (stack.dropWhile p).takeWhile p = [] := by
  have h := List.takeWhile_append_dropWhile (p := p) (l := stack.dropWhile p)
  rwa [List.dropWhile_idempotent, List.append_left_eq_self] at h

theorem stackAfter_dropWhile (effect : Effect) (indent : Text) (stack : List Text) :
    stackAfter effect indent (stack.dropWhile (isEnded effect indent.length))
      = stackAfter effect indent stack := by
  rw [stackAfter, stackAfter, List.dropWhile_idempotent]

/-- The blocks that are open after a line are opened at blanks, as they were before it. -/
theorem isBlank_of_mem_stackAfter {effect : Effect} {line : Text}
    (hstack : ∀ indent ∈ stack, ∀ c ∈ indent, isBlank c) :
    ∀ indent ∈ stackAfter effect (Text.indentation line) stack, ∀ c ∈ indent, isBlank c := by
  intro indent hindent
  rcases mem_of_mem_stackAfter hindent with rfl | hindent
  · exact fun c hc ↦ Text.isBlank_of_mem_indentation hc
  · exact hstack indent hindent

/-- What a run writes for a line it would write for it again: the closers take their blocks over,
and none is left for the line to end. -/
theorem closeFrom_step (target : Language) {line : Text} (hline : Text.isVoid line = false)
    (hstack : ∀ indent ∈ stack, ∀ c ∈ indent, isBlank c)
    (hblanks : ∀ blank ∈ blanks, Text.isVoid blank) (rest : List Text) :
    let ended := isEnded (effect target.profile line) (Text.width line)
    let closers := (stack.takeWhile ended).map (· ++ target.profile.closer)
    closeFrom target.profile stack [] (closers ++ (blanks ++ line :: rest))
      = closers ++ (blanks ++ line :: closeFrom target.profile
        (stackAfter (effect target.profile line) (Text.indentation line) stack) [] rest) := by
  intro ended closers
  have htaken : ∀ indent ∈ stack.takeWhile ended, ∀ c ∈ indent, isBlank c :=
    fun indent hindent ↦ hstack indent ((List.takeWhile_prefix ended).subset hindent)
  have hafter : stackAfter (effect target.profile line) (Text.indentation line)
      (stack.dropWhile ended)
        = stackAfter (effect target.profile line) (Text.indentation line) stack :=
    stackAfter_dropWhile _ _ _
  calc
    closeFrom target.profile stack [] (closers ++ (blanks ++ line :: rest))
      = closeFrom target.profile (stack.takeWhile ended ++ stack.dropWhile ended) []
          (closers ++ (blanks ++ line :: rest)) := by rw [List.takeWhile_append_dropWhile]
    _ = closers ++ closeFrom target.profile (stack.dropWhile ended) []
          (blanks ++ line :: rest) := closeFrom_closers target _ _ _ htaken
    _ = closers ++ closeFrom target.profile (stack.dropWhile ended) blanks (line :: rest) := by
        rw [closeFrom_blanks [] hblanks, List.nil_append]
    _ = closers ++ (blanks ++ line :: closeFrom target.profile
          (stackAfter (effect target.profile line) (Text.indentation line) stack) [] rest) := by
        rw [closeFrom_cons_of_blanks hline, takeWhile_dropWhile_self, hafter]
        rfl

/-- A run over the lines of a run from the same open blocks writes nothing new. -/
theorem closeFrom_closeFrom (target : Language)
    (hstack : ∀ indent ∈ stack, ∀ c ∈ indent, isBlank c)
    (hblanks : ∀ blank ∈ blanks, Text.isVoid blank) (lines : List Text) :
    closeFrom target.profile stack [] (closeFrom target.profile stack blanks lines)
      = closeFrom target.profile stack blanks lines := by
  induction lines generalizing stack blanks with
  | nil =>
    have hrest : closeFrom target.profile [] [] (blanks ++ []) = blanks :=
      closeFrom_blanks [] hblanks
    have hclosers := closeFrom_closers target stack [] (blanks ++ []) hstack
    rwa [hrest, List.append_nil, List.append_nil] at hclosers
  | cons line lines ih =>
    cases hline : Text.isVoid line with
    | true =>
      rw [closeFrom_of_isVoid hline]
      exact ih hstack (List.forall_mem_append.2 ⟨hblanks, by simpa using hline⟩)
    | false =>
      rw [closeFrom_cons_of_blanks hline, closeFrom_step target hline hstack hblanks,
        ih (isBlank_of_mem_stackAfter hstack) (by simp)]

end Runs

/-- Closing by indentation a second time changes nothing. -/
theorem closeBlocks_closeBlocks (target : Language) (lines : List Text) :
    closeBlocks target.profile (closeBlocks target.profile lines)
      = closeBlocks target.profile lines :=
  closeFrom_closeFrom target (by simp) (by simp) lines

end Recast.Layout
