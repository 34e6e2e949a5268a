import Recast.Proofs.Layout.Reclosing

/-!
# Comments and the ends of blocks

A line that is a comment as a whole ends blocks like any other line, but opens none.  Between two
lines with code the blocks that a comment ends are mostly ended by the next line with code as well,
and then the comment only says where the closers stand.  So taking the comments out before the
blocks are closed gives the same as taking them out afterwards exactly if no comment ends a block
that the next line with code would not, and none stands between blank lines and a closer.

The two runs are compared from one line with code to the next.  If what they write there differs in
length, then the line itself must be a closer, of a block that only the run with the comments has
ended; such a run meets fewer blocks and writes more lines.
-/

namespace Recast.Layout

/-- The lines that are not comments as a whole. -/
def withoutComments (target : Profile) (lines : List Text) : List Text :=
  lines.filter (!target.isCommentLine ·)

/-- Whether the next line with code puts a closer for a block; the end of the program does. -/
def endsNext (target : Profile) (indent : Text) : List Text → Bool
  | [] => true
  | line :: lines =>
    if isCodeLine target line then isEnded (effect target line) (Text.width line) indent
    else endsNext target indent lines

/-- Whether the comments leave the ends of the blocks alone, given the open blocks and whether the
line before is blank: a block that a comment ends gets its closer from the next line with code as
well, and after blank lines no closer of another block is still to come. -/
def leavesBlocks (target : Profile) : (stack : List Text) → (afterBlank : Bool) → List Text → Bool
  | _, _, [] => true
  | stack, afterBlank, line :: lines =>
    (!target.isCommentLine line || stack.all fun indent ↦
        if Text.width line ≤ indent.length then endsNext target indent lines
        else !(afterBlank && endsNext target indent lines))
      && leavesBlocks target (openAfter target stack [line]) (Text.isVoid line) lines

/-! ## Comments as lines -/

section Comments

variable {target : Language} {line indent : Text} {lines stack : List Text}

theorem isCommentLine_of_isVoid (hline : Text.isVoid line) :
    target.profile.isCommentLine line = false := by
  rw [Profile.isCommentLine, Text.trim_eq_nil_iff.2 hline]
  cases target <;> decide

theorem isVoid_of_isCommentLine (hline : target.profile.isCommentLine line) :
    Text.isVoid line = false := by
  by_contra hvoid
  rw [isCommentLine_of_isVoid (by simpa using hvoid)] at hline
  exact absurd hline (by simp)

/-- A line without code is blank or a comment, and not both. -/
theorem isCommentLine_eq_not_isVoid (hline : isCodeLine target.profile line = false) :
    target.profile.isCommentLine line = !Text.isVoid line := by
  cases hvoid : Text.isVoid line with
  | true => exact isCommentLine_of_isVoid hvoid
  | false => simpa [isCodeLine, hvoid] using hline

theorem isCommentLine_closer (hindent : ∀ c ∈ indent, isBlank c) :
    target.profile.isCommentLine (indent ++ target.profile.closer) = false :=
  (isCodeLine_iff.1 (isCodeLine_closer target hindent)).2

/-- A comment ends the blocks that are at least as deep. -/
theorem isEnded_comment {target : Profile} (hcode : isCodeLine target line = false)
    (hline : Text.isVoid line = false) (indent : Text) :
    isEnded (effect target line) (Text.width line) indent
      = decide (Text.width line ≤ indent.length) := by
  rw [isEnded_effect hline, takesOver, hcode, Bool.false_and, Bool.not_false, Bool.true_and,
    ← Bool.decide_or]
  exact decide_eq_decide.2 (by omega)

theorem Nested.stackAfter_comment {target : Profile} (h : Nested stack)
    (hcode : isCodeLine target line = false) (hline : Text.isVoid line = false) :
    stackAfter (effect target line) (Text.indentation line) stack
      = stack.filter (·.length < Text.width line) := by
  rw [h.stackAfter_eq, reopens_effect hline, isOpener, hcode]
  rfl

/-- The blocks that a line can end are those at the top of the stack. -/
theorem Nested.filter_append_filter (h : Nested stack) (width : Nat) :
    stack.filter (width ≤ ·.length) ++ stack.filter (·.length < width) = stack := by
  have hmono : ∀ inner outer : Text, outer.length < inner.length →
      decide (width ≤ outer.length) → decide (width ≤ inner.length) := by
    intro inner outer hlt houter
    have hle := of_decide_eq_true houter
    exact decide_eq_true (by omega)
  have htake := h.takeWhile_eq_filter hmono
  have hdrop := h.dropWhile_eq_filter hmono
  simp only [← decide_not, Nat.not_le] at hdrop
  rw [← htake, ← hdrop, List.takeWhile_append_dropWhile]

/-- Open blocks as a run has them: nested, and opened at blanks. -/
structure WellNested (stack : List Text) : Prop where
  nested : Nested stack
  blank : ∀ indent ∈ stack, ∀ c ∈ indent, isBlank c

theorem WellNested.filter (h : WellNested stack) (p : Text → Bool) : WellNested (stack.filter p) :=
  ⟨h.nested.filter p, fun indent hindent ↦ h.blank indent (List.mem_of_mem_filter hindent)⟩

theorem WellNested.after (h : WellNested stack) (effect : Effect) (line : Text) :
    WellNested (stackAfter effect (Text.indentation line) stack) :=
  ⟨nested_stackAfter h.nested effect _, isBlank_of_mem_stackAfter h.blank⟩

/-! ## Taking comments out -/

@[simp]
theorem withoutComments_append {target : Profile} (others : List Text) :
    withoutComments target (lines ++ others)
      = withoutComments target lines ++ withoutComments target others :=
  List.filter_append lines others

theorem withoutComments_cons {target : Profile} (hline : target.isCommentLine line = false) :
    withoutComments target (line :: lines) = line :: withoutComments target lines :=
  List.filter_cons_of_pos (by simpa using hline)

theorem withoutComments_cons_comment {target : Profile} (hline : target.isCommentLine line) :
    withoutComments target (line :: lines) = withoutComments target lines :=
  List.filter_cons_of_neg (by simpa using hline)

theorem withoutComments_blanks {blanks : List Text} (h : ∀ blank ∈ blanks, Text.isVoid blank) :
    withoutComments target.profile blanks = blanks :=
  List.filter_eq_self.2 fun blank hblank ↦ by simp [isCommentLine_of_isVoid (h blank hblank)]

theorem withoutComments_closers (h : ∀ indent ∈ stack, ∀ c ∈ indent, isBlank c) :
    withoutComments target.profile (stack.map (· ++ target.profile.closer))
      = stack.map (· ++ target.profile.closer) := by
  refine List.filter_eq_self.2 fun line hline ↦ ?_
  obtain ⟨indent, hindent, rfl⟩ := List.mem_map.1 hline
  simp [isCommentLine_closer (h indent hindent)]

/-- Of a gap only the blank lines are left. -/
theorem withoutComments_gap {gap : List Text}
    (hgap : ∀ line ∈ gap, isCodeLine target.profile line = false) :
    withoutComments target.profile gap = gap.filter Text.isVoid := by
  refine List.filter_congr fun line hline ↦ ?_
  rw [isCommentLine_eq_not_isVoid (hgap line hline), Bool.not_not]

end Comments

/-! ## Between two lines with code -/

/-- What is written between two lines with code, comments aside, if the next of them ends the given
blocks. -/
def gapWritten (target : Profile) (ended : Text → Bool) : (stack blanks gap : List Text) → List Text
  | stack, blanks, [] => (stack.filter ended).map (· ++ target.closer) ++ blanks
  | stack, blanks, line :: gap =>
    if Text.isVoid line then gapWritten target ended stack (blanks ++ [line]) gap
    else (stack.filter (Text.width line ≤ ·.length)).map (· ++ target.closer)
      ++ (blanks ++ gapWritten target ended (stack.filter (·.length < Text.width line)) [] gap)

/-- Whether the comments of a gap leave the ends of blocks alone, if the next line with code ends
the given ones. -/
def quietGap (ended : Text → Bool) : (stack : List Text) → (afterBlank : Bool) → List Text → Bool
  | _, _, [] => true
  | stack, afterBlank, line :: gap =>
    if Text.isVoid line then quietGap ended stack true gap
    else (stack.all fun indent ↦
        if Text.width line ≤ indent.length then ended indent else !(afterBlank && ended indent))
      && quietGap ended (stack.filter (·.length < Text.width line)) false gap

section Gap

variable {target : Language} {ended : Text → Bool} {stack blanks gap rest : List Text}

/-- A run writes what the gap asks for, and goes on with the blocks that the comments have left. -/
theorem withoutComments_closeFrom_gap {after : List Text → List Text}
    (hafter : ∀ stack blanks, WellNested stack → (∀ blank ∈ blanks, Text.isVoid blank) →
      withoutComments target.profile (closeFrom target.profile stack blanks rest)
        = (stack.filter ended).map (· ++ target.profile.closer) ++ blanks ++ after stack)
    (hstack : WellNested stack) (hblanks : ∀ blank ∈ blanks, Text.isVoid blank)
    (hgap : ∀ line ∈ gap, isCodeLine target.profile line = false) :
    withoutComments target.profile (closeFrom target.profile stack blanks (gap ++ rest))
      = gapWritten target.profile ended stack blanks gap
        ++ after (openAfter target.profile stack gap) := by
  induction gap generalizing stack blanks with
  | nil => exact hafter stack blanks hstack hblanks
  | cons line gap ih =>
    obtain ⟨hcode, hgap⟩ := List.forall_mem_cons.1 hgap
    have hcomment := isCommentLine_eq_not_isVoid hcode
    cases hline : Text.isVoid line with
    | true =>
      rw [List.cons_append, closeFrom_of_isVoid hline, gapWritten, if_pos hline,
        openAfter_of_isVoid hline]
      exact ih hstack (List.forall_mem_append.2 ⟨hblanks, by simpa using hline⟩) hgap
    | false =>
      rw [hline] at hcomment
      have hended : isEnded (effect target.profile line) (Text.width line)
          = fun indent ↦ decide (Text.width line ≤ indent.length) :=
        funext (isEnded_comment hcode hline)
      rw [List.cons_append, hstack.nested.closeFrom_cons hline, gapWritten, if_neg (by simp [hline]),
        openAfter_cons hline, hstack.nested.stackAfter_comment hcode hline, hended,
        withoutComments_append, withoutComments_append, withoutComments_cons_comment hcomment,
        withoutComments_closers (hstack.filter _).blank, withoutComments_blanks hblanks,
        ih (hstack.filter _) (by simp) hgap]
      simp only [List.append_assoc]

theorem closeFrom_withoutComments_gap
    (hgap : ∀ line ∈ gap, isCodeLine target.profile line = false) :
    closeFrom target.profile stack [] (withoutComments target.profile (gap ++ rest))
      = closeFrom target.profile stack (gap.filter Text.isVoid)
        (withoutComments target.profile rest) := by
  rw [withoutComments_append, withoutComments_gap hgap,
    closeFrom_blanks [] fun line hline ↦ (List.mem_filter.1 hline).2, List.nil_append]

/-- Comments open no block. -/
theorem mem_of_mem_openAfter_gap {target : Profile} {indent : Text} (hstack : Nested stack)
    (hgap : ∀ line ∈ gap, isCodeLine target line = false)
    (h : indent ∈ openAfter target stack gap) : indent ∈ stack := by
  induction gap generalizing stack with
  | nil => exact h
  | cons line gap ih =>
    obtain ⟨hcode, hgap⟩ := List.forall_mem_cons.1 hgap
    cases hline : Text.isVoid line with
    | true =>
      rw [openAfter_of_isVoid hline] at h
      exact ih hstack hgap h
    | false =>
      rw [openAfter_cons hline, hstack.stackAfter_comment hcode hline] at h
      exact List.mem_of_mem_filter (ih (hstack.filter _) hgap h)

/-- The next line with code is the first behind the gap. -/
theorem endsNext_gap {target : Profile} (indent : Text)
    (hgap : ∀ line ∈ gap, isCodeLine target line = false) :
    endsNext target indent (gap ++ rest) = endsNext target indent rest := by
  induction gap with
  | nil => rfl
  | cons line gap ih =>
    obtain ⟨hline, hgap⟩ := List.forall_mem_cons.1 hgap
    rw [List.cons_append, endsNext, if_neg (by simp [hline]), ih hgap]

theorem leavesBlocks_gap {after : List Text → Bool} (afterBlank : Bool)
    (hafter : ∀ stack afterBlank, leavesBlocks target.profile stack afterBlank rest = after stack)
    (hstack : Nested stack) (hgap : ∀ line ∈ gap, isCodeLine target.profile line = false) :
    leavesBlocks target.profile stack afterBlank (gap ++ rest)
      = (quietGap (endsNext target.profile · rest) stack afterBlank gap
        && after (openAfter target.profile stack gap)) := by
  induction gap generalizing stack afterBlank with
  | nil => rw [List.nil_append, hafter, quietGap, openAfter_nil, Bool.true_and]
  | cons line gap ih =>
    obtain ⟨hcode, hgap⟩ := List.forall_mem_cons.1 hgap
    have hcomment := isCommentLine_eq_not_isVoid hcode
    rw [List.cons_append, leavesBlocks, quietGap]
    cases hline : Text.isVoid line with
    | true =>
      rw [hcomment, hline, openAfter_of_isVoid hline, openAfter_nil, openAfter_of_isVoid hline,
        ih true hstack hgap]
      rfl
    | false =>
      rw [hcomment, hline, openAfter_cons hline, openAfter_nil, openAfter_cons hline,
        hstack.stackAfter_comment hcode hline, ih false (hstack.filter _) hgap]
      simp only [endsNext_gap _ hgap, Bool.and_assoc, Bool.not_false, Bool.not_true, Bool.false_or,
        Bool.false_eq_true, if_false]

/-- Whether a condition holds of the blocks inside whenever it holds of those around. -/
def Inward (ended : Text → Bool) : Prop :=
  ∀ inner outer : Text, outer.length < inner.length → ended outer → ended inner

/-- A comment leaves the ends of blocks alone if those that it ends are all ended, and no other one
is where blank lines are held back. -/
theorem all_quiet_iff {width : Nat} {afterBlank : Bool} :
    (stack.all fun indent ↦
        if width ≤ indent.length then ended indent else !(afterBlank && ended indent))
      ↔ (∀ indent ∈ stack.filter (width ≤ ·.length), ended indent)
        ∧ (afterBlank → (stack.filter (·.length < width)).filter ended = []) := by
  simp only [List.all_eq_true, List.filter_eq_nil_iff, List.mem_filter, decide_eq_true_eq]
  constructor
  · intro h
    refine ⟨fun indent hindent ↦ ?_, fun hblank indent hindent hend ↦ ?_⟩
    · simpa [hindent.2] using h indent hindent.1
    · have hnot := h indent hindent.1
      rw [if_neg (by omega), hblank, hend] at hnot
      exact absurd hnot (by simp)
  · rintro ⟨hdeep, hnone⟩ indent hindent
    by_cases hle : width ≤ indent.length
    · rw [if_pos hle]
      exact hdeep indent ⟨hindent, hle⟩
    · rw [if_neg hle]
      cases hblank : afterBlank with
      | false => rfl
      | true => simpa using hnone hblank indent ⟨hindent, by omega⟩

theorem isVoid_closer (target : Language) {indent : Text} (hindent : ∀ c ∈ indent, isBlank c) :
    Text.isVoid (indent ++ target.profile.closer) = false :=
  (isCodeLine_iff.1 (isCodeLine_closer target hindent)).1

/-- How many lines of a text that starts with closers are not blank. -/
theorem countP_closers_append (hstack : WellNested stack) (lines : List Text) :
    (stack.map (· ++ target.profile.closer) ++ lines).countP (!Text.isVoid ·)
      = stack.length + lines.countP (!Text.isVoid ·) := by
  rw [List.countP_append, List.countP_map]
  congr 1
  exact List.countP_eq_length.2 fun indent hindent ↦ by
    simp [isVoid_closer target (hstack.blank indent hindent)]

/-- A comment that ends a block which is not to be ended puts a closer too many. -/
theorem ended_of_closers_eq {width : Nat} {written blanks : List Text} (hended : Inward ended)
    (hstack : WellNested stack) (hblanks : ∀ blank ∈ blanks, Text.isVoid blank)
    (h : (stack.filter (width ≤ ·.length)).map (· ++ target.profile.closer) ++ written
      = (stack.filter ended).map (· ++ target.profile.closer) ++ blanks) :
    ∀ indent ∈ stack.filter (width ≤ ·.length), ended indent := by
  by_contra hnot
  simp only [not_forall] at hnot
  obtain ⟨indent, hindent, hopen⟩ := hnot
  have hdeep : width ≤ indent.length := of_decide_eq_true (List.mem_filter.1 hindent).2
  have hnone : (stack.filter (·.length < width)).filter ended = [] := by
    refine List.filter_eq_nil_iff.2 fun outer houter hend ↦ hopen ?_
    have hlt := of_decide_eq_true (List.mem_filter.1 houter).2
    exact hended indent outer (by omega) hend
  have hsplit : stack.filter ended = (stack.filter (width ≤ ·.length)).filter ended := by
    conv_lhs => rw [← hstack.nested.filter_append_filter width]
    rw [List.filter_append, hnone, List.append_nil]
  have hcount := congrArg (List.countP (!Text.isVoid ·)) h
  have hfewer := List.length_filter_lt_length_iff_exists.2 ⟨indent, hindent, hopen⟩
  have hvoid : blanks.countP (!Text.isVoid ·) = 0 :=
    List.countP_eq_zero.2 fun blank hblank ↦ by simp [hblanks blank hblank]
  rw [countP_closers_append (hstack.filter _), countP_closers_append (hstack.filter _), hvoid,
    hsplit] at hcount
  omega

/-- One comment of a gap. -/
theorem closers_append_eq_iff {width : Nat} {written voids : List Text} (hended : Inward ended)
    (hstack : WellNested stack) (hblanks : ∀ blank ∈ blanks, Text.isVoid blank)
    (hvoids : ∀ blank ∈ voids, Text.isVoid blank) :
    (stack.filter (width ≤ ·.length)).map (· ++ target.profile.closer) ++ (blanks ++ written)
        = (stack.filter ended).map (· ++ target.profile.closer) ++ (blanks ++ voids)
      ↔ ((∀ indent ∈ stack.filter (width ≤ ·.length), ended indent)
          ∧ (!blanks.isEmpty → (stack.filter (·.length < width)).filter ended = []))
        ∧ written = ((stack.filter (·.length < width)).filter ended).map
          (· ++ target.profile.closer) ++ voids := by
  have hsplit (hdeep : ∀ indent ∈ stack.filter (width ≤ ·.length), ended indent) :
      stack.filter ended = stack.filter (width ≤ ·.length)
        ++ (stack.filter (·.length < width)).filter ended := by
    conv_lhs => rw [← hstack.nested.filter_append_filter width]
    rw [List.filter_append, List.filter_eq_self.2 hdeep]
  constructor
  · intro h
    have hdeep := ended_of_closers_eq hended hstack
      (List.forall_mem_append.2 ⟨hblanks, hvoids⟩) h
    rw [hsplit hdeep, List.map_append, List.append_assoc, List.append_cancel_left_eq] at h
    cases blanks with
    | nil => exact ⟨⟨hdeep, by simp⟩, h⟩
    | cons blank blanks =>
      -- A blank line is no closer, so none is left to be written.
      have hnone : (stack.filter (·.length < width)).filter ended = [] := by
        cases hleft : (stack.filter (·.length < width)).filter ended with
        | nil => rfl
        | cons indent others =>
          rw [hleft] at h
          have hmem : indent ∈ (stack.filter (·.length < width)).filter ended := by simp [hleft]
          have hcloser : blank = indent ++ target.profile.closer := (List.cons.inj h).1
          have hnot := isVoid_closer target (((hstack.filter _).filter _).blank indent hmem)
          rw [← hcloser, hblanks blank List.mem_cons_self] at hnot
          exact absurd hnot (by simp)
      rw [hnone, List.map_nil, List.nil_append, List.append_cancel_left_eq] at h
      exact ⟨⟨hdeep, fun _ ↦ hnone⟩, by rw [hnone, h]; rfl⟩
  · rintro ⟨⟨hdeep, hnone⟩, rfl⟩
    rw [hsplit hdeep, List.map_append, List.append_assoc, List.append_cancel_left_eq]
    cases blanks with
    | nil => rfl
    | cons blank blanks =>
      rw [hnone (by simp)]
      rfl

/-- What is written in a gap is what is written without its comments exactly if they leave the ends
of blocks alone. -/
theorem gapWritten_eq_iff (hended : Inward ended) (hstack : WellNested stack)
    (hblanks : ∀ blank ∈ blanks, Text.isVoid blank) :
    gapWritten target.profile ended stack blanks gap
        = (stack.filter ended).map (· ++ target.profile.closer) ++ (blanks ++ gap.filter Text.isVoid)
      ↔ quietGap ended stack (!blanks.isEmpty) gap := by
  induction gap generalizing stack blanks with
  | nil => simp [gapWritten, quietGap]
  | cons line gap ih =>
    rw [gapWritten, quietGap]
    cases hline : Text.isVoid line with
    | true =>
      have hheld : (!(blanks ++ [line]).isEmpty) = true := by simp
      have hvoid : ∀ blank ∈ blanks ++ [line], Text.isVoid blank :=
        List.forall_mem_append.2 ⟨hblanks, by simpa using hline⟩
      have hrest := ih hstack hvoid
      rw [hheld, List.append_assoc, List.singleton_append] at hrest
      rw [List.filter_cons_of_pos hline, if_pos rfl, if_pos rfl]
      exact hrest
    | false =>
      have hrest := ih (hstack.filter (·.length < Text.width line)) (List.forall_mem_nil _)
      rw [List.filter_cons_of_neg (by simp [hline]), if_neg (by simp), if_neg (by simp),
        Bool.and_eq_true, all_quiet_iff, closers_append_eq_iff hended hstack hblanks
          fun blank hblank ↦ (List.mem_filter.1 hblank).2]
      exact and_congr_right fun _ ↦ hrest

/-- What is written in a gap is blank or a closer: of a block that the next line with code ends, or
of one that a comment has ended with all those as deep. -/
theorem mem_gapWritten {line : Text} (hstack : Nested stack)
    (hblanks : ∀ blank ∈ blanks, Text.isVoid blank)
    (hgap : ∀ line ∈ gap, isCodeLine target.profile line = false)
    (h : line ∈ gapWritten target.profile ended stack blanks gap) :
    Text.isVoid line ∨ ∃ indent ∈ stack, line = indent ++ target.profile.closer
      ∧ (ended indent ∨ ∀ other ∈ openAfter target.profile stack gap,
        other.length < indent.length) := by
  induction gap generalizing stack blanks with
  | nil =>
    rcases List.mem_append.1 h with h | h
    · obtain ⟨indent, hindent, rfl⟩ := List.mem_map.1 h
      obtain ⟨hmem, hend⟩ := List.mem_filter.1 hindent
      exact .inr ⟨indent, hmem, rfl, .inl hend⟩
    · exact .inl (hblanks line h)
  | cons other gap ih =>
    obtain ⟨hcode, hgap⟩ := List.forall_mem_cons.1 hgap
    rw [gapWritten] at h
    cases hother : Text.isVoid other with
    | true =>
      rw [if_pos hother] at h
      rw [openAfter_of_isVoid hother]
      exact ih hstack (List.forall_mem_append.2 ⟨hblanks, by simpa using hother⟩) hgap h
    | false =>
      rw [if_neg (by simp [hother]), List.mem_append, List.mem_append] at h
      rw [openAfter_cons hother, hstack.stackAfter_comment hcode hother]
      rcases h with h | h | h
      · obtain ⟨indent, hindent, rfl⟩ := List.mem_map.1 h
        obtain ⟨hmem, hdeep⟩ := List.mem_filter.1 hindent
        refine .inr ⟨indent, hmem, rfl, .inr fun left hleft ↦ ?_⟩
        have hlt := (List.mem_filter.1 (mem_of_mem_openAfter_gap (hstack.filter _) hgap hleft)).2
        have hle := of_decide_eq_true hdeep
        have hless := of_decide_eq_true hlt
        omega
      · exact .inl (hblanks line h)
      · rcases ih (hstack.filter _) (by simp) hgap h with hvoid | ⟨indent, hindent, hline⟩
        · exact .inl hvoid
        · exact .inr ⟨indent, List.mem_of_mem_filter hindent, hline⟩

end Gap

/-! ## Counting lines -/

section Counting

variable {target : Language} {stack blanks gap lines : List Text}

/-- No line of a gap meets a block. -/
theorem meetings_gap {target : Profile} (hgap : ∀ line ∈ gap, isCodeLine target line = false)
    (lines : List Text) :
    meetings target stack (gap ++ lines) = meetings target (openAfter target stack gap) lines := by
  induction gap generalizing stack with
  | nil => rfl
  | cons line gap ih =>
    obtain ⟨hcode, hgap⟩ := List.forall_mem_cons.1 hgap
    rw [List.cons_append, meetings, takesOver, hcode, ih hgap]
    cases hline : Text.isVoid line with
    | true => simp [openAfter_of_isVoid hline]
    | false => simp [openAfter_cons hline]

theorem openAfter_subset (target : Profile) {others : List Text} (hstack : Nested stack)
    (hothers : Nested others) (hsubset : others ⊆ stack) (line : Text) :
    openAfter target others [line] ⊆ openAfter target stack [line] := by
  cases hline : Text.isVoid line with
  | true =>
    rw [openAfter_of_isVoid hline, openAfter_of_isVoid hline]
    exact hsubset
  | false =>
    intro indent hindent
    rw [openAfter_cons hline, openAfter_nil, hothers.stackAfter_eq, List.mem_append] at hindent
    rw [openAfter_cons hline, openAfter_nil, hstack.stackAfter_eq, List.mem_append]
    refine hindent.imp_right fun hleft ↦ ?_
    obtain ⟨hmem, hlt⟩ := List.mem_filter.1 hleft
    exact List.mem_filter.2 ⟨hsubset hmem, hlt⟩

/-- Comments may end blocks early, and then fewer are met. -/
theorem meetings_le_withoutComments (target : Language) {others : List Text}
    (hstack : Nested stack) (hothers : Nested others) (hsubset : others ⊆ stack) (lines : List Text) :
    meetings target.profile others lines
      ≤ meetings target.profile stack (withoutComments target.profile lines) := by
  induction lines generalizing stack others with
  | nil => exact Nat.le_refl 0
  | cons line lines ih =>
    cases hcomment : target.profile.isCommentLine line with
    | true =>
      have hline := isVoid_of_isCommentLine hcomment
      have hcode : isCodeLine target.profile line = false := by simp [isCodeLine, hcomment]
      rw [withoutComments_cons_comment hcomment, meetings, takesOver, hcode, Bool.false_and,
        Bool.false_and, if_neg (by simp), Nat.zero_add, openAfter_cons hline, openAfter_nil,
        hothers.stackAfter_comment hcode hline]
      exact ih hstack (hothers.filter _) fun indent hindent ↦ hsubset (List.mem_of_mem_filter hindent)
    | false =>
      rw [withoutComments_cons hcomment, meetings, meetings]
      have hmeet : (if takesOver target.profile line
            && others.any (·.length = Text.width line) then 1 else 0)
          ≤ if takesOver target.profile line
            && stack.any (·.length = Text.width line) then 1 else 0 := by
        by_cases hmet : takesOver target.profile line && others.any (·.length = Text.width line)
        · obtain ⟨hover, hany⟩ := Bool.and_eq_true_iff.1 hmet
          obtain ⟨indent, hindent, hwidth⟩ := List.any_eq_true.1 hany
          rw [if_pos hmet, if_pos (Bool.and_eq_true_iff.2
            ⟨hover, List.any_eq_true.2 ⟨indent, hsubset hindent, hwidth⟩⟩)]
        · rw [if_neg hmet]
          exact Nat.zero_le _
      have hrest := ih (nested_openAfter hstack [line]) (nested_openAfter hothers [line])
        (openAfter_subset target.profile hstack hothers hsubset line)
      omega

/-- The comments of the lines are those of what is written. -/
theorem countP_comment_closeFrom (hstack : WellNested stack)
    (hblanks : ∀ blank ∈ blanks, Text.isVoid blank) (lines : List Text) :
    (closeFrom target.profile stack blanks lines).countP target.profile.isCommentLine
      = lines.countP target.profile.isCommentLine := by
  have hclosers {stack : List Text} (hstack : WellNested stack) :
      (stack.map (· ++ target.profile.closer)).countP target.profile.isCommentLine = 0 := by
    rw [List.countP_map]
    exact List.countP_eq_zero.2 fun indent hindent ↦ by
      simp [isCommentLine_closer (hstack.blank indent hindent)]
  have hnone {blanks : List Text} (hblanks : ∀ blank ∈ blanks, Text.isVoid blank) :
      blanks.countP target.profile.isCommentLine = 0 :=
    List.countP_eq_zero.2 fun blank hblank ↦ by
      simp [isCommentLine_of_isVoid (hblanks blank hblank)]
  induction lines generalizing stack blanks with
  | nil => rw [closeFrom, List.countP_append, hclosers hstack, hnone hblanks]; rfl
  | cons line lines ih =>
    cases hline : Text.isVoid line with
    | true =>
      rw [closeFrom_of_isVoid hline, List.countP_cons, isCommentLine_of_isVoid hline]
      exact ih hstack (List.forall_mem_append.2 ⟨hblanks, by simpa using hline⟩)
    | false =>
      rw [hstack.nested.closeFrom_cons hline, List.countP_append, List.countP_append,
        hclosers (hstack.filter _), hnone hblanks, List.countP_cons, List.countP_cons,
        ih (hstack.after _ _) (by simp), Nat.zero_add, Nat.zero_add]

theorem length_withoutComments (target : Profile) (lines : List Text) :
    (withoutComments target lines).length + lines.countP target.isCommentLine = lines.length := by
  rw [withoutComments, ← List.countP_eq_length_filter, Nat.add_comm,
    List.length_eq_countP_add_countP target.isCommentLine]
  simp only [Bool.not_eq_true, Bool.decide_eq_false]

/-- Runs that write equally many lines meet equally many blocks. -/
theorem meetings_eq_of_run_eq (hstack : WellNested stack)
    (h : withoutComments target.profile (closeFrom target.profile stack [] lines)
      = closeFrom target.profile stack [] (withoutComments target.profile lines)) :
    meetings target.profile stack lines
      = meetings target.profile stack (withoutComments target.profile lines) := by
  have hopeners : (withoutComments target.profile lines).countP (isOpener target.profile)
      = lines.countP (isOpener target.profile) := by
    rw [withoutComments, List.countP_filter]
    refine List.countP_congr fun line _ ↦ ?_
    simp only [isOpener, isCodeLine, Bool.and_eq_true]
    tauto
  have hwritten := length_withoutComments target.profile (closeFrom target.profile stack [] lines)
  have hgiven := length_withoutComments target.profile lines
  have hall := hstack.nested.length_closeFrom target.profile [] lines
  have hless := hstack.nested.length_closeFrom target.profile []
    (withoutComments target.profile lines)
  rw [h, countP_comment_closeFrom hstack (List.forall_mem_nil _)] at hwritten
  rw [hopeners] at hless
  omega

end Counting

/-! ## Two runs -/

section Runs

variable {target : Language} {line : Text} {stack gap lines : List Text}

theorem inward_isEnded (effect : Effect) (width : Nat) : Inward (isEnded effect width) :=
  fun _ _ hlt ↦ isEnded_mono hlt

/-- A closer does not end the block that it takes over. -/
theorem isEnded_effect_closer {indent : Text} (hindent : ∀ c ∈ indent, isBlank c) :
    isEnded (effect target.profile (indent ++ target.profile.closer))
      (Text.width (indent ++ target.profile.closer)) indent = false := by
  rw [effect_closer target hindent, Text.width, indentation_closer target hindent]
  simp [isEnded, Effect.endsOwnDepth]

/-- What a run writes from a line with code on. -/
theorem withoutComments_closeFrom_cons (hcode : isCodeLine target.profile line)
    (hstack : WellNested stack) {blanks : List Text} (hblanks : ∀ blank ∈ blanks, Text.isVoid blank)
    (lines : List Text) :
    withoutComments target.profile (closeFrom target.profile stack blanks (line :: lines))
      = (stack.filter (isEnded (effect target.profile line) (Text.width line))).map
          (· ++ target.profile.closer) ++ blanks
        ++ line :: withoutComments target.profile (closeFrom target.profile
          (stackAfter (effect target.profile line) (Text.indentation line) stack) [] lines) := by
  obtain ⟨hline, hcomment⟩ := isCodeLine_iff.1 hcode
  rw [hstack.nested.closeFrom_cons hline, withoutComments_append, withoutComments_append,
    withoutComments_closers (hstack.filter _).blank, withoutComments_blanks hblanks,
    withoutComments_cons hcomment, List.append_assoc]

/-- The run over all lines, from one line with code to the next. -/
theorem withoutComments_closeFrom_gap_cons (hcode : isCodeLine target.profile line)
    (hstack : WellNested stack) (hgap : ∀ line ∈ gap, isCodeLine target.profile line = false)
    (lines : List Text) :
    withoutComments target.profile (closeFrom target.profile stack [] (gap ++ line :: lines))
      = gapWritten target.profile (isEnded (effect target.profile line) (Text.width line)) stack []
          gap
        ++ line :: withoutComments target.profile (closeFrom target.profile
          (stackAfter (effect target.profile line) (Text.indentation line)
            (openAfter target.profile stack gap)) [] lines) :=
  withoutComments_closeFrom_gap
    (fun _ _ hstack hblanks ↦ withoutComments_closeFrom_cons hcode hstack hblanks lines)
    hstack (List.forall_mem_nil _) hgap

/-- The run over the lines without comments. -/
theorem closeFrom_withoutComments_gap_cons (hcode : isCodeLine target.profile line)
    (hstack : WellNested stack) (hgap : ∀ line ∈ gap, isCodeLine target.profile line = false)
    (lines : List Text) :
    closeFrom target.profile stack [] (withoutComments target.profile (gap ++ line :: lines))
      = (stack.filter (isEnded (effect target.profile line) (Text.width line))).map
          (· ++ target.profile.closer) ++ gap.filter Text.isVoid
        ++ line :: closeFrom target.profile
          (stackAfter (effect target.profile line) (Text.indentation line) stack) []
          (withoutComments target.profile lines) := by
  obtain ⟨hline, hcomment⟩ := isCodeLine_iff.1 hcode
  rw [closeFrom_withoutComments_gap hgap, withoutComments_cons hcomment,
    hstack.nested.closeFrom_cons hline, List.append_assoc]

theorem openAfter_blanks {target : Profile} {blanks : List Text}
    (hblanks : ∀ blank ∈ blanks, Text.isVoid blank) : openAfter target stack blanks = stack := by
  have hnone : blanks.filter (!Text.isVoid ·) = [] :=
    List.filter_eq_nil_iff.2 fun blank hblank ↦ by simp [hblanks blank hblank]
  rw [openAfter, hnone, List.foldl_nil]

/-- A block that only a comment has ended is met by its closer in one of the runs alone. -/
theorem meetings_lt_of_closer {indent : Text} (hstack : WellNested stack)
    (hgap : ∀ line ∈ gap, isCodeLine target.profile line = false) (hindent : indent ∈ stack)
    (hleft : ∀ other ∈ openAfter target.profile stack gap, other.length < indent.length)
    (lines : List Text) :
    meetings target.profile stack (gap ++ (indent ++ target.profile.closer) :: lines)
      < meetings target.profile stack
        (withoutComments target.profile (gap ++ (indent ++ target.profile.closer) :: lines)) := by
  have hblank := hstack.blank indent hindent
  obtain ⟨hline, hcomment⟩ := isCodeLine_iff.1 (isCodeLine_closer target hblank)
  have hwidth : Text.width (indent ++ target.profile.closer) = indent.length := by
    rw [Text.width, indentation_closer target hblank]
  have hover : takesOver target.profile (indent ++ target.profile.closer) := by
    have hown : (effect target.profile (indent ++ target.profile.closer)).endsOwnDepth
        = !takesOver target.profile (indent ++ target.profile.closer) := endsOwnDepth_effect hline
    rw [effect_closer target hblank] at hown
    simpa [Effect.endsOwnDepth] using hown.symm
  have hvoids : ∀ blank ∈ gap.filter Text.isVoid, Text.isVoid blank :=
    fun blank hblank ↦ (List.mem_filter.1 hblank).2
  have hnested : Nested (openAfter target.profile stack gap) := nested_openAfter hstack.nested gap
  have hsubset : openAfter target.profile stack gap ⊆ stack :=
    fun other hother ↦ mem_of_mem_openAfter_gap hstack.nested hgap hother
  generalize indent ++ target.profile.closer = line at *
  have hnone : (openAfter target.profile stack gap).any (·.length = Text.width line) = false := by
    refine List.any_eq_false.2 fun other hother ↦ ?_
    have hlt := hleft other hother
    simp only [decide_eq_true_eq]
    omega
  have hmet : stack.any (·.length = Text.width line) :=
    List.any_eq_true.2 ⟨indent, hindent, decide_eq_true hwidth.symm⟩
  have hrest := meetings_le_withoutComments target (nested_openAfter hstack.nested [line])
    (nested_openAfter hnested [line])
    (openAfter_subset target.profile hstack.nested hnested hsubset line) lines
  rw [withoutComments_append, withoutComments_gap hgap, withoutComments_cons hcomment,
    meetings_gap hgap, meetings_gap fun blank hblank ↦ by simp [isCodeLine, hvoids blank hblank],
    openAfter_blanks hvoids, meetings, meetings, hover, hnone, hmet]
  simp only [Bool.and_false, Bool.and_true, Bool.false_eq_true, reduceIte]
  omega

/-- Where both runs write the same, they do so from one line with code to the next. -/
theorem gapWritten_eq_of_run_eq (hcode : isCodeLine target.profile line)
    (hstack : WellNested stack) (hgap : ∀ line ∈ gap, isCodeLine target.profile line = false)
    (h : withoutComments target.profile (closeFrom target.profile stack [] (gap ++ line :: lines))
      = closeFrom target.profile stack []
        (withoutComments target.profile (gap ++ line :: lines))) :
    gapWritten target.profile (isEnded (effect target.profile line) (Text.width line)) stack [] gap
      = (stack.filter (isEnded (effect target.profile line) (Text.width line))).map
          (· ++ target.profile.closer) ++ gap.filter Text.isVoid := by
  have hline := (isCodeLine_iff.1 hcode).1
  have hmeetings := meetings_eq_of_run_eq hstack h
  have hnot {indent : Text} (hindent : indent ∈ stack)
      (hcloser : line = indent ++ target.profile.closer)
      (hended : isEnded (effect target.profile line) (Text.width line) indent) : False := by
    rw [hcloser, isEnded_effect_closer (hstack.blank indent hindent)] at hended
    exact absurd hended (by simp)
  rw [withoutComments_closeFrom_gap_cons hcode hstack hgap,
    closeFrom_withoutComments_gap_cons hcode hstack hgap] at h
  -- If one run has written more before the line, then the other writes the line in its place.
  rcases List.append_eq_append_iff.1 h with ⟨more, hmore, hrest⟩ | ⟨more, hmore, hrest⟩
  · cases more with
    | nil => rw [hmore, List.append_nil]
    | cons first more =>
      obtain ⟨rfl, -⟩ := List.cons.inj hrest
      have hmem : line ∈ (stack.filter (isEnded (effect target.profile line)
          (Text.width line))).map (· ++ target.profile.closer) ++ gap.filter Text.isVoid := by
        simp [hmore]
      rcases List.mem_append.1 hmem with hmem | hmem
      · obtain ⟨indent, hindent, hcloser⟩ := List.mem_map.1 hmem
        obtain ⟨hindent, hended⟩ := List.mem_filter.1 hindent
        exact (hnot hindent hcloser.symm hended).elim
      · rw [(List.mem_filter.1 hmem).2] at hline
        exact absurd hline (by simp)
  · cases more with
    | nil => rw [hmore, List.append_nil]
    | cons first more =>
      obtain ⟨rfl, -⟩ := List.cons.inj hrest
      have hmem : line ∈ gapWritten target.profile (isEnded (effect target.profile line)
          (Text.width line)) stack [] gap := by
        simp [hmore]
      rcases mem_gapWritten hstack.nested (List.forall_mem_nil _) hgap hmem
        with hvoid | ⟨indent, hindent, hcloser, hended | hleft⟩
      · rw [hvoid] at hline
        exact absurd hline (by simp)
      · exact (hnot hindent hcloser hended).elim
      · have hlt := meetings_lt_of_closer hstack hgap hindent hleft lines
        rw [← hcloser, hmeetings] at hlt
        exact absurd hlt (Nat.lt_irrefl _)

/-- Comments that leave the ends of blocks alone leave the same blocks open. -/
theorem stackAfter_gap (hstack : Nested stack)
    (hgap : ∀ line ∈ gap, isCodeLine target.profile line = false) {afterBlank : Bool}
    (h : quietGap (isEnded (effect target.profile line) (Text.width line)) stack afterBlank gap) :
    stackAfter (effect target.profile line) (Text.indentation line)
        (openAfter target.profile stack gap)
      = stackAfter (effect target.profile line) (Text.indentation line) stack := by
  have hleft : (openAfter target.profile stack gap).filter (·.length < Text.width line)
      = stack.filter (·.length < Text.width line) := by
    induction gap generalizing stack afterBlank with
    | nil => rfl
    | cons other gap ih =>
      obtain ⟨hcode, hgap⟩ := List.forall_mem_cons.1 hgap
      rw [quietGap] at h
      cases hother : Text.isVoid other with
      | true =>
        rw [if_pos hother] at h
        rw [openAfter_of_isVoid hother]
        exact ih hstack hgap h
      | false =>
        rw [if_neg (by simp [hother]), Bool.and_eq_true, all_quiet_iff] at h
        obtain ⟨⟨hended, -⟩, hrest⟩ := h
        rw [openAfter_cons hother, hstack.stackAfter_comment hcode hother,
          ih (hstack.filter _) hgap hrest, List.filter_filter]
        refine List.filter_congr fun indent hindent ↦ ?_
        by_cases hdeep : Text.width other ≤ indent.length
        · have hclosed := hended indent (List.mem_filter.2 ⟨hindent, decide_eq_true hdeep⟩)
          have hle : ¬indent.length < Text.width line := by
            simp only [isEnded, Bool.or_eq_true, Bool.and_eq_true, decide_eq_true_eq] at hclosed
            omega
          simp [hle]
        · simp [Nat.not_le.1 hdeep]
  rw [(nested_openAfter hstack gap).stackAfter_eq, hstack.stackAfter_eq, ← Text.width, hleft]

/-- From a line with code on, comments in front of it do not matter. -/
theorem leavesBlocks_cons (hcode : isCodeLine target.profile line) (lines : List Text)
    (stack : List Text) (afterBlank : Bool) :
    leavesBlocks target.profile stack afterBlank (line :: lines)
      = leavesBlocks target.profile
        (stackAfter (effect target.profile line) (Text.indentation line) stack) false lines := by
  obtain ⟨hline, hcomment⟩ := isCodeLine_iff.1 hcode
  rw [leavesBlocks, hcomment, openAfter_cons hline, hline]
  rfl

/-- At the end of the program every block gets its closer. -/
theorem withoutComments_closeFrom_gap_nil (hstack : WellNested stack)
    (hgap : ∀ line ∈ gap, isCodeLine target.profile line = false) :
    withoutComments target.profile (closeFrom target.profile stack [] gap)
        = closeFrom target.profile stack [] (withoutComments target.profile gap)
      ↔ leavesBlocks target.profile stack false gap := by
  have hend : ∀ stack blanks : List Text, WellNested stack →
      (∀ blank ∈ blanks, Text.isVoid blank) →
      withoutComments target.profile (closeFrom target.profile stack blanks [])
        = (stack.filter fun _ ↦ true).map (· ++ target.profile.closer) ++ blanks ++ [] := by
    intro stack blanks hstack hblanks
    rw [closeFrom, withoutComments_append, withoutComments_closers hstack.blank,
      withoutComments_blanks hblanks, List.filter_true, List.append_nil]
  have hrun := withoutComments_closeFrom_gap hend hstack (List.forall_mem_nil _) hgap
  have hwithout : closeFrom target.profile stack [] (withoutComments target.profile (gap ++ []))
      = stack.map (· ++ target.profile.closer) ++ gap.filter Text.isVoid :=
    closeFrom_withoutComments_gap hgap
  have hwritten : gapWritten target.profile (fun _ ↦ true) stack [] gap
        = (stack.filter fun _ ↦ true).map (· ++ target.profile.closer)
          ++ ([] ++ gap.filter Text.isVoid)
      ↔ quietGap (fun _ ↦ true) stack false gap :=
    gapWritten_eq_iff (fun _ _ _ _ ↦ rfl) hstack (List.forall_mem_nil _)
  have hafter : ∀ (stack : List Text) (afterBlank : Bool),
      leavesBlocks target.profile stack afterBlank [] = true := fun _ _ ↦ rfl
  have hquiet : leavesBlocks target.profile stack false (gap ++ [])
      = (quietGap (fun _ ↦ true) stack false gap && true) :=
    leavesBlocks_gap false hafter hstack.nested hgap
  rw [List.append_nil] at hrun hwithout hquiet
  rw [hrun, hwithout, hquiet, Bool.and_true, ← hwritten, List.filter_true, List.append_nil,
    List.nil_append]

/-- Both runs write the same exactly if the comments leave the ends of blocks alone.  The lines that
have been read since the last line with code are kept apart. -/
theorem withoutComments_closeFrom_iff (hstack : WellNested stack)
    (hgap : ∀ line ∈ gap, isCodeLine target.profile line = false) (lines : List Text) :
    withoutComments target.profile (closeFrom target.profile stack [] (gap ++ lines))
        = closeFrom target.profile stack [] (withoutComments target.profile (gap ++ lines))
      ↔ leavesBlocks target.profile stack false (gap ++ lines) := by
  induction lines generalizing stack gap with
  | nil =>
    rw [List.append_nil]
    exact withoutComments_closeFrom_gap_nil hstack hgap
  | cons line lines ih =>
    cases hcode : isCodeLine target.profile line with
    | false =>
      have hmore : ∀ other ∈ gap ++ [line], isCodeLine target.profile other = false :=
        List.forall_mem_append.2 ⟨hgap, by simpa using hcode⟩
      have hrest := ih hstack hmore
      rwa [List.append_assoc, List.singleton_append] at hrest
    | true =>
      have hnext : (endsNext target.profile · (line :: lines))
          = isEnded (effect target.profile line) (Text.width line) := by
        funext indent
        rw [endsNext, if_pos hcode]
      have hleaves := leavesBlocks_gap false (leavesBlocks_cons hcode lines) hstack.nested hgap
      have hwritten : gapWritten target.profile (isEnded (effect target.profile line)
            (Text.width line)) stack [] gap = _ ↔ _ :=
        gapWritten_eq_iff (inward_isEnded _ _) hstack (List.forall_mem_nil _)
      have hrest := ih (hstack.after (effect target.profile line) line) (List.forall_mem_nil _)
      rw [List.nil_append] at hwritten hrest
      rw [hleaves, hnext, Bool.and_eq_true]
      constructor
      · intro h
        have hsame := gapWritten_eq_of_run_eq hcode hstack hgap h
        have hquiet := hwritten.1 hsame
        rw [withoutComments_closeFrom_gap_cons hcode hstack hgap,
          closeFrom_withoutComments_gap_cons hcode hstack hgap, hsame,
          List.append_cancel_left_eq, stackAfter_gap hstack.nested hgap hquiet] at h
        rw [stackAfter_gap hstack.nested hgap hquiet]
        exact ⟨hquiet, hrest.1 (List.cons.inj h).2⟩
      · rintro ⟨hquiet, hleft⟩
        rw [stackAfter_gap hstack.nested hgap hquiet] at hleft
        rw [withoutComments_closeFrom_gap_cons hcode hstack hgap,
          closeFrom_withoutComments_gap_cons hcode hstack hgap, hwritten.2 hquiet,
          stackAfter_gap hstack.nested hgap hquiet, hrest.2 hleft]

end Runs

/-- Taking the comments out before the blocks are closed gives the same as taking them out
afterwards exactly if the comments leave the ends of blocks alone. -/
theorem withoutComments_closeBlocks_iff (target : Language) (lines : List Text) :
    withoutComments target.profile (closeBlocks target.profile lines)
        = closeBlocks target.profile (withoutComments target.profile lines)
      ↔ leavesBlocks target.profile [] false lines :=
  withoutComments_closeFrom_iff ⟨List.Pairwise.nil, List.forall_mem_nil _⟩
    (List.forall_mem_nil _) lines

/-- A comment at the width of a header ends its block before the body, and a comment at the end of
a body keeps the blank line in front of it inside. -/
theorem withoutComments_closeBlocks_ne :
    let profile := Language.javascript.profile
    let dedented : List Text := [("if (x) \x7b" : Text), "// c", "  a();"]
    let trailing : List Text := [("if (x) \x7b" : Text), "  a();", "", "  // c", "b();"]
    closeBlocks profile dedented = [("if (x) \x7b" : Text), "\x7d", "// c", "  a();"]
      ∧ withoutComments profile (closeBlocks profile dedented)
        ≠ closeBlocks profile (withoutComments profile dedented)
      ∧ withoutComments profile (closeBlocks profile trailing)
        ≠ closeBlocks profile (withoutComments profile trailing) := by
  decide +kernel

end Recast.Layout
