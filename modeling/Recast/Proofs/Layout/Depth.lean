import Mathlib.Data.List.Chain
import Recast.Proofs.Layout.FilledBlock
import Recast.Proofs.Layout.Refinish

/-!
# Depths by indentation

A program that is written by indentation can be read back only if its indentation is in order.
Every line stands at a whole number of units.  A header is followed by a line one unit deeper, the
first of its body or the statement that does nothing.  And a line is deeper than the line of code
before it only if that one opens a block or a literal, and then by one unit.

All of it follows from what a step writes: the statement that does nothing for a frame that is
closed, one deeper than the frames around it, and the line itself, as deep as the frames that are
left open.
-/

namespace Recast.Layout

/-! ## Indentation in order -/

/-- Whether a line opens a block that has to have a body. -/
def opensBody (target : Profile) (line : Text) : Bool :=
  isCodeLine target line && target.opensBlock (target.codeOf line)
    && !Text.startsWith (Text.trim line) ['}']

/-- Whether a line is code, and more than a terminator or an opening brace. -/
def isKept (target : Profile) (line : Text) : Bool :=
  isCodeLine target line && !isDropped (Text.trim line)

/-- What a block starts with, given the lines behind its header: the first line that is kept, and
the statement that does nothing if there is none or if it closes the block or goes on with it. -/
def firstOfBody (target : Profile) (lines : List Text) : Text :=
  match lines.find? (isKept target) with
  | some line =>
    if Text.startsWith (Text.trim line) ['}'] || target.continuesBlock (target.codeOf line) then
      "pass"
    else Text.trim line
  | none => "pass"

/-- The header is written for a line of the program, and what is written for the lines behind that
line starts, blank lines and comments aside, with the body, one unit deeper. -/
def HasBody (target : Profile) (lines : List Text) (header : Text) (after : List Text) : Prop :=
  ∃ before line behind frames next, lines = before ++ line :: behind
    ∧ Text.trimStart header <:+ Text.trim line ∧ after = indentFrom target frames behind
    ∧ after.find? (isCodeLine target) = some next
    ∧ Text.indentation next = Text.indentation header ++ target.indentUnit
    ∧ Text.trim next = firstOfBody target behind

/-- The second line is deeper than the first only if the first opens a block or a literal, and then
by one unit. -/
def MayFollow (target : Profile) (line next : Text) : Prop :=
  Text.width line < Text.width next →
    (target.opensBlock (target.codeOf line) || Text.endsWith (target.codeOf line) ['{'])
      ∧ Text.indentation next = Text.indentation line ++ target.indentUnit

/-- What is written for a program has its indentation in order. -/
structure WellIndented (target : Profile) (lines leveled : List Text) : Prop where
  /-- Every line stands at a whole number of units. -/
  units : ∀ line ∈ leveled, Text.isVoid line = false →
    ∃ depth, Text.indentation line = target.indentAt depth
  /-- Every header is followed by its body. -/
  bodies : ∀ header after, header :: after <:+ leveled → opensBody target header →
    HasBody target lines header after
  /-- Among the lines of code, none is deeper than the one before without a reason. -/
  steps : (leveled.filter (isCodeLine target)).IsChain (MayFollow target)

/-! ## Whole units -/

section Units

theorem indentAt_succ (target : Profile) (depth : Nat) :
    target.indentAt (depth + 1) = target.indentAt depth ++ target.indentUnit := by
  simp [Profile.indentAt, List.replicate_succ']

theorem indentation_indentAt_append (target : Language) (depth : Nat) {c : Char}
    (hc : isBlank c = false) (rest : Text) :
    Text.indentation (target.profile.indentAt depth ++ c :: rest)
      = target.profile.indentAt depth :=
  Text.indentation_append_cons (fun _ hblank ↦ isBlank_of_mem_indentAt hblank) hc rest

theorem indentation_filler (target : Language) (depth : Nat) :
    Text.indentation (target.profile.indentAt depth ++ "pass") = target.profile.indentAt depth :=
  indentation_indentAt_append target depth (by decide) ("ass" : Text)

theorem isVoid_indentAt_append_trim (target : Language) (depth : Nat) (line : Text) :
    Text.isVoid (target.profile.indentAt depth ++ Text.trim line) = Text.isVoid line := by
  rw [Bool.eq_iff_iff, ← Text.trim_eq_nil_iff, ← Text.trim_eq_nil_iff, trim_indentAt_append]

theorem isCodeLine_indentAt_append_trim (target : Language) (depth : Nat) (line : Text) :
    isCodeLine target.profile (target.profile.indentAt depth ++ Text.trim line)
      = isCodeLine target.profile line := by
  rw [isCodeLine, isCodeLine, isVoid_indentAt_append_trim, Profile.isCommentLine,
    trim_indentAt_append, ← Profile.isCommentLine]

theorem indentation_indentAt_append_trim (target : Language) (depth : Nat) {line : Text}
    (h : Text.isVoid line = false) :
    Text.indentation (target.profile.indentAt depth ++ Text.trim line)
      = target.profile.indentAt depth := by
  have hne : Text.trim line ≠ [] := by
    rw [ne_eq, Text.trim_eq_nil_iff, h]
    exact Bool.false_ne_true
  obtain ⟨c, rest, htrim⟩ := List.exists_cons_of_ne_nil hne
  have hink : isBlank c = false :=
    Text.isBlank_of_mem_head?_trim (by rw [htrim, List.head?_cons, Option.mem_some_iff])
  rw [htrim]
  exact indentation_indentAt_append target depth hink rest

/-- Every line that is written stands at a whole number of units. -/
theorem exists_depth_of_mem_indentFrom (target : Language) (stack : List Frame)
    (lines : List Text) :
    ∀ line ∈ indentFrom target.profile stack lines, Text.isVoid line = false →
      ∃ depth, Text.indentation line = target.profile.indentAt depth := by
  intro text htext hvoid
  rcases exists_of_mem_indentFrom target stack lines text htext with
    rfl | ⟨depth, rest, rfl, hink, -⟩
  · exact absurd hvoid (by decide)
  refine ⟨depth, ?_⟩
  cases rest with
  | nil =>
    have hblank := isVoid_indentAt_append_trim target depth []
    exact absurd (hvoid.symm.trans hblank) (by decide)
  | cons c rest => exact indentation_indentAt_append target depth (hink c rfl) rest

end Units

/-! ## Bodies -/

section Bodies

variable {line header : Text} {lines after before rest : List Text}

theorem firstOfBody_cons_of_not_isKept {target : Profile} (h : isKept target line = false) :
    firstOfBody target (line :: lines) = firstOfBody target lines := by
  rw [firstOfBody, List.find?_cons_of_neg (by simp [h])]
  rfl

theorem firstOfBody_cons_of_isKept {target : Profile} (h : isKept target line) :
    firstOfBody target (line :: lines)
      = if Text.startsWith (Text.trim line) ['}'] || target.continuesBlock (target.codeOf line)
        then ("pass" : Text) else Text.trim line := by
  rw [firstOfBody, List.find?_cons_of_pos h]

/-- What closes a block without a body starts with the statement that does nothing. -/
theorem find?_frameEnd_append (opened : Nat) (depth : Nat) (lines : List Text) :
    (frameEnd Language.python.profile depth (.block opened false) ++ lines).find?
        (isCodeLine Language.python.profile)
      = some (Language.python.profile.indentAt (depth + 1) ++ "pass") := by
  rw [frameEnd, List.singleton_append, List.find?_cons_of_pos (isCodeLine_filler _)]

/-- A line that is not kept adds no line of code. -/
theorem find?_indentFrom_of_not_isKept (stack : List Frame)
    (h : isKept Language.python.profile line = false) :
    (indentFrom Language.python.profile stack (line :: lines)).find?
        (isCodeLine Language.python.profile)
      = (indentFrom Language.python.profile stack lines).find?
        (isCodeLine Language.python.profile) := by
  by_cases hvoid : Text.isVoid line
  · rw [indentFrom_of_isVoid hvoid, List.find?_cons_of_neg (by decide)]
  by_cases hcomment : Language.python.profile.isCommentLine line
  · have hsilent : isCodeLine Language.python.profile line = false := by
      simp [isCodeLine, hcomment]
    rw [indentFrom_of_isCommentLine (by simpa using hvoid) hcomment,
      List.find?_cons_of_neg (by simp [isCodeLine_indentAt_append_trim, hsilent])]
  have hcode : isCodeLine Language.python.profile line :=
    isCodeLine_iff.2 ⟨by simpa using hvoid, by simpa using hcomment⟩
  rw [indentFrom_of_isDropped hcode (by simpa [isKept, hcode] using h)]

/-- A line that is kept is the first of a block without a body, unless it closes the block or goes
on with it. -/
theorem find?_indentFrom_of_isKept (opened : Nat) (outer : List Frame)
    (h : isKept Language.python.profile line) (lines : List Text) :
    (indentFrom Language.python.profile (.block opened false :: outer) (line :: lines)).find?
        (isCodeLine Language.python.profile)
      = some (Language.python.profile.indentAt (outer.length + 1)
          ++ firstOfBody Language.python.profile (line :: lines)) := by
  have hfirst := @firstOfBody_cons_of_isKept line lines _ h
  obtain ⟨hcode, hkept⟩ := Bool.and_eq_true_iff.1 h
  rw [Bool.not_eq_true'] at hkept
  by_cases hbrace : Text.startsWith (Text.trim line) ['}']
  · obtain ⟨rest, htrim⟩ := List.isPrefixOf_iff_prefix.1 hbrace
    rw [hfirst, hbrace, indentFrom_of_isCodeLine hcode, ← htrim, List.singleton_append,
      leadingClosers]
    dsimp only
    split
    · rw [List.append_assoc, find?_frameEnd_append]
      rfl
    · rw [List.append_assoc, List.append_assoc, find?_frameEnd_append]
      rfl
  rw [Bool.not_eq_true] at hbrace
  rw [hfirst, hbrace, Bool.false_or, ← Language.codeOf_trim,
    indentFrom_of_not_startsWith hcode hbrace hkept]
  by_cases hcontinues : Language.python.profile.continuesBlock
    (Language.python.profile.codeOf (Text.trim line))
  · rw [placeLine_of_continues hbrace hcontinues, if_pos hcontinues, List.append_assoc]
    exact find?_frameEnd_append opened outer.length _
  · rw [placeLine_of_not_continues hbrace (by simpa using hcontinues), if_neg hcontinues]
    exact List.find?_cons_of_pos ((isCodeLine_indentAt_append_trim _ _ _).trans hcode)

/-- The first line of code in a block without a body is the first that the lines put there, or the
statement that does nothing. -/
theorem find?_indentFrom_block (opened : Nat) (outer : List Frame) (lines : List Text) :
    (indentFrom Language.python.profile (.block opened false :: outer) lines).find?
        (isCodeLine Language.python.profile)
      = some (Language.python.profile.indentAt (outer.length + 1)
          ++ firstOfBody Language.python.profile lines) := by
  induction lines with
  | nil => exact find?_frameEnd_append opened outer.length _
  | cons line lines ih =>
    by_cases hkept : isKept Language.python.profile line
    · exact find?_indentFrom_of_isKept opened outer hkept lines
    · rw [Bool.not_eq_true] at hkept
      rw [find?_indentFrom_of_not_isKept _ hkept, ih, firstOfBody_cons_of_not_isKept hkept]

/-- A body starts with a trimmed line. -/
theorem exists_firstOfBody_eq_trim (target : Profile) (lines : List Text) :
    ∃ line, firstOfBody target lines = Text.trim line ∧ Text.isVoid line = false := by
  have hfiller : ("pass" : Text) = Text.trim "pass" := by decide
  rw [firstOfBody]
  split
  · rename_i line hfind
    have hkept : isKept target line := List.find?_some hfind
    have hcode : isCodeLine target line := (Bool.and_eq_true_iff.1 hkept).1
    split
    · exact ⟨"pass", hfiller, by decide⟩
    · exact ⟨line, rfl, (isCodeLine_iff.1 hcode).1⟩
  · exact ⟨"pass", hfiller, by decide⟩

theorem HasBody.cons {target : Profile} (h : HasBody target lines header after) (line : Text) :
    HasBody target (line :: lines) header after := by
  obtain ⟨before, own, behind, frames, next, rfl, hbody⟩ := h
  exact ⟨line :: before, own, behind, frames, next, rfl, hbody⟩

/-- A line with a property stands behind lines without it. -/
theorem suffix_of_suffix_append {p : Text → Bool} (h : header :: after <:+ before ++ rest)
    (hbefore : ∀ line ∈ before, p line = false) (hheader : p header) :
    header :: after <:+ rest := by
  induction before with
  | nil => exact h
  | cons line before ih =>
    obtain ⟨hline, hbefore⟩ := List.forall_mem_cons.1 hbefore
    rcases List.suffix_cons_iff.1 h with heq | h
    · rw [(List.cons.inj heq).1, hline] at hheader
      exact absurd hheader Bool.false_ne_true
    · exact ih h hbefore

theorem opensBody_filler (depth : Nat) :
    opensBody Language.python.profile (Language.python.profile.indentAt depth ++ "pass")
      = false := by
  have hcode : Language.python.profile.opensBlock (Language.python.profile.codeOf "pass")
      = false := by decide
  rw [opensBody, codeOf_indentAt_append, hcode, Bool.and_false, Bool.false_and]

/-- A header that is written opens a block. -/
theorem eq_block_of_opensBody {depth width : Nat} {c : Char} {t : Text} {left frames : List Frame}
    (hc : isBlank c = false)
    (h : opensBody Language.python.profile (Language.python.profile.indentAt depth ++ c :: t))
    (hafter : frames = openFrame Language.python.profile width
        (Language.python.profile.codeOf (c :: t)) (markBody left)
      ∨ Text.startsWith (c :: t) ['}'] ∧ frames = markBody left) :
    frames = .block width false :: markBody left := by
  rw [opensBody, codeOf_indentAt_append, Bool.and_eq_true, Bool.and_eq_true, Bool.not_eq_true',
    Text.trim_append_of_blank (fun _ hblank ↦ isBlank_of_mem_indentAt hblank), Text.trim_cons hc]
    at h
  obtain ⟨⟨-, hopens⟩, hbrace⟩ := h
  rcases hafter with rfl | ⟨hstart, -⟩
  · rw [openFrame, if_pos hopens]
  · have hnot : Text.startsWith (c :: t) ['}'] = false := hbrace
    exact absurd hstart (by simp [hnot])

/-- The lines behind a header put the first line of its body one unit deeper. -/
theorem hasBody_of_block {depth opened : Nat} {c : Char} {t : Text} {outer : List Frame}
    (hc : isBlank c = false) (hsuffix : c :: t <:+ Text.trim line) (hdepth : outer.length = depth)
    (lines : List Text) :
    HasBody Language.python.profile (line :: lines)
      (Language.python.profile.indentAt depth ++ c :: t)
      (indentFrom Language.python.profile (.block opened false :: outer) lines) := by
  obtain ⟨own, hown, hvoid⟩ := exists_firstOfBody_eq_trim Language.python.profile lines
  have hstart : Text.trimStart (Language.python.profile.indentAt depth ++ c :: t) = c :: t := by
    rw [Text.trimStart, List.dropWhile_append_of_pos fun _ hblank ↦ isBlank_of_mem_indentAt hblank,
      List.dropWhile_cons_of_neg (by simp [hc])]
  refine ⟨[], line, lines, _, _, rfl, by rwa [hstart], rfl, find?_indentFrom_block _ _ _, ?_, ?_⟩
  · rw [hown, indentation_indentAt_append_trim .python _ hvoid, indentAt_succ, hdepth,
      indentation_indentAt_append .python depth hc]
  · rw [hown, trim_indentAt_append]

/-- Every header that is written has its body behind it. -/
theorem hasBody_of_suffix_indentFrom (stack : List Frame)
    (h : header :: after <:+ indentFrom Language.python.profile stack lines)
    (hheader : opensBody Language.python.profile header) :
    HasBody Language.python.profile lines header after := by
  have hclosing {closed left : List Frame} :
      ∀ line ∈ closing Language.python.profile closed left,
        opensBody Language.python.profile line = false := by
    intro line hline
    obtain ⟨depth, rfl, -⟩ := exists_of_mem_closing hline
    exact opensBody_filler depth
  induction lines generalizing stack with
  | nil =>
    rw [indentFrom, closeFrames_eq_closing] at h
    exact absurd (hclosing header (h.subset List.mem_cons_self)) (by simp [hheader])
  | cons line lines ih =>
    obtain ⟨written, frames, hstep, hindent⟩ := exists_step .python stack line
    rw [hindent] at h
    cases hstep with
    | @silent _ text hsilent =>
      refine (ih stack (suffix_of_suffix_append h ?_ hheader)).cons line
      exact List.forall_mem_singleton.2 (by simp [opensBody, hsilent])
    | dropped => exact (ih frames (suffix_of_suffix_append h hclosing hheader)).cons line
    | @placed closed left _ rest hcode hwhole hink hsuffix hafter =>
      rw [List.append_assoc] at h
      rcases List.suffix_cons_iff.1 (suffix_of_suffix_append h hclosing hheader) with heq | h
      · obtain ⟨rfl, rfl⟩ := List.cons.inj heq
        obtain ⟨c, t, rfl, hc⟩ := hink
        rw [eq_block_of_opensBody hc hheader hafter]
        exact hasBody_of_block hc hsuffix (length_markBody left) lines
      · exact (ih frames h).cons line

end Bodies

/-! ## Steps -/

section Steps

variable {line : Text} {lines : List Text} {depth bound : Nat}

/-- The lines of code go deeper only where they may, and the first of them is no deeper than the
bound. -/
structure StepsFrom (target : Profile) (bound : Nat) (lines : List Text) : Prop where
  chain : (lines.filter (isCodeLine target)).IsChain (MayFollow target)
  start : ∀ next ∈ lines.find? (isCodeLine target),
    ∃ depth ≤ bound, Text.indentation next = target.indentAt depth

namespace StepsFrom

theorem mono {target : Profile} (h : StepsFrom target bound lines) (hle : bound ≤ depth) :
    StepsFrom target depth lines := by
  refine ⟨h.chain, fun next hnext ↦ ?_⟩
  obtain ⟨own, hown, hindent⟩ := h.start next hnext
  exact ⟨own, hown.trans hle, hindent⟩

theorem cons_silent {target : Profile} (h : StepsFrom target bound lines)
    (hsilent : isCodeLine target line = false) : StepsFrom target bound (line :: lines) := by
  refine ⟨?_, ?_⟩
  · rw [List.filter_cons_of_neg (by simp [hsilent])]
    exact h.chain
  · rw [List.find?_cons_of_neg (by simp [hsilent])]
    exact h.start

/-- A line may be put in front of lines that start no deeper, or one unit deeper if it opens a block
or a literal. -/
theorem cons_code (h : StepsFrom Language.python.profile bound lines)
    (hcode : isCodeLine Language.python.profile line)
    (hindent : Text.indentation line = Language.python.profile.indentAt depth)
    (hbound : bound ≤ depth ∨ bound = depth + 1
      ∧ (Language.python.profile.opensBlock (Language.python.profile.codeOf line)
        || Text.endsWith (Language.python.profile.codeOf line) ['{'])) :
    StepsFrom Language.python.profile depth (line :: lines) := by
  refine ⟨?_, ?_⟩
  · rw [List.filter_cons_of_pos hcode, List.isChain_cons]
    refine ⟨fun next hnext hdeeper ↦ ?_, h.chain⟩
    rw [List.head?_filter] at hnext
    obtain ⟨own, hown, hnext⟩ := h.start next hnext
    rw [Text.width, Text.width, hindent, hnext] at hdeeper
    have hlt : depth < own := by
      by_contra hle
      exact absurd (length_indentAt_mono (Nat.le_of_not_lt hle)) (Nat.not_le.2 hdeeper)
    rcases hbound with hbound | ⟨hbound, hopens⟩
    · omega
    · obtain rfl : own = depth + 1 := by omega
      exact ⟨hopens, by rw [hnext, hindent, indentAt_succ]⟩
  · intro next hnext
    rw [List.find?_cons_of_pos hcode, Option.mem_some_iff] at hnext
    exact ⟨depth, le_rfl, hnext ▸ hindent⟩

/-- Closing frames leads down to the frames that are left open. -/
theorem closing_append {closed left : List Frame}
    (h : StepsFrom Language.python.profile left.length lines) :
    StepsFrom Language.python.profile (closed.length + left.length)
      (closing Language.python.profile closed left ++ lines) := by
  induction closed with
  | nil => exact h.mono (Nat.le_add_left _ _)
  | cons frame closed ih =>
    rw [closing, List.append_assoc, List.length_cons]
    fun_cases frameEnd Language.python.profile _ frame with
    | case1 opened =>
      rw [List.singleton_append]
      refine (cons_code ih (isCodeLine_filler _) (indentation_filler .python _) ?_).mono ?_
      · exact .inl (by omega)
      · omega
    | case2 => exact ih.mono (by omega)

end StepsFrom

theorem length_openFrame (target : Profile) (width : Nat) (code : Text) (stack : List Frame) :
    (openFrame target width code stack).length
      = if target.opensBlock code || Text.endsWith code ['{'] then stack.length + 1
        else stack.length := by
  rw [openFrame]
  split
  · simp [*]
  · split <;> simp [*]

/-- A line that is written opens at most one frame, and only if its code opens a block or a
literal. -/
theorem length_le_or_eq_succ {target : Profile} {width : Nat} {rest : Text}
    {left frames : List Frame}
    (hafter : frames = openFrame target width (target.codeOf rest) (markBody left)
      ∨ Text.startsWith rest ['}'] ∧ frames = markBody left) :
    frames.length ≤ left.length ∨ frames.length = left.length + 1
      ∧ (target.opensBlock (target.codeOf rest)
        || Text.endsWith (target.codeOf rest) ['{']) := by
  rcases hafter with rfl | ⟨-, rfl⟩
  · rw [length_openFrame, length_markBody]
    split
    · exact .inr ⟨rfl, ‹_›⟩
    · exact .inl le_rfl
  · exact .inl (length_markBody left).le

/-- The lines that are written start no deeper than the frames that are open, and go deeper only
where they may. -/
theorem stepsFrom_indentFrom (stack : List Frame) (lines : List Text) :
    StepsFrom Language.python.profile stack.length
      (indentFrom Language.python.profile stack lines) := by
  induction lines generalizing stack with
  | nil =>
    rw [indentFrom, closeFrames_eq_closing, ← List.append_nil (closing _ _ _)]
    have hnone : StepsFrom Language.python.profile ([] : List Frame).length [] := ⟨.nil, by simp⟩
    exact hnone.closing_append
  | cons line lines ih =>
    obtain ⟨written, frames, hstep, hindent⟩ := exists_step .python stack line
    rw [hindent]
    cases hstep with
    | silent hsilent => exact (ih stack).cons_silent hsilent
    | dropped =>
      rw [List.length_append]
      exact (ih frames).closing_append
    | @placed closed left _ rest hcode hwhole hink hsuffix hafter =>
      obtain ⟨c, t, rfl, hc⟩ := hink
      rw [List.length_append, List.append_assoc, List.singleton_append]
      apply StepsFrom.closing_append
      have hframes := length_le_or_eq_succ hafter
      by_cases hplaced : isCodeLine Language.python.profile
        (Language.python.profile.indentAt left.length ++ c :: t)
      · refine (ih frames).cons_code hplaced (indentation_indentAt_append .python _ hc t) ?_
        rwa [codeOf_indentAt_append]
      · -- What stands behind the closers is a comment, which opens nothing.
        rw [Bool.not_eq_true] at hplaced
        have hnone := codeOf_eq_nil hplaced
        rw [codeOf_indentAt_append] at hnone
        rw [hnone] at hframes
        have hle := hframes.resolve_right fun h ↦ absurd h.2 (by decide)
        exact ((ih frames).mono hle).cons_silent hplaced

end Steps

/-- Indenting a program puts its indentation in order. -/
theorem relevel_wellIndented (lines : List Text) :
    WellIndented Language.python.profile lines (relevel Language.python.profile lines) := by
  rw [relevel_eq_indentFrom]
  exact
    { units := exists_depth_of_mem_indentFrom .python [] lines
      bodies := fun header after h hheader ↦ hasBody_of_suffix_indentFrom [] h hheader
      steps := (stepsFrom_indentFrom [] lines).chain }

end Recast.Layout
