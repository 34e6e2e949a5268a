import Recast.Layout.Closing
import Recast.Layout.Level
import Recast.Proofs.Language.Profile

/-!
# From indentation to delimiters

A program that is nested by indentation is a forest: plain lines, and blocks of a header, a body and
any number of further branches with bodies of their own.  Closing the blocks by indentation and
indenting the result by its delimiters writes the forest out: every line at the depth of its
nesting, and one closer after the last body of each block.

The two passes are taken one after the other.  The first keeps on its stack the headers of the
blocks around the current line, so a whole forest leaves the stack as it was; the second keeps their
number.
-/

namespace Recast.Layout

/-! ## Forests -/

mutual

/-- The lines of a program, those of a block under its header. -/
inductive Forest where
  | nil
  | plain (line : Text) (rest : Forest)
  /-- A block, and what follows it at the same depth. -/
  | block (header : Text) (body : Forest) (branches : Branches) (rest : Forest)

/-- The further branches of a block, each a line with a body of its own. -/
inductive Branches where
  | nil
  | cons (line : Text) (body : Forest) (rest : Branches)

end

mutual

/-- The lines in the order of the program. -/
def Forest.lines : Forest → List Text
  | .nil => []
  | .plain line rest => line :: rest.lines
  | .block header body branches rest =>
    header :: (body.lines ++ (branches.lines ++ rest.lines))

def Branches.lines : Branches → List Text
  | .nil => []
  | .cons line body rest => line :: (body.lines ++ rest.lines)

end

mutual

/-- The items of the forest start at the given width, and those of a body at a greater one. -/
def Forest.Aligned : (width : Nat) → Forest → Prop
  | _, .nil => True
  | width, .plain line rest => Text.width line = width ∧ rest.Aligned width
  | width, .block header body branches rest =>
    Text.width header = width ∧ (∃ deeper, width < deeper ∧ body.Aligned deeper)
      ∧ branches.Aligned width ∧ rest.Aligned width

def Branches.Aligned : (width : Nat) → Branches → Prop
  | _, .nil => True
  | width, .cons line body rest =>
    Text.width line = width ∧ (∃ deeper, width < deeper ∧ body.Aligned deeper)
      ∧ rest.Aligned width

end

/-- Whether a line is neither blank nor a comment as a whole. -/
def isCodeLine (target : Profile) (line : Text) : Bool :=
  !Text.isVoid line && !target.isCommentLine line

/-- Whether a line neither opens, continues nor closes a block. -/
def isPlain (target : Profile) (line : Text) : Bool :=
  isCodeLine target line && !target.opensBlock (target.codeOf line)
    && !target.continuesBlock (target.codeOf line) && !target.closesBlock (target.codeOf line)
    && !Text.startsWith (target.codeOf line) ['}']

/-- Whether a line opens a block and does nothing else. -/
def isHeader (target : Profile) (line : Text) : Bool :=
  isCodeLine target line && target.opensBlock (target.codeOf line)
    && !target.continuesBlock (target.codeOf line) && !Text.startsWith (target.codeOf line) ['}']

/-- Whether a line goes on with a block. -/
def isBranch (target : Profile) (line : Text) : Bool :=
  isCodeLine target line && target.continuesBlock (target.codeOf line)

mutual

/-- Whether every line does in the target language what its place in the forest says. -/
def Forest.fits (target : Profile) : Forest → Bool
  | .nil => true
  | .plain line rest => isPlain target line && rest.fits target
  | .block header body branches rest =>
    isHeader target header && body.fits target && branches.fits target && rest.fits target

def Branches.fits (target : Profile) : Branches → Bool
  | .nil => true
  | .cons line body rest => isBranch target line && body.fits target && rest.fits target

end

mutual

/-- The forest written out in the target language, from a nesting depth on. -/
def Forest.render (target : Profile) : (depth : Nat) → Forest → List Text
  | _, .nil => []
  | depth, .plain line rest => (target.indentAt depth ++ Text.trim line) :: rest.render target depth
  | depth, .block header body branches rest =>
    (target.indentAt depth ++ Text.trim header) :: (body.render target (depth + 1)
      ++ (branches.render target depth
        ++ (target.indentAt depth ++ target.closer) :: rest.render target depth))

def Branches.render (target : Profile) : (depth : Nat) → Branches → List Text
  | _, .nil => []
  | depth, .cons line body rest =>
    (target.indentAt depth ++ Text.trim line)
      :: (body.render target (depth + 1) ++ rest.render target depth)

end

/-! ## Closers -/

theorem isNeutral_of_mem_closer (target : Language) :
    ∀ c ∈ target.profile.closer, target.profile.markers.isNeutral c := by
  have h : target.profile.closer.all target.profile.markers.isNeutral := by
    cases target <;> decide
  exact List.all_eq_true.1 h

theorem trim_closer {indent : Text} (target : Language) (hindent : ∀ c ∈ indent, isBlank c) :
    Text.trim (indent ++ target.profile.closer) = target.profile.closer := by
  rw [Text.trim_append_of_blank hindent]
  cases target <;> decide

theorem codeOf_closer {indent : Text} (target : Language) (hindent : ∀ c ∈ indent, isBlank c) :
    target.profile.codeOf (indent ++ target.profile.closer) = target.profile.closer := by
  have hneutral : ∀ c ∈ indent ++ target.profile.closer, target.profile.markers.isNeutral c := by
    intro c hc
    rcases List.mem_append.1 hc with hc | hc
    · exact target.isNeutral_of_isBlank (hindent c hc)
    · exact isNeutral_of_mem_closer target c hc
  rw [Profile.codeOf, Markers.splitComment_of_endsInCode (Markers.endsInCode_of_neutral hneutral)]
  exact trim_closer target hindent

theorem isComment_closer (target : Language) :
    target.profile.isComment target.profile.closer = false := by
  cases target <;> decide

theorem closesBlock_closer {target : Language} (hstyle : target.profile.blockStyle ≠ .indent) :
    target.profile.closesBlock target.profile.closer := by
  cases target
  case python => exact absurd rfl hstyle
  all_goals decide

theorem opensBlock_closer (target : Language) :
    target.profile.opensBlock target.profile.closer = false := by
  cases target <;> decide

theorem continuesBlock_closer (target : Language) :
    target.profile.continuesBlock target.profile.closer = false := by
  cases target <;> decide

/-! ## The roles of lines -/

theorem isCodeLine_iff {target : Profile} {line : Text} :
    isCodeLine target line ↔ Text.isVoid line = false ∧ target.isCommentLine line = false := by
  simp [isCodeLine]

theorem isCodeLine_closer {indent : Text} (target : Language) (hindent : ∀ c ∈ indent, isBlank c) :
    isCodeLine target.profile (indent ++ target.profile.closer) := by
  have htrim := trim_closer target hindent
  have hvoid : ¬Text.isVoid (indent ++ target.profile.closer) := by
    rw [← Text.trim_eq_nil_iff, htrim]
    cases target <;> decide
  rw [isCodeLine_iff, Profile.isCommentLine, htrim]
  exact ⟨by simpa using hvoid, isComment_closer target⟩

theorem isPlain_iff {target : Profile} {line : Text} :
    isPlain target line ↔ isCodeLine target line ∧ target.opensBlock (target.codeOf line) = false
      ∧ target.continuesBlock (target.codeOf line) = false
      ∧ target.closesBlock (target.codeOf line) = false
      ∧ Text.startsWith (target.codeOf line) ['}'] = false := by
  simp [isPlain, and_assoc]

theorem isHeader_iff {target : Profile} {line : Text} :
    isHeader target line ↔ isCodeLine target line ∧ target.opensBlock (target.codeOf line)
      ∧ target.continuesBlock (target.codeOf line) = false
      ∧ Text.startsWith (target.codeOf line) ['}'] = false := by
  simp [isHeader, and_assoc]

theorem isBranch_iff {target : Profile} {line : Text} :
    isBranch target line ↔
      isCodeLine target line ∧ target.continuesBlock (target.codeOf line) := by
  simp [isBranch]

theorem ne_brace_of_not_startsWith {code : Text} (h : Text.startsWith code ['}'] = false) :
    code ≠ ['}'] := by
  rintro rfl
  exact absurd h (by decide)

theorem effect_of_isPlain {target : Profile} {line : Text} (h : isPlain target line) :
    effect target line = .ends := by
  obtain ⟨hcode, hopens, hcontinues, hcloses, hbrace⟩ := isPlain_iff.1 h
  have hlone := ne_brace_of_not_startsWith hbrace
  have hcloser : target.codeOf line ≠ target.closer := by
    rw [Profile.closer]
    cases hclose : target.blockClose with
    | none => exact hlone
    | some closer =>
      intro heq
      exact absurd hcloses (by simp [Profile.closesBlock, hclose, heq])
  simp [effect, (isCodeLine_iff.1 hcode).2, hcontinues, hcloser, hlone, hopens]

theorem effect_of_isHeader {target : Language} {line : Text} (h : isHeader target.profile line) :
    effect target.profile line = .opens := by
  obtain ⟨hcode, hopens, hcontinues, hbrace⟩ := isHeader_iff.1 h
  have hlone := ne_brace_of_not_startsWith hbrace
  have hcloser : target.profile.codeOf line ≠ target.profile.closer := by
    intro heq
    rw [heq, opensBlock_closer] at hopens
    exact absurd hopens (by simp)
  simp [effect, (isCodeLine_iff.1 hcode).2, hcontinues, hcloser, hlone, hopens]

theorem effect_of_isBranch {target : Profile} {line : Text} (h : isBranch target line) :
    effect target line = .continues := by
  obtain ⟨hcode, hcontinues⟩ := isBranch_iff.1 h
  simp [effect, (isCodeLine_iff.1 hcode).2, hcontinues]

/-! ## Closing -/

mutual

/-- The forest with its closers and its own indentation. -/
def Forest.delimited (target : Profile) : Forest → List Text
  | .nil => []
  | .plain line rest => line :: rest.delimited target
  | .block header body branches rest =>
    header :: (body.delimited target
      ++ (branches.delimited target (Text.indentation header) ++ rest.delimited target))

/-- The branches with the closer, which is indented like the last line that opened a body. -/
def Branches.delimited (target : Profile) : (indent : Text) → Branches → List Text
  | indent, .nil => [indent ++ target.closer]
  | _, .cons line body rest =>
    line :: (body.delimited target ++ rest.delimited target (Text.indentation line))

end

/-- Whether the lines start with one that ends every block of the given width. -/
def EndsAt (target : Profile) (width : Nat) : List Text → Prop
  | [] => True
  | line :: _ =>
    Text.isVoid line = false
      ∧ (Text.width line < width ∨ (effect target line).endsOwnDepth ∧ Text.width line = width)

section Closing

variable {target : Profile} {stack lines : List Text} {line indent : Text} {width : Nat}

theorem closeFrom_cons (hline : Text.isVoid line = false) :
    closeFrom target stack [] (line :: lines)
      = (stack.takeWhile (isEnded (effect target line) (Text.width line))).map (· ++ target.closer)
        ++ line :: closeFrom target
          (stackAfter (effect target line) (Text.indentation line) stack) [] lines := by
  simp [closeFrom, hline, Text.width]

theorem isEnded_of_lt {effect : Effect} (h : indent.length < width) :
    isEnded effect width indent = false := by
  simp [isEnded]
  omega

/-- A line that is deeper than all open blocks ends none of them. -/
theorem closeFrom_cons_of_lt (hline : Text.isVoid line = false)
    (hstack : ∀ indent ∈ stack, indent.length < Text.width line) :
    closeFrom target stack [] (line :: lines)
      = line :: closeFrom target
        (if (effect target line).reopens then Text.indentation line :: stack else stack) []
        lines := by
  have hkept : stack.takeWhile (isEnded (effect target line) (Text.width line)) = []
      ∧ stack.dropWhile (isEnded (effect target line) (Text.width line)) = stack
      ∧ dropOwn (Text.width line) stack = stack := by
    cases stack with
    | nil => simp [dropOwn]
    | cons indent stack =>
      have hlt := hstack indent List.mem_cons_self
      have hne : indent.length ≠ Text.width line := by omega
      simp [isEnded_of_lt hlt, dropOwn, hne]
  obtain ⟨htake, hdrop, hown⟩ := hkept
  rw [closeFrom_cons hline, htake, stackAfter, ← Text.width, hdrop, hown, ite_self]
  rfl

/-- A branch takes over the block of its own width. -/
theorem closeFrom_cons_of_continues (hline : Text.isVoid line = false)
    (heffect : effect target line = .continues) (hindent : indent.length = Text.width line) :
    closeFrom target (indent :: stack) [] (line :: lines)
      = line :: closeFrom target (Text.indentation line :: stack) [] lines := by
  have hnot : isEnded .continues (Text.width line) indent = false := by
    simp [isEnded, Effect.endsOwnDepth, hindent]
  rw [closeFrom_cons hline, heffect, stackAfter, ← Text.width]
  simp [hnot, Effect.endsOwnDepth, Effect.reopens, dropOwn, hindent]

/-- A line that ends a block writes its closer, and goes on as if the block had not been there. -/
theorem closeFrom_of_endsAt (hindent : indent.length = width) (h : EndsAt target width lines) :
    closeFrom target (indent :: stack) [] lines
      = (indent ++ target.closer) :: closeFrom target stack [] lines := by
  cases lines with
  | nil => simp [closeFrom]
  | cons line lines =>
    obtain ⟨hline, hends⟩ := h
    have hended : isEnded (effect target line) (Text.width line) indent := by
      rcases hends with hlt | ⟨hown, heq⟩
      · simp [isEnded, hindent, hlt]
      · simp [isEnded, hindent, hown, heq]
    rw [closeFrom_cons hline, closeFrom_cons hline, stackAfter, stackAfter, ← Text.width]
    simp [hended]

end Closing

section Forests

variable {target : Language} {stack lines : List Text} {indent : Text} {width deeper : Nat}

theorem Forest.endsAt {forest : Forest} (haligned : forest.Aligned width)
    (hfits : forest.fits target.profile) (h : EndsAt target.profile width lines) :
    EndsAt target.profile width (forest.lines ++ lines) := by
  cases forest with
  | nil => exact h
  | plain line rest =>
    obtain ⟨hplain, -⟩ := Bool.and_eq_true_iff.1 hfits
    refine ⟨(isCodeLine_iff.1 (isPlain_iff.1 hplain).1).1, .inr ⟨?_, haligned.1⟩⟩
    rw [effect_of_isPlain hplain]
    rfl
  | block header body branches rest =>
    have hheader : isHeader target.profile header := by
      simp only [fits, Bool.and_eq_true] at hfits
      exact hfits.1.1.1
    refine ⟨(isCodeLine_iff.1 (isHeader_iff.1 hheader).1).1, .inr ⟨?_, haligned.1⟩⟩
    rw [effect_of_isHeader hheader]
    rfl

theorem EndsAt.mono (h : EndsAt target.profile width lines) (hlt : width < deeper) :
    EndsAt target.profile deeper lines := by
  cases lines with
  | nil => trivial
  | cons line lines =>
    obtain ⟨hline, hends⟩ := h
    exact ⟨hline, .inl (by omega)⟩

theorem Branches.endsAt {branches : Branches} (haligned : branches.Aligned width)
    (hfits : branches.fits target.profile) (hlt : width < deeper)
    (h : EndsAt target.profile width lines) :
    EndsAt target.profile deeper (branches.lines ++ lines) := by
  cases branches with
  | nil => exact h.mono hlt
  | cons line body rest =>
    have hbranch : isBranch target.profile line := by
      simp only [fits, Bool.and_eq_true] at hfits
      exact hfits.1.1
    exact ⟨(isCodeLine_iff.1 (isBranch_iff.1 hbranch).1).1, .inl (haligned.1 ▸ hlt)⟩

/-- Inside a block the block is open too, and all that are open are less deep than its body. -/
theorem length_lt_of_mem_cons {line : Text} (hstack : ∀ indent ∈ stack, indent.length < width)
    (hwidth : Text.width line = width) (hlt : width < deeper) :
    ∀ indent ∈ Text.indentation line :: stack, indent.length < deeper := by
  intro indent hindent
  rcases List.mem_cons.1 hindent with rfl | hindent
  · exact hwidth.trans_lt hlt
  · exact (hstack indent hindent).trans hlt

mutual

/-- Over a forest the closers are written where they belong, and the open blocks are the same
after it as before. -/
theorem Forest.closeFrom_lines (forest : Forest) {width : Nat} {stack lines : List Text}
    (haligned : forest.Aligned width) (hfits : forest.fits target.profile)
    (hstack : ∀ indent ∈ stack, indent.length < width)
    (hends : EndsAt target.profile width lines) :
    closeFrom target.profile stack [] (forest.lines ++ lines)
      = forest.delimited target.profile ++ closeFrom target.profile stack [] lines := by
  match forest with
  | .nil => rfl
  | .plain line rest =>
    obtain ⟨hplain, hrest⟩ := Bool.and_eq_true_iff.1 hfits
    obtain ⟨hwidth, hsame⟩ := haligned
    have hvoid := (isCodeLine_iff.1 (isPlain_iff.1 hplain).1).1
    rw [Forest.lines, List.cons_append, closeFrom_cons_of_lt hvoid (by rwa [hwidth]),
      effect_of_isPlain hplain, Forest.delimited, List.cons_append]
    exact congrArg (line :: ·) (rest.closeFrom_lines hsame hrest hstack hends)
  | .block header body branches rest =>
    simp only [Forest.fits, Bool.and_eq_true] at hfits
    obtain ⟨⟨⟨hheader, hbody⟩, hbranches⟩, hrest⟩ := hfits
    obtain ⟨hwidth, ⟨deeper, hdeeper, hinside⟩, hbeside, hsame⟩ := haligned
    have hvoid := (isCodeLine_iff.1 (isHeader_iff.1 hheader).1).1
    have hafter : EndsAt target.profile width (rest.lines ++ lines) :=
      Forest.endsAt hsame hrest hends
    have hdeep := length_lt_of_mem_cons hstack hwidth hdeeper
    rw [Forest.lines, List.cons_append, List.append_assoc, List.append_assoc,
      closeFrom_cons_of_lt hvoid (by rwa [hwidth]), effect_of_isHeader hheader, Forest.delimited,
      List.cons_append, List.append_assoc, List.append_assoc]
    have hin := body.closeFrom_lines hinside hbody hdeep
      (Branches.endsAt hbeside hbranches hdeeper hafter)
    have hbetween := branches.closeFrom_lines hbeside hbranches hstack hwidth hafter
    have hbehind := rest.closeFrom_lines hsame hrest hstack hends
    exact congrArg (header :: ·) (hin.trans (by rw [hbetween, hbehind]))

theorem Branches.closeFrom_lines (branches : Branches) {width : Nat} {stack lines : List Text}
    {indent : Text} (haligned : branches.Aligned width) (hfits : branches.fits target.profile)
    (hstack : ∀ indent ∈ stack, indent.length < width) (hindent : indent.length = width)
    (hends : EndsAt target.profile width lines) :
    closeFrom target.profile (indent :: stack) [] (branches.lines ++ lines)
      = branches.delimited target.profile indent ++ closeFrom target.profile stack [] lines := by
  match branches with
  | .nil => exact closeFrom_of_endsAt hindent hends
  | .cons line body rest =>
    simp only [Branches.fits, Bool.and_eq_true] at hfits
    obtain ⟨⟨hbranch, hbody⟩, hrest⟩ := hfits
    obtain ⟨hwidth, ⟨deeper, hdeeper, hinside⟩, hsame⟩ := haligned
    have hvoid := (isCodeLine_iff.1 (isBranch_iff.1 hbranch).1).1
    have hdeep := length_lt_of_mem_cons hstack hwidth hdeeper
    rw [Branches.lines, List.cons_append, List.append_assoc,
      closeFrom_cons_of_continues hvoid (effect_of_isBranch hbranch) (hindent.trans hwidth.symm),
      Branches.delimited, List.cons_append, List.append_assoc]
    have hin := body.closeFrom_lines hinside hbody hdeep
      (Branches.endsAt hsame hrest hdeeper hends)
    have hbetween := rest.closeFrom_lines hsame hrest hstack hwidth hends
    exact congrArg (line :: ·) (hin.trans (by rw [hbetween]))

end

end Forests

/-! ## Levels -/

section Levels

variable {target : Language} {lines : List Text} {line indent : Text} {depth : Nat}

theorem isEmpty_trim_of_isCodeLine {target : Profile} (h : isCodeLine target line) :
    (Text.trim line).isEmpty = false := by
  have hvoid := (isCodeLine_iff.1 h).1
  rw [List.isEmpty_eq_false_iff, ne_eq, Text.trim_eq_nil_iff, hvoid]
  simp

/-- A line with code goes one level out, or one in, or stays, as its code says. -/
theorem levelFrom_cons {target : Profile} (h : isCodeLine target line) :
    levelFrom target depth (line :: lines)
      = (target.indentAt (if stepsOut target (target.codeOf line) then depth - 1 else depth)
          ++ Text.trim line)
        :: levelFrom target
          (if stepsIn target (target.codeOf line) then
            (if stepsOut target (target.codeOf line) then depth - 1 else depth) + 1
          else if stepsOut target (target.codeOf line) then depth - 1 else depth) lines := by
  have hcomment : target.isComment (Text.trim line) = false := (isCodeLine_iff.1 h).2
  simp [levelFrom, isEmpty_trim_of_isCodeLine h, hcomment]

theorem levelFrom_of_isPlain {target : Profile} (h : isPlain target line) :
    levelFrom target depth (line :: lines)
      = (target.indentAt depth ++ Text.trim line) :: levelFrom target depth lines := by
  obtain ⟨hcode, hopens, hcontinues, hcloses, hbrace⟩ := isPlain_iff.1 h
  rw [levelFrom_cons hcode]
  simp [stepsOut, stepsIn, hopens, hcontinues, hcloses, hbrace]

theorem levelFrom_of_isHeader (h : isHeader target.profile line) :
    levelFrom target.profile depth (line :: lines)
      = (target.profile.indentAt depth ++ Text.trim line)
        :: levelFrom target.profile (depth + 1) lines := by
  obtain ⟨hcode, hopens, hcontinues, hbrace⟩ := isHeader_iff.1 h
  have hcloses : target.profile.closesBlock (target.profile.codeOf line) = false := by
    by_contra hcloses
    have hclose : target.profile.blockClose = some (target.profile.codeOf line) := by
      simpa [Profile.closesBlock] using hcloses
    have hcloser : target.profile.closer = target.profile.codeOf line := by
      rw [Profile.closer, hclose, Option.getD_some]
    rw [← hcloser, opensBlock_closer] at hopens
    exact absurd hopens (by simp)
  rw [levelFrom_cons hcode]
  simp [stepsOut, stepsIn, hopens, hcontinues, hcloses, hbrace]

theorem levelFrom_of_isBranch {target : Profile} (h : isBranch target line) :
    levelFrom target (depth + 1) (line :: lines)
      = (target.indentAt depth ++ Text.trim line) :: levelFrom target (depth + 1) lines := by
  obtain ⟨hcode, hcontinues⟩ := isBranch_iff.1 h
  rw [levelFrom_cons hcode]
  simp [stepsOut, stepsIn, hcontinues]

theorem levelFrom_closer (hstyle : target.profile.blockStyle ≠ .indent)
    (hindent : ∀ c ∈ indent, isBlank c) :
    levelFrom target.profile (depth + 1) ((indent ++ target.profile.closer) :: lines)
      = (target.profile.indentAt depth ++ target.profile.closer)
        :: levelFrom target.profile depth lines := by
  rw [levelFrom_cons (isCodeLine_closer target hindent), codeOf_closer target hindent,
    trim_closer target hindent]
  simp [stepsOut, stepsIn, closesBlock_closer hstyle, opensBlock_closer, continuesBlock_closer]

mutual

/-- Over a forest with its closers the lines come to stand at the depth of their nesting, and the
depth is the same after it as before. -/
theorem Forest.levelFrom_delimited (forest : Forest) {depth : Nat} {lines : List Text}
    (hstyle : target.profile.blockStyle ≠ .indent) (hfits : forest.fits target.profile) :
    levelFrom target.profile depth (forest.delimited target.profile ++ lines)
      = forest.render target.profile depth ++ levelFrom target.profile depth lines := by
  match forest with
  | .nil => rfl
  | .plain line rest =>
    obtain ⟨hplain, hrest⟩ := Bool.and_eq_true_iff.1 hfits
    rw [Forest.delimited, List.cons_append, levelFrom_of_isPlain hplain, Forest.render,
      List.cons_append, rest.levelFrom_delimited hstyle hrest]
  | .block header body branches rest =>
    simp only [Forest.fits, Bool.and_eq_true] at hfits
    obtain ⟨⟨⟨hheader, hbody⟩, hbranches⟩, hrest⟩ := hfits
    rw [Forest.delimited, List.cons_append, List.append_assoc, List.append_assoc,
      levelFrom_of_isHeader hheader, body.levelFrom_delimited hstyle hbody,
      branches.levelFrom_delimited hstyle hbranches
        (fun c hc ↦ Text.isBlank_of_mem_indentation hc),
      rest.levelFrom_delimited hstyle hrest, Forest.render]
    simp

theorem Branches.levelFrom_delimited (branches : Branches) {depth : Nat} {indent : Text}
    {lines : List Text} (hstyle : target.profile.blockStyle ≠ .indent)
    (hfits : branches.fits target.profile) (hindent : ∀ c ∈ indent, isBlank c) :
    levelFrom target.profile (depth + 1) (branches.delimited target.profile indent ++ lines)
      = branches.render target.profile depth
        ++ (target.profile.indentAt depth ++ target.profile.closer)
          :: levelFrom target.profile depth lines := by
  match branches with
  | .nil => exact levelFrom_closer hstyle hindent
  | .cons line body rest =>
    simp only [Branches.fits, Bool.and_eq_true] at hfits
    obtain ⟨⟨hbranch, hbody⟩, hrest⟩ := hfits
    rw [Branches.delimited, List.cons_append, List.append_assoc, levelFrom_of_isBranch hbranch,
      body.levelFrom_delimited hstyle hbody,
      rest.levelFrom_delimited hstyle hrest (fun c hc ↦ Text.isBlank_of_mem_indentation hc),
      Branches.render]
    simp

end

end Levels

/-! ## Both passes -/

/-- A program that is nested by indentation comes out nested by delimiters: each line, trimmed, at
the depth of its nesting, and after the last body of each block one closer at the depth of its
header. -/
theorem relevel_closeBlocks_lines {target : Language} {forest : Forest} {width : Nat}
    (hstyle : target.profile.blockStyle ≠ .indent) (haligned : forest.Aligned width)
    (hfits : forest.fits target.profile) :
    relevel target.profile (closeBlocks target.profile forest.lines)
      = forest.render target.profile 0 := by
  have hclosed : closeBlocks target.profile forest.lines = forest.delimited target.profile := by
    have h : closeFrom target.profile [] [] (forest.lines ++ [])
        = forest.delimited target.profile ++ closeFrom target.profile [] [] [] :=
      forest.closeFrom_lines haligned hfits (by simp) trivial
    simpa [closeBlocks, closeFrom] using h
  have hleveled : levelFrom target.profile 0 (forest.delimited target.profile ++ [])
      = forest.render target.profile 0 ++ levelFrom target.profile 0 [] :=
    forest.levelFrom_delimited hstyle hfits
  rw [hclosed, relevel, if_neg hstyle]
  simpa [levelFrom] using hleveled

/-- A block in a block, a dedent by two levels at once, and a branch without a body. -/
theorem relevel_closeBlocks_lines_nested :
    let forest : Forest :=
      .block "if (a) \x7b"
        (.block "    while (b) \x7b" (.plain "          f(); // \x7d" .nil) .nil .nil)
        (.cons "\x7d else \x7b" .nil .nil) (.plain "g(); " .nil)
    let profile := Language.javascript.profile
    profile.blockStyle ≠ .indent ∧ forest.Aligned 0 ∧ forest.fits profile
      ∧ relevel profile (closeBlocks profile forest.lines)
        = [("if (a) \x7b" : Text), "  while (b) \x7b", "    f(); // \x7d", "  \x7d",
          "\x7d else \x7b", "\x7d", "g();"] := by
  intro forest profile
  have hstyle : profile.blockStyle ≠ .indent := by decide
  have haligned : forest.Aligned 0 := by
    refine ⟨by decide, ⟨4, by decide, by decide, ⟨10, by decide, by decide, trivial⟩, trivial,
      trivial⟩, ⟨by decide, ⟨1, by decide, trivial⟩, trivial⟩, by decide, trivial⟩
  have hfits : forest.fits profile := by decide +kernel
  exact ⟨hstyle, haligned, hfits,
    (relevel_closeBlocks_lines hstyle haligned hfits).trans (by decide +kernel)⟩

end Recast.Layout
