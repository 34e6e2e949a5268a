import Recast.Proofs.Layout.Indent

/-!
# Programs with braces, indented

A program whose blocks are opened by their headers and closed by braces is a forest with a brace
behind every body.  The brace of a body stands on a line of its own, or, before a further branch,
at the start of the line of that branch.  Indenting such a program should write the forest out:
every line at the depth of its nesting, each branch beside its header, and no brace.

Over a body without branches it does, whatever frames are open.  A further branch closes the
innermost open block.  But the brace before the branch has closed the block that the branch belongs
to, so the block that is closed now is the one around it, and the branch is written one level too
far out.  At the root there is no block around it, and there the branch is right.
-/

namespace Recast.Layout

/-! ## Forests with braces -/

/-- Whether a line leaves the open frames as they are: it is blank, a comment, or a statement that
opens no literal. -/
def isStatement (target : Profile) (line : Text) : Bool :=
  Text.isVoid line || target.isCommentLine line
    || isPlain target line && !Text.endsWith (target.codeOf line) ['{']
      && !isDropped (Text.trim line)

/-- Whether a line goes on with a block and opens a body of its own. -/
def isContinuation (target : Profile) (line : Text) : Bool :=
  isBranch target line && target.opensBlock (target.codeOf line)
    && !Text.startsWith (target.codeOf line) ['}']

mutual

/-- Whether every line does what its place in a forest with braces says. -/
def Forest.fitsBraces (target : Profile) : Forest → Bool
  | .nil => true
  | .plain line rest => isStatement target line && rest.fitsBraces target
  | .block header body branches rest =>
    isHeader target header && body.fitsBraces target && branches.fitsBraces target
      && rest.fitsBraces target

def Branches.fitsBraces (target : Profile) : Branches → Bool
  | .nil => true
  | .cons line body rest =>
    isContinuation target line && body.fitsBraces target && rest.fitsBraces target

end

mutual

/-- The lines are those of the forest with a brace behind every body. -/
inductive Forest.Braced : Forest → List Text → Prop
  | nil : Forest.Braced .nil []
  | plain {line : Text} {rest : Forest} {after : List Text} (hrest : Forest.Braced rest after) :
    Forest.Braced (.plain line rest) (line :: after)
  | block {header : Text} {body rest : Forest} {branches : Branches}
    {inner outer after : List Text} (hbody : Forest.Braced body inner)
    (hbranches : Branches.Braced branches outer) (hrest : Forest.Braced rest after) :
    Forest.Braced (.block header body branches rest) (header :: (inner ++ (outer ++ after)))

/-- The lines are a brace for the body before the branches, and the branches with theirs. -/
inductive Branches.Braced : Branches → List Text → Prop
  | nil {closer : Text} (hcloser : Text.trim closer = ['}']) : Branches.Braced .nil [closer]
  /-- The brace has a line of its own. -/
  | alone {closer line : Text} {body : Forest} {rest : Branches} {inner outer : List Text}
    (hcloser : Text.trim closer = ['}']) (hbody : Forest.Braced body inner)
    (hrest : Branches.Braced rest outer) :
    Branches.Braced (.cons line body rest) (closer :: line :: (inner ++ outer))
  /-- The brace stands at the start of the line of the branch. -/
  | leading {line gap : Text} {body : Forest} {rest : Branches} {inner outer : List Text}
    (hgap : ∀ c ∈ gap, isBlank c) (hbody : Forest.Braced body inner)
    (hrest : Branches.Braced rest outer) :
    Branches.Braced (.cons line body rest)
      ((Text.indentation line ++ '}' :: (gap ++ Text.trimStart line)) :: (inner ++ outer))

end

mutual

/-- The code of the forest has at least the given width, and that of a body is deeper than the line
that opens the body. -/
def Forest.Nested (target : Profile) : (least : Nat) → Forest → Prop
  | _, .nil => True
  | least, .plain line rest =>
    (isCodeLine target line → least ≤ Text.width line) ∧ rest.Nested target least
  | least, .block header body branches rest =>
    least ≤ Text.width header ∧ body.Nested target (Text.width header + 1)
      ∧ branches.Nested target ∧ rest.Nested target least

def Branches.Nested (target : Profile) : Branches → Prop
  | .nil => True
  | .cons line body rest => body.Nested target (Text.width line + 1) ∧ rest.Nested target

end

/-- Whether the forest has code, not only blank lines and comments. -/
def Forest.hasCode (target : Profile) : Forest → Bool
  | .nil => false
  | .plain line rest => isCodeLine target line || rest.hasCode target
  | .block _ _ _ _ => true

/-- A line written at a depth; a blank line is empty. -/
def written (target : Profile) (depth : Nat) (line : Text) : Text :=
  if Text.isVoid line then [] else target.indentAt depth ++ Text.trim line

/-- The statement that does nothing, for a body without code. -/
def filler (target : Profile) (depth : Nat) (hasCode : Bool) : List Text :=
  if hasCode then [] else [target.indentAt (depth + 1) ++ "pass"]

mutual

/-- The forest written by indentation, from a nesting depth on. -/
def Forest.outline (target : Profile) : (depth : Nat) → Forest → List Text
  | _, .nil => []
  | depth, .plain line rest => written target depth line :: rest.outline target depth
  | depth, .block header body branches rest =>
    written target depth header :: (body.outline target (depth + 1)
      ++ (filler target depth (body.hasCode target)
        ++ (branches.outline target depth ++ rest.outline target depth)))

def Branches.outline (target : Profile) : (depth : Nat) → Branches → List Text
  | _, .nil => []
  | depth, .cons line body rest =>
    written target depth line :: (body.outline target (depth + 1)
      ++ (filler target depth (body.hasCode target) ++ rest.outline target depth))

end

/-- Whether no block has a further branch. -/
def Forest.isBranchless : Forest → Bool
  | .nil => true
  | .plain _ rest => rest.isBranchless
  | .block _ body .nil rest => body.isBranchless && rest.isBranchless
  | .block _ _ (.cons _ _ _) _ => false

def Branches.hasBranchlessBodies : Branches → Bool
  | .nil => true
  | .cons _ body rest => body.isBranchless && rest.hasBranchlessBodies

/-- Whether only blocks at the root have further branches. -/
def Forest.branchesAtRoot : Forest → Bool
  | .nil => true
  | .plain _ rest => rest.branchesAtRoot
  | .block _ body branches rest =>
    body.isBranchless && branches.hasBranchlessBodies && rest.branchesAtRoot

/-! ## One line -/

section Lines

variable {line : Text} {lines : List Text} {stack : List Frame} {opened : Nat} {hasBody : Bool}

theorem not_startsWith_trim {target : Language}
    (h : Text.startsWith (target.profile.codeOf line) ['}'] = false) :
    Text.startsWith (Text.trim line) ['}'] = false :=
  target.startsWith_trim_of_codeOf (target.isNeutral_of_notMem (by decide)) (by decide) h

theorem isDropped_of_opensBlock
    (h : Language.python.profile.opensBlock (Language.python.profile.codeOf line)) :
    isDropped (Text.trim line) = false := by
  rw [← Language.codeOf_trim] at h
  by_contra hdropped
  rw [Bool.not_eq_false, isDropped, Bool.or_eq_true, Bool.or_eq_true] at hdropped
  rcases hdropped with (hnil | hmark) | hopener
  · rw [List.isEmpty_iff.1 hnil] at h
    exact absurd h (by decide)
  · rw [eq_of_beq hmark] at h
    exact absurd h (by decide)
  · rw [eq_of_beq hopener] at h
    exact absurd h (by decide)

theorem written_of_isCodeLine {target : Profile} (h : isCodeLine target line) (depth : Nat) :
    written target depth line = target.indentAt depth ++ Text.trim line := by
  rw [written, (isCodeLine_iff.1 h).1]
  rfl

theorem frameEnd_block (target : Profile) (depth opened : Nat) (hasBody : Bool) :
    frameEnd target depth (.block opened hasBody) = filler target depth hasBody := by
  cases hasBody <;> rfl

/-- A statement is written where the frames are, and gives the innermost block a body if it is
code. -/
theorem indentFrom_statement (h : isStatement Language.python.profile line)
    (hinside : isCodeLine Language.python.profile line →
      stack.dropWhile (isOutside (Text.width line)) = stack) :
    indentFrom Language.python.profile stack (line :: lines)
      = written Language.python.profile stack.length line
        :: indentFrom Language.python.profile
          (if isCodeLine Language.python.profile line then markBody stack else stack) lines := by
  by_cases hvoid : Text.isVoid line
  · rw [indentFrom_of_isVoid hvoid, written, if_pos hvoid, isCodeLine, hvoid]
    rfl
  by_cases hcomment : Language.python.profile.isCommentLine line
  · rw [indentFrom_of_isCommentLine (by simpa using hvoid) hcomment, written, if_neg hvoid,
      isCodeLine, hcomment]
    simp
  simp only [isStatement, hvoid, hcomment, Bool.false_or, Bool.and_eq_true, Bool.not_eq_true']
    at h
  obtain ⟨⟨hplain, hliteral⟩, hkept⟩ := h
  obtain ⟨hcode, hopens, hcontinues, -, hbrace⟩ := isPlain_iff.1 hplain
  have hrest := not_startsWith_trim hbrace
  rw [← Language.codeOf_trim] at hopens hcontinues hliteral
  rw [indentFrom_of_not_startsWith hcode hrest hkept, placeLine_of_not_continues hrest hcontinues,
    hinside hcode, written_of_isCodeLine hcode, if_pos hcode]
  simp [openFrame, hopens, hliteral]

/-- A header is written where the frames are, and opens a block without a body. -/
theorem indentFrom_header (h : isHeader Language.python.profile line)
    (hinside : stack.dropWhile (isOutside (Text.width line)) = stack) :
    indentFrom Language.python.profile stack (line :: lines)
      = written Language.python.profile stack.length line
        :: indentFrom Language.python.profile
          (.block (Text.width line) false :: markBody stack) lines := by
  obtain ⟨hcode, hopens, hcontinues, hbrace⟩ := isHeader_iff.1 h
  have hrest := not_startsWith_trim hbrace
  have hkept := isDropped_of_opensBlock hopens
  rw [← Language.codeOf_trim] at hopens hcontinues
  rw [indentFrom_of_not_startsWith hcode hrest hkept, placeLine_of_not_continues hrest hcontinues,
    hinside, written_of_isCodeLine hcode]
  simp [openFrame, hopens]

theorem isContinuation_iff {target : Profile} :
    isContinuation target line ↔ isCodeLine target line
      ∧ target.continuesBlock (target.codeOf line) ∧ target.opensBlock (target.codeOf line)
      ∧ Text.startsWith (target.codeOf line) ['}'] = false := by
  simp [isContinuation, isBranch_iff, and_assoc]

/-- A branch closes the innermost block, whichever that is. -/
theorem indentFrom_continuation (h : isContinuation Language.python.profile line) :
    indentFrom Language.python.profile stack (line :: lines)
      = (closeBranch Language.python.profile stack).1
        ++ written Language.python.profile (closeBranch Language.python.profile stack).2.length line
        :: indentFrom Language.python.profile
          (.block (Text.width line) false
            :: markBody (closeBranch Language.python.profile stack).2) lines := by
  obtain ⟨hcode, hcontinues, hopens, hbrace⟩ := isContinuation_iff.1 h
  have hrest := not_startsWith_trim hbrace
  have hkept := isDropped_of_opensBlock hopens
  rw [← Language.codeOf_trim] at hopens hcontinues
  rw [indentFrom_of_not_startsWith hcode hrest hkept, placeLine_of_continues hrest hcontinues,
    written_of_isCodeLine hcode]
  simp [openFrame, hopens]

theorem isCodeLine_of_trim {brace rest : Text} (h : Text.trim brace = '}' :: rest) :
    isCodeLine Language.python.profile brace := by
  refine isCodeLine_iff.2 ⟨?_, ?_⟩
  · rw [Bool.eq_false_iff, ne_eq, ← Text.trim_eq_nil_iff, h]
    exact List.cons_ne_nil _ _
  · rw [Profile.isCommentLine, h]
    rfl

/-- A brace at the start of a line closes the innermost block. -/
theorem indentFrom_brace {brace rest : Text} (h : Text.trim brace = '}' :: rest)
    (hrest : Text.startsWith (Text.trimStart rest) ['}'] = false) :
    let placed :=
      placeLine Language.python.profile (Text.width brace) stack (Text.trimStart rest)
    indentFrom Language.python.profile (.block opened hasBody :: stack) (brace :: lines)
      = filler Language.python.profile stack.length hasBody
        ++ if isDropped (Text.trimStart rest) then indentFrom Language.python.profile stack lines
          else placed.1 ++ indentFrom Language.python.profile placed.2 lines := by
  intro placed
  rw [indentFrom_of_isCodeLine (isCodeLine_of_trim h), h, leadingClosers,
    leadingClosers_of_not_startsWith hrest, frameEnd_block]
  dsimp only
  split <;> simp [placed]

theorem indentFrom_closer {closer : Text} (h : Text.trim closer = ['}']) :
    indentFrom Language.python.profile (.block opened hasBody :: stack) (closer :: lines)
      = filler Language.python.profile stack.length hasBody
        ++ indentFrom Language.python.profile stack lines :=
  indentFrom_brace h rfl

/-- What is behind the brace of a branch is read as if it had the line to itself. -/
theorem indentFrom_leading {gap : Text} (h : isContinuation Language.python.profile line)
    (hgap : ∀ c ∈ gap, isBlank c) :
    indentFrom Language.python.profile (.block opened hasBody :: stack)
        ((Text.indentation line ++ '}' :: (gap ++ Text.trimStart line)) :: lines)
      = filler Language.python.profile stack.length hasBody
        ++ indentFrom Language.python.profile stack (line :: lines) := by
  obtain ⟨hcode, -, hopens, hbrace⟩ := isContinuation_iff.1 h
  have hindent : ∀ c ∈ Text.indentation line, isBlank c :=
    fun c hc ↦ Text.isBlank_of_mem_indentation hc
  have htrim : Text.trim (Text.indentation line ++ '}' :: (gap ++ Text.trimStart line))
      = '}' :: Text.trimEnd (gap ++ Text.trimStart line) := by
    rw [Text.trim_append_of_blank hindent, Text.trim_cons (by decide)]
  have hrest : Text.trimStart (Text.trimEnd (gap ++ Text.trimStart line)) = Text.trim line := by
    rw [Text.trimStart_trimEnd, Text.trim_append_of_blank hgap, Text.trim_trimStart]
  have hwidth : Text.width (Text.indentation line ++ '}' :: (gap ++ Text.trimStart line))
      = Text.width line := by
    rw [Text.width, Text.indentation_append_cons hindent (by decide), Text.width]
  have hnot := not_startsWith_trim hbrace
  have hkept := isDropped_of_opensBlock hopens
  rw [indentFrom_brace htrim (hrest ▸ hnot), hrest, hwidth, if_neg (by simp [hkept]),
    indentFrom_of_not_startsWith hcode hnot hkept]

/-- Before a branch the brace closes the body above it, on a line of its own or not. -/
theorem Branches.Braced.exists_of_cons {body : Forest} {rest : Branches} {outer : List Text}
    (h : (Branches.cons line body rest).Braced outer)
    (hline : isContinuation Language.python.profile line) :
    ∃ inner outside, body.Braced inner ∧ rest.Braced outside
      ∧ ∀ (opened : Nat) (hasBody : Bool) (stack : List Frame) (lines : List Text),
        indentFrom Language.python.profile (.block opened hasBody :: stack) (outer ++ lines)
          = filler Language.python.profile stack.length hasBody
            ++ indentFrom Language.python.profile stack
              (line :: (inner ++ (outside ++ lines))) := by
  cases h with
  | @alone closer line body rest inner outside hcloser hbody hrest =>
    refine ⟨inner, outside, hbody, hrest, fun opened hasBody stack lines ↦ ?_⟩
    rw [List.cons_append, List.cons_append, List.append_assoc, indentFrom_closer hcloser]
  | @leading line gap body rest inner outside hgap hbody hrest =>
    refine ⟨inner, outside, hbody, hrest, fun opened hasBody stack lines ↦ ?_⟩
    rw [List.cons_append, List.append_assoc, indentFrom_leading hline hgap]

/-- A branch inside a block leaves the block, so it is written beside the block and not in it. -/
theorem indentFrom_continuation_ne (h : isContinuation Language.python.profile line)
    (opened : Nat) (stack : List Frame) (lines tail : List Text) :
    indentFrom Language.python.profile (.block opened true :: stack) (line :: lines)
      ≠ written Language.python.profile (stack.length + 1) line :: tail := by
  have hcode := (isContinuation_iff.1 h).1
  rw [indentFrom_continuation h, written_of_isCodeLine hcode, written_of_isCodeLine hcode]
  intro heq
  have hhead := congrArg List.length (List.cons.inj heq).1
  rw [List.length_append, List.length_append, length_indentAt, length_indentAt] at hhead
  have hunit : Language.python.profile.indentUnit.length = 4 := rfl
  have hdepth : (closeBranch Language.python.profile (.block opened true :: stack)).2.length
      = stack.length := rfl
  rw [hunit, hdepth] at hhead
  omega

end Lines

/-! ## Whole programs -/

/-- In a block a forest is written out exactly if no block of it has a further branch. -/
theorem Forest.indentFrom_iff (forest : Forest) {lines : List Text} (hbraced : forest.Braced lines)
    (hfits : forest.fitsBraces Language.python.profile) {opened : Nat}
    (hnested : forest.Nested Language.python.profile (opened + 1)) (hasBody : Bool)
    (stack : List Frame) (rest tail : List Text) :
    indentFrom Language.python.profile (.block opened hasBody :: stack) (lines ++ rest)
        = forest.outline Language.python.profile (stack.length + 1) ++ tail
      ↔ forest.isBranchless
        ∧ indentFrom Language.python.profile
          (.block opened (hasBody || forest.hasCode Language.python.profile) :: stack) rest
            = tail := by
  match forest, hbraced with
  | .nil, .nil => simp [Forest.outline, Forest.isBranchless, Forest.hasCode]
  | .plain line forest, .plain hrest =>
    obtain ⟨hline, hfits⟩ := Bool.and_eq_true_iff.1 hfits
    obtain ⟨hwidth, hnested⟩ := hnested
    rw [List.cons_append, indentFrom_statement hline
      fun hcode ↦ dropWhile_isOutside_of_lt (hwidth hcode), Forest.outline, List.cons_append,
      List.cons.injEq, Forest.isBranchless, Forest.hasCode]
    cases hcode : isCodeLine Language.python.profile line with
    | true =>
      have ih := forest.indentFrom_iff hrest hfits hnested true stack rest tail
      simpa [markBody] using ih
    | false =>
      have ih := forest.indentFrom_iff hrest hfits hnested hasBody stack rest tail
      simpa using ih
  | .block header body branches forest, @Braced.block _ _ _ _ inner outer after hbody hbranches
      hrest =>
    simp only [Forest.fitsBraces, Bool.and_eq_true] at hfits
    obtain ⟨⟨⟨hheader, hfitsBody⟩, hfitsBranches⟩, hfits⟩ := hfits
    obtain ⟨hwidth, hdeeper, -, hnested⟩ := hnested
    have hin := body.indentFrom_iff hbody hfitsBody hdeeper false (.block opened true :: stack)
      (outer ++ (after ++ rest))
    simp only [List.length_cons, Bool.false_or] at hin
    rw [List.cons_append, List.append_assoc, List.append_assoc,
      indentFrom_header hheader (dropWhile_isOutside_of_lt hwidth), Forest.outline,
      List.cons_append, List.cons.injEq, List.append_assoc, List.append_assoc, List.append_assoc,
      markBody, hin, Forest.hasCode, Bool.or_true]
    match branches with
    | .nil =>
      obtain ⟨hcloser⟩ := hbranches
      have ih := forest.indentFrom_iff hrest hfits hnested true stack rest tail
      rw [List.singleton_append, indentFrom_closer hcloser, Branches.outline, List.nil_append]
      simp only [List.length_cons, List.append_cancel_left_eq]
      rw [ih]
      simp [Forest.isBranchless, and_assoc]
    | .cons line inside others =>
      simp only [Branches.fitsBraces, Bool.and_eq_true] at hfitsBranches
      obtain ⟨inner, outside, -, -, hbrace⟩ := hbranches.exists_of_cons hfitsBranches.1.1
      rw [hbrace]
      simp only [List.length_cons, List.append_cancel_left_eq, Branches.outline, List.cons_append]
      simp [Forest.isBranchless, indentFrom_continuation_ne hfitsBranches.1.1]

/-- At the root the branches of a block are written out exactly if no block in their bodies has a
further branch. -/
theorem Branches.indentFrom_root_iff (branches : Branches) {lines : List Text}
    (hbraced : branches.Braced lines) (hfits : branches.fitsBraces Language.python.profile)
    (hnested : branches.Nested Language.python.profile) (opened : Nat) (hasBody : Bool)
    (rest tail : List Text) :
    indentFrom Language.python.profile [.block opened hasBody] (lines ++ rest)
        = filler Language.python.profile 0 hasBody
          ++ (branches.outline Language.python.profile 0 ++ tail)
      ↔ branches.hasBranchlessBodies ∧ indentFrom Language.python.profile [] rest = tail := by
  match branches with
  | .nil =>
    obtain ⟨hcloser⟩ := hbraced
    rw [List.singleton_append, indentFrom_closer hcloser, Branches.outline, List.nil_append]
    simp [Branches.hasBranchlessBodies]
  | .cons line body others =>
    simp only [Branches.fitsBraces, Bool.and_eq_true] at hfits
    obtain ⟨⟨hline, hfitsBody⟩, hfits⟩ := hfits
    obtain ⟨hdeeper, hnested⟩ := hnested
    obtain ⟨inner, outside, hbody, hothers, hbrace⟩ := hbraced.exists_of_cons hline
    have hin := body.indentFrom_iff hbody hfitsBody hdeeper false [] (outside ++ rest)
    have hout := others.indentFrom_root_iff hothers hfits hnested (Text.width line)
      (body.hasCode Language.python.profile) rest tail
    simp only [List.length_nil, Nat.zero_add, Bool.false_or] at hin
    rw [hbrace, indentFrom_continuation hline, Branches.outline]
    simp only [List.length_nil, List.append_cancel_left_eq, closeBranch, List.nil_append,
      List.cons_append, List.append_assoc, List.cons.injEq, true_and, markBody, Nat.zero_add]
    rw [hin, hout, Branches.hasBranchlessBodies, Bool.and_eq_true, and_assoc]

/-- At the root a forest is written out exactly if no block inside another has a further branch. -/
theorem Forest.indentFrom_root_iff (forest : Forest) {lines : List Text}
    (hbraced : forest.Braced lines) (hfits : forest.fitsBraces Language.python.profile)
    (hnested : forest.Nested Language.python.profile 0) (rest tail : List Text) :
    indentFrom Language.python.profile [] (lines ++ rest)
        = forest.outline Language.python.profile 0 ++ tail
      ↔ forest.branchesAtRoot ∧ indentFrom Language.python.profile [] rest = tail := by
  match forest, hbraced with
  | .nil, .nil => simp [Forest.outline, Forest.branchesAtRoot]
  | .plain line forest, .plain hrest =>
    obtain ⟨hline, hfits⟩ := Bool.and_eq_true_iff.1 hfits
    have ih := forest.indentFrom_root_iff hrest hfits hnested.2 rest tail
    rw [List.cons_append, indentFrom_statement hline fun _ ↦ rfl, Forest.outline, List.cons_append,
      List.cons.injEq, Forest.branchesAtRoot, ← ih]
    simp [markBody]
  | .block header body branches forest, @Braced.block _ _ _ _ inner outer after hbody hbranches
      hrest =>
    simp only [Forest.fitsBraces, Bool.and_eq_true] at hfits
    obtain ⟨⟨⟨hheader, hfitsBody⟩, hfitsBranches⟩, hfits⟩ := hfits
    obtain ⟨-, hdeeper, hbeside, hnested⟩ := hnested
    have hin := body.indentFrom_iff hbody hfitsBody hdeeper false [] (outer ++ (after ++ rest))
    have hout := branches.indentFrom_root_iff hbranches hfitsBranches hbeside (Text.width header)
      (body.hasCode Language.python.profile) (after ++ rest)
    have ih := forest.indentFrom_root_iff hrest hfits hnested rest tail
    simp only [List.length_nil, Nat.zero_add, Bool.false_or] at hin
    rw [List.cons_append, List.append_assoc, List.append_assoc, indentFrom_header hheader rfl,
      Forest.outline]
    simp only [List.length_nil, List.cons_append, List.append_assoc, List.cons.injEq, true_and,
      markBody, Nat.zero_add]
    rw [hin, hout, ih, Forest.branchesAtRoot, Bool.and_eq_true, Bool.and_eq_true, and_assoc,
      and_assoc]

/-- Indenting a program with braces writes it out, every line at the depth of its nesting and every
branch beside its header, exactly if only blocks at the root have further branches. -/
theorem relevel_braced_iff {forest : Forest} {lines : List Text} (hbraced : forest.Braced lines)
    (hfits : forest.fitsBraces Language.python.profile)
    (hnested : forest.Nested Language.python.profile 0) :
    relevel Language.python.profile lines = forest.outline Language.python.profile 0
      ↔ forest.branchesAtRoot := by
  have h := forest.indentFrom_root_iff hbraced hfits hnested [] []
  rw [List.append_nil, List.append_nil] at h
  have hstyle : Language.python.profile.blockStyle = .indent := rfl
  rw [relevel, if_pos hstyle, h]
  exact and_iff_left rfl

/-- Both ways to close a branch at the root, and blocks in their bodies. -/
theorem relevel_braced_iff_root :
    let forest : Forest :=
      .block "if a:" (.block "  while b:" .nil .nil (.plain "  # none" .nil))
        (.cons "elif c:" (.plain "  f(); " .nil) (.cons "else:  # d" .nil .nil))
        (.plain "g()" .nil)
    let lines : List Text :=
      ["if a:", "  while b:", "  \x7d", "  # none", "\x7d", "elif c:", "  f(); ", "\x7d else:  # d",
        "\x7d", "g()"]
    forest.Braced lines ∧ forest.fitsBraces Language.python.profile
      ∧ forest.Nested Language.python.profile 0
      ∧ relevel Language.python.profile lines
        = [("if a:" : Text), "    while b:", "        pass", "    # none", "elif c:", "    f();",
          "else:  # d", "    pass", "g()"] := by
  intro forest lines
  have hbraced : forest.Braced lines := by
    have hbody : Forest.Braced (.block "  while b:" .nil .nil (.plain "  # none" .nil))
        ["  while b:", "  \x7d", "  # none"] :=
      @Forest.Braced.block _ _ _ _ [] _ _ .nil (.nil (by decide)) (.plain .nil)
    have helse : Branches.Braced (.cons "else:  # d" .nil .nil) ["\x7d else:  # d", "\x7d"] :=
      @Branches.Braced.leading _ " " _ _ [] _ (fun _ ↦ Text.isBlank_of_mem_space) .nil
        (.nil (by decide))
    have hthen : Forest.Braced (.plain "  f(); " .nil) ["  f(); "] := .plain .nil
    have helif := @Branches.Braced.alone "\x7d" "elif c:" _ _ _ _ (by decide) hthen helse
    exact .block hbody helif (.plain .nil)
  have hfits : forest.fitsBraces Language.python.profile := by decide +kernel
  have hnested : forest.Nested Language.python.profile 0 :=
    ⟨by decide, ⟨by decide, trivial, trivial, by decide, trivial⟩,
      ⟨⟨by decide, trivial⟩, trivial, trivial⟩, by decide, trivial⟩
  exact ⟨hbraced, hfits, hnested,
    ((relevel_braced_iff hbraced hfits hnested).2 (by decide)).trans (by decide +kernel)⟩

/-- A branch of a block inside another is written beside the outer block. -/
theorem relevel_braced_branch_inside :
    let forest : Forest :=
      .block "while y:"
        (.block "    if x:" (.plain "        a()" .nil)
          (.cons "    else:" (.plain "        b()" .nil) .nil) .nil) .nil .nil
    let lines : List Text :=
      ["while y:", "    if x:", "        a()", "    \x7d else:", "        b()", "    \x7d", "\x7d"]
    forest.Braced lines ∧ forest.fitsBraces Language.python.profile
      ∧ forest.Nested Language.python.profile 0
      ∧ forest.outline Language.python.profile 0
        = [("while y:" : Text), "    if x:", "        a()", "    else:", "        b()"]
      ∧ relevel Language.python.profile lines
        = [("while y:" : Text), "    if x:", "        a()", "else:", "    b()", "\x7d"] := by
  intro forest lines
  have hbraced : forest.Braced lines := by
    have hthen : Forest.Braced (.plain "        a()" .nil) ["        a()"] := .plain .nil
    have helse : Forest.Braced (.plain "        b()" .nil) ["        b()"] := .plain .nil
    have hbranch := @Branches.Braced.leading "    else:" " " _ _ _ ["    \x7d"]
      (fun _ ↦ Text.isBlank_of_mem_space) helse (.nil (by decide))
    have hinside := @Forest.Braced.block "    if x:" _ _ _ _ _ _ hthen hbranch .nil
    exact @Forest.Braced.block _ _ _ _ _ ["\x7d"] _ hinside (.nil (by decide)) .nil
  have hnested : forest.Nested Language.python.profile 0 :=
    ⟨by decide, ⟨by decide, ⟨by decide, trivial⟩, ⟨⟨by decide, trivial⟩, trivial⟩, trivial⟩,
      trivial, trivial⟩
  exact ⟨hbraced, by decide +kernel, hnested, by decide +kernel, by decide +kernel⟩

end Recast.Layout
