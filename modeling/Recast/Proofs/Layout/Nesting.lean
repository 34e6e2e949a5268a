import Recast.Proofs.Layout.Braced

/-!
# Programs with one brace a block, indented

A program may close each of its blocks once, by a brace behind the last body, with nothing between
a body and the branch that follows it.  Indenting such a program writes the forest out, however deep
its blocks are nested.  A branch closes the body before it, and the brace closes the last one.  The
width of a line closes nothing, since the lines of a body are deeper than the line that opens it.
-/

namespace Recast.Layout

/-! ## Forests with one brace a block -/

mutual

/-- The lines are those of the forest with one brace behind the last body of each block. -/
inductive Forest.Closed : Forest → List Text → Prop
  | nil : Forest.Closed .nil []
  | plain {line : Text} {rest : Forest} {after : List Text} (hrest : Forest.Closed rest after) :
    Forest.Closed (.plain line rest) (line :: after)
  | block {header closer : Text} {body rest : Forest} {branches : Branches}
    {inner outer after : List Text} (hbody : Forest.Closed body inner)
    (hbranches : Branches.Closed branches outer) (hcloser : Text.trim closer = ['}'])
    (hrest : Forest.Closed rest after) :
    Forest.Closed (.block header body branches rest)
      (header :: (inner ++ (outer ++ closer :: after)))

/-- The lines are those of the branches, with no brace between them. -/
inductive Branches.Closed : Branches → List Text → Prop
  | nil : Branches.Closed .nil []
  | cons {line : Text} {body : Forest} {rest : Branches} {inner outer : List Text}
    (hbody : Forest.Closed body inner) (hrest : Branches.Closed rest outer) :
    Branches.Closed (.cons line body rest) (line :: (inner ++ outer))

end

/-- Whether a line is nothing but a terminator or an opening brace. -/
def isMark (target : Profile) (line : Text) : Bool :=
  isCodeLine target line && isDropped (Text.trim line)

/-! ## Frames -/

section Frames

variable {stack : List Frame} {least width : Nat}

/-- The innermost frame is one that no line of at least the given width is outside of. -/
def Encloses (least : Nat) : List Frame → Prop
  | .block opened _ :: _ => opened < least
  | _ => True

theorem Encloses.dropWhile_isOutside (h : Encloses least stack) (hle : least ≤ width) :
    stack.dropWhile (isOutside width) = stack := by
  cases stack with
  | nil => rfl
  | cons frame stack =>
    cases frame with
    | block opened hasBody => exact dropWhile_isOutside_of_lt (Nat.lt_of_lt_of_le h hle)
    | literal => rfl

/-- Gives the innermost block a body if there is code for it. -/
def markIf (hasCode : Bool) (stack : List Frame) : List Frame :=
  if hasCode then markBody stack else stack

@[simp]
theorem length_markIf (hasCode : Bool) (stack : List Frame) :
    (markIf hasCode stack).length = stack.length := by
  cases hasCode
  · rfl
  · exact length_markBody stack

theorem markBody_markBody (stack : List Frame) : markBody (markBody stack) = markBody stack := by
  cases stack with
  | nil => rfl
  | cons frame stack => cases frame <;> rfl

theorem markIf_markIf (hasCode more : Bool) (stack : List Frame) :
    markIf more (markIf hasCode stack) = markIf (hasCode || more) stack := by
  cases hasCode
  · rfl
  · cases more
    · rfl
    · exact markBody_markBody stack

theorem markIf_block (hasCode : Bool) (opened : Nat) (stack : List Frame) :
    markIf hasCode (.block opened false :: stack) = .block opened hasCode :: stack := by
  cases hasCode <;> rfl

theorem Encloses.markIf (h : Encloses least stack) (hasCode : Bool) :
    Encloses least (markIf hasCode stack) := by
  cases hasCode with
  | false => exact h
  | true =>
    cases stack with
    | nil => trivial
    | cons frame stack => cases frame <;> exact h

end Frames

/-! ## Lines without a trace -/

/-- Terminators and opening braces that have lines to themselves may be left out. -/
theorem indentFrom_filter_isMark (target : Language) (stack : List Frame) (lines : List Text) :
    indentFrom target.profile stack (lines.filter (!isMark target.profile ·))
      = indentFrom target.profile stack lines := by
  induction lines generalizing stack with
  | nil => rfl
  | cons line lines ih =>
    by_cases hmark : isMark target.profile line
    · obtain ⟨hcode, hdropped⟩ := Bool.and_eq_true_iff.1 hmark
      rw [List.filter_cons_of_neg (by simp [hmark]), indentFrom_of_isDropped hcode hdropped, ih]
    · obtain ⟨written, after, -, hindent⟩ := exists_step target stack line
      rw [List.filter_cons_of_pos (by simp [hmark]), hindent, hindent, ih]

/-! ## Whole programs -/

mutual

/-- Over a forest the lines are written at the depth of their nesting, and the frames are the same
after it as before, but for the body of the innermost block. -/
theorem Forest.indentFrom_closed (forest : Forest) {lines : List Text} {least : Nat}
    {stack : List Frame} (hclosed : forest.Closed lines)
    (hfits : forest.fitsBraces Language.python.profile)
    (hnested : forest.Nested Language.python.profile least) (hstack : Encloses least stack)
    (rest : List Text) :
    indentFrom Language.python.profile stack (lines ++ rest)
      = forest.outline Language.python.profile stack.length
        ++ indentFrom Language.python.profile
          (markIf (forest.hasCode Language.python.profile) stack) rest := by
  match forest, hclosed with
  | .nil, .nil => rfl
  | .plain line forest, .plain hrest =>
    obtain ⟨hline, hfits⟩ := Bool.and_eq_true_iff.1 hfits
    obtain ⟨hwidth, hnested⟩ := hnested
    rw [List.cons_append, indentFrom_statement hline
      fun hcode ↦ hstack.dropWhile_isOutside (hwidth hcode), Forest.outline, List.cons_append,
      ← markIf, forest.indentFrom_closed hrest hfits hnested (hstack.markIf _), length_markIf,
      markIf_markIf, Forest.hasCode]
  | .block header body branches forest, @Forest.Closed.block _ closer _ _ _ inner outer after hbody
      hbranches hcloser hrest =>
    simp only [Forest.fitsBraces, Bool.and_eq_true] at hfits
    obtain ⟨⟨⟨hheader, hfitsBody⟩, hfitsBranches⟩, hfits⟩ := hfits
    obtain ⟨hwidth, hdeeper, hbeside, hnested⟩ := hnested
    have hinside : Encloses (Text.width header + 1)
        (.block (Text.width header) false :: markIf true stack) := Nat.lt_succ_self _
    have hmark : markBody stack = markIf true stack := rfl
    have hmarked : markBody (markIf true stack) = markIf true stack := markBody_markBody stack
    rw [List.cons_append, List.append_assoc, List.append_assoc, List.cons_append,
      indentFrom_header hheader (hstack.dropWhile_isOutside hwidth), hmark,
      body.indentFrom_closed hbody hfitsBody hdeeper hinside, markIf_block,
      branches.indentFrom_closed hbranches hfitsBranches hbeside hcloser hmarked,
      forest.indentFrom_closed hrest hfits hnested (hstack.markIf true), markIf_markIf,
      List.length_cons, length_markIf, Forest.outline, Forest.hasCode]
    simp

/-- Over the branches of a block each body is closed by the branch behind it, and the last one by
the brace. -/
theorem Branches.indentFrom_closed (branches : Branches) {lines : List Text} {stack : List Frame}
    {closer : Text} (hclosed : branches.Closed lines)
    (hfits : branches.fitsBraces Language.python.profile)
    (hnested : branches.Nested Language.python.profile) (hcloser : Text.trim closer = ['}'])
    (hstack : markBody stack = stack) (opened : Nat) (hasBody : Bool) (rest : List Text) :
    indentFrom Language.python.profile (.block opened hasBody :: stack) (lines ++ closer :: rest)
      = filler Language.python.profile stack.length hasBody
        ++ (branches.outline Language.python.profile stack.length
          ++ indentFrom Language.python.profile stack rest) := by
  match branches, hclosed with
  | .nil, .nil => exact indentFrom_closer hcloser
  | .cons line body branches, @Branches.Closed.cons _ _ _ inner outer hbody hrest =>
    simp only [Branches.fitsBraces, Bool.and_eq_true] at hfits
    obtain ⟨⟨hline, hfitsBody⟩, hfits⟩ := hfits
    obtain ⟨hdeeper, hnested⟩ := hnested
    have hinside : Encloses (Text.width line + 1) (.block (Text.width line) false :: stack) :=
      Nat.lt_succ_self _
    rw [List.cons_append, List.append_assoc, indentFrom_continuation hline, closeBranch,
      frameEnd_block, hstack, body.indentFrom_closed hbody hfitsBody hdeeper hinside, markIf_block,
      branches.indentFrom_closed hrest hfits hnested hcloser hstack, List.length_cons,
      Branches.outline]
    simp

end

/-- Indenting a program with one brace a block writes it out: every line at the depth of its
nesting, every branch beside its header, the statement that does nothing for every body without
code, and no brace.  Terminators and opening braces that have lines to themselves are left out
too. -/
theorem relevel_closed {forest : Forest} {lines : List Text}
    (hclosed : forest.Closed (lines.filter (!isMark Language.python.profile ·)))
    (hfits : forest.fitsBraces Language.python.profile)
    (hnested : forest.Nested Language.python.profile 0) :
    relevel Language.python.profile lines = forest.outline Language.python.profile 0 := by
  have hroot : Encloses 0 [] := trivial
  have h := forest.indentFrom_closed hclosed hfits hnested hroot []
  have hnone (hasCode : Bool) : indentFrom Language.python.profile (markIf hasCode []) [] = [] := by
    cases hasCode <;> rfl
  have hstyle : Language.python.profile.blockStyle = .indent := rfl
  rw [List.append_nil, hnone, List.append_nil, indentFrom_filter_isMark] at h
  rw [relevel, if_pos hstyle, h, List.length_nil]

/-- Branches of a block inside two others, a body of a terminator only, and braces at any width. -/
theorem relevel_closed_inside :
    let forest : Forest :=
      .block "def f():"
        (.block "   for x in y:"
          (.block "        if x:" .nil
            (.cons "        elif z:" (.plain "            g(1) " .nil)
              (.cons "        else:  # w" (.plain "         h()" .nil) .nil)) .nil)
          .nil (.plain "  k()" .nil)) .nil .nil
    let lines : List Text :=
      ["def f():", "\x7b", "   for x in y:", "        if x:", "          ;", "        elif z:",
        "            g(1) ", "        else:  # w", "         h()", " \x7d", "\x7d", "  k()",
        "    \x7d"]
    forest.Closed (lines.filter (!isMark Language.python.profile ·))
      ∧ forest.fitsBraces Language.python.profile ∧ forest.Nested Language.python.profile 0
      ∧ relevel Language.python.profile lines
        = [("def f():" : Text), "    for x in y:", "        if x:", "            pass",
          "        elif z:", "            g(1)", "        else:  # w", "            h()",
          "    k()"] := by
  intro forest lines
  have hlines : lines.filter (!isMark Language.python.profile ·)
      = [("def f():" : Text), "   for x in y:", "        if x:", "        elif z:",
        "            g(1) ", "        else:  # w", "         h()", " \x7d", "\x7d", "  k()",
        "    \x7d"] := by
    decide +kernel
  have hclosed : forest.Closed (lines.filter (!isMark Language.python.profile ·)) := by
    have hthen := @Forest.Closed.plain "            g(1) " _ _ .nil
    have helse := @Forest.Closed.plain "         h()" _ _ .nil
    have hbranches := @Branches.Closed.cons "        elif z:" _ _ _ _ hthen
      (@Branches.Closed.cons "        else:  # w" _ _ _ _ helse .nil)
    have hchain := @Forest.Closed.block "        if x:" " \x7d" _ _ _ _ _ _ .nil hbranches
      (by decide) .nil
    have hloop := @Forest.Closed.block "   for x in y:" "\x7d" _ _ _ _ _ _ hchain .nil (by decide)
      (@Forest.Closed.plain "  k()" _ _ .nil)
    rw [hlines]
    exact .block hloop .nil (by decide) .nil
  have hfits : forest.fitsBraces Language.python.profile := by decide +kernel
  have hnested : forest.Nested Language.python.profile 0 :=
    ⟨by decide, ⟨by decide, ⟨by decide, trivial,
      ⟨⟨by decide, trivial⟩, ⟨by decide, trivial⟩, trivial⟩, trivial⟩, trivial, by decide, trivial⟩,
      trivial, trivial⟩
  exact ⟨hclosed, hfits, hnested, (relevel_closed hclosed hfits hnested).trans (by decide +kernel)⟩

end Recast.Layout
