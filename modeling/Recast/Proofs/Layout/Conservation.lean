import Recast.Layout.Cleanup
import Recast.Layout.Level
import Recast.Proofs.Layout.Balance

/-!
# What the passes after balancing keep

After its braces have been balanced a program is indented afresh, loses terminators and is given its
top-level declaration.  All that a line gains or loses by this are blanks and terminators, which are
in no mark of any target.  A string that a line leaves open stays open, an escape at the end of a
line takes no other character with it, and a comment that is put back behind a shortened statement
stays a comment.  So everything else that stands in the code of a line stays there, in its order,
and no brace moves into or out of the code.
-/

namespace Recast.Layout

variable {target : Language} {c : Char} {sieve : Char → Bool} {line : Text} {lines : List Text}

/-! ## Levels -/

theorem isBlank_of_mem_indentAt {depth : Nat} (h : c ∈ target.profile.indentAt depth) :
    isBlank c := by
  have hunit : target.profile.indentUnit.all isBlank := by cases target <;> decide
  obtain ⟨unit, hmem, hc⟩ := List.mem_flatten.1 h
  rw [List.eq_of_mem_replicate hmem] at hc
  exact List.all_eq_true.1 hunit c hc

theorem sift_indentAt_append (hsieve : ∀ d, isBlank d → ¬sieve d) (depth : Nat) (line : Text) :
    target.profile.markers.sift sieve (target.profile.indentAt depth ++ Text.trim line)
      = target.profile.markers.sift sieve line := by
  rw [sift_blanks_append hsieve fun _ hd ↦ isBlank_of_mem_indentAt hd, sift_trim hsieve]

/-- Line by line the code stays the same but for blanks. -/
theorem map_sift_levelFrom (hsieve : ∀ d, isBlank d → ¬sieve d) (depth : Nat)
    (lines : List Text) :
    (levelFrom target.profile depth lines).map (target.profile.markers.sift sieve)
      = lines.map (target.profile.markers.sift sieve) := by
  induction lines generalizing depth with
  | nil => rfl
  | cons line lines ih =>
    rw [levelFrom, List.map_cons]
    dsimp only
    split
    · rename_i hvoid
      have hnone : target.profile.markers.sift sieve line = [] := by
        rw [← sift_trim hsieve, List.isEmpty_iff.1 hvoid]
        rfl
      rw [List.map_cons, ih, hnone]
      rfl
    · split
      · rw [List.map_cons, ih, sift_indentAt_append hsieve]
      · rw [List.map_cons, ih, sift_indentAt_append hsieve]

/-! ## Terminators -/

/-- Whether a character is taken off with the terminators. -/
def isTerminatorOrBlank (c : Char) : Bool :=
  c == ';' || isBlank c

theorem isTerminatorOrBlank_of_isBlank (h : isBlank c) : isTerminatorOrBlank c :=
  Bool.or_eq_true_iff.2 (.inr h)

/-- What is left of a statement without its terminators. -/
def bareStatement (code : Text) : Text :=
  Text.trimEnd (Text.dropEndWhile (· == ';') (Text.trimEnd code))

theorem exists_bareStatement_append (code : Text) :
    ∃ dropped, code = bareStatement code ++ dropped ∧ ∀ d ∈ dropped, isTerminatorOrBlank d := by
  refine ⟨Text.gap (Text.dropEndWhile (· == ';') (Text.trimEnd code))
    ++ ((Text.trimEnd code).reverse.takeWhile (· == ';')).reverse ++ Text.gap code, ?_, ?_⟩
  · rw [bareStatement, ← List.append_assoc, ← List.append_assoc, Text.trimEnd_append_gap,
      Text.dropEndWhile_append, Text.trimEnd_append_gap]
  · intro d hd
    rw [List.mem_append, List.mem_append] at hd
    rcases hd with (hd | hd) | hd
    · exact isTerminatorOrBlank_of_isBlank (Text.isBlank_of_mem_gap hd)
    · have hmark := List.mem_takeWhile_imp (List.mem_reverse.1 hd)
      exact Bool.or_eq_true_iff.2 (.inl hmark)
    · exact isTerminatorOrBlank_of_isBlank (Text.isBlank_of_mem_gap hd)

theorem endsInCode_bareStatement (code : Text) :
    target.profile.markers.endsInCode none (bareStatement code)
      = target.profile.markers.endsInCode none code := by
  obtain ⟨dropped, hcode, hdropped⟩ := exists_bareStatement_append code
  have h := Markers.endsInCode_append_neutral (bareStatement code)
    fun d hd ↦ target.isNeutral_of_eq_or_isBlank (by decide) (hdropped d hd)
  rwa [← hcode, eq_comm] at h

theorem sift_bareStatement (hsieve : ∀ d, isTerminatorOrBlank d → ¬sieve d) (code : Text) :
    target.profile.markers.sift sieve (bareStatement code)
      = target.profile.markers.sift sieve code := by
  obtain ⟨dropped, hcode, hdropped⟩ := exists_bareStatement_append code
  have h := Markers.sift_append_neutral (bareStatement code)
    (fun d hd ↦ target.isNeutral_of_eq_or_isBlank (by decide) (hdropped d hd))
    fun d hd ↦ hsieve d (hdropped d hd)
  rwa [← hcode, eq_comm] at h

/-- A line is kept, or its statement is left bare, or nothing is left of its statement; a comment
stays. -/
theorem dropTerminator_cases (target : Profile) (line : Text) {code comment : Text}
    (hsplit : target.markers.splitComment line = (code, comment)) :
    dropTerminator target line = line
      ∨ comment = [] ∧ (dropTerminator target line = bareStatement code
        ∨ Text.isVoid (bareStatement code) ∧ dropTerminator target line = [])
      ∨ comment ≠ [] ∧ (dropTerminator target line
          = bareStatement code ++ Text.orElse (Text.gap code) " " ++ comment
        ∨ Text.isVoid (bareStatement code)
          ∧ dropTerminator target line = Text.indentation line ++ comment) := by
  rw [dropTerminator, hsplit]
  dsimp only
  rw [← bareStatement]
  split
  · exact .inl rfl
  · by_cases hcomment : comment = []
    · refine .inr (.inl ⟨hcomment, ?_⟩)
      split
      · rename_i hvoid
        simp [hcomment, hvoid]
      · simp [hcomment]
    · refine .inr (.inr ⟨hcomment, ?_⟩)
      split
      · rename_i hvoid
        simp [hcomment, hvoid]
      · simp [hcomment]

theorem isBlank_of_mem_orElse {t : Text} (h : c ∈ Text.orElse (Text.gap t) " ") : isBlank c := by
  rw [Text.orElse] at h
  split at h
  · obtain rfl : c = ' ' := by simpa using h
    decide
  · exact Text.isBlank_of_mem_gap h

theorem orElse_ne_nil (t : Text) {other : Text} (h : other ≠ []) : Text.orElse t other ≠ [] := by
  rw [Text.orElse]
  split
  · exact h
  · rename_i hne
    simpa using hne

/-- Behind a statement stands a blank, so that the comment does not touch it. -/
theorem isNeutral_of_mem_head?_orElse (target : Language) (code comment : Text) :
    ∀ d ∈ (Text.orElse (Text.gap code) " " ++ comment).head?,
      target.profile.markers.isNeutral d := by
  intro d hd
  obtain ⟨first, rest, hgap⟩ := List.exists_cons_of_ne_nil
    (orElse_ne_nil (Text.gap code) (show (" " : Text) ≠ [] by decide))
  have hblank : isBlank first := isBlank_of_mem_orElse (hgap ▸ List.mem_cons_self)
  rw [hgap, List.cons_append, List.head?_cons] at hd
  rw [← Option.mem_some.1 hd]
  exact target.isNeutral_of_isBlank hblank

/-- A bare statement is kept apart from the comment that follows it. -/
theorem sift_bareStatement_append {code comment : Text}
    (hsieve : ∀ d, isTerminatorOrBlank d → ¬sieve d)
    (hend : target.profile.markers.endsInCode none code)
    (hcomment : target.profile.markers.startsComment comment) :
    target.profile.markers.sift sieve
        (bareStatement code ++ Text.orElse (Text.gap code) " " ++ comment)
      = target.profile.markers.sift sieve code := by
  have hblank : ∀ d, isBlank d → ¬sieve d :=
    fun d hd ↦ hsieve d (isTerminatorOrBlank_of_isBlank hd)
  have hbare : target.profile.markers.endsInCode none (bareStatement code) := by
    rw [endsInCode_bareStatement]
    exact hend
  calc
    target.profile.markers.sift sieve
        (bareStatement code ++ Text.orElse (Text.gap code) " " ++ comment)
      = target.profile.markers.sift sieve (bareStatement code)
          ++ target.profile.markers.sift sieve (Text.orElse (Text.gap code) " " ++ comment) := by
        rw [List.append_assoc, Markers.sift_append_of_endsInCode hbare
          (isNeutral_of_mem_head?_orElse target code comment)]
    _ = target.profile.markers.sift sieve (bareStatement code)
          ++ target.profile.markers.sift sieve comment := by
        rw [sift_blanks_append hblank fun _ hd ↦ isBlank_of_mem_orElse hd]
    _ = target.profile.markers.sift sieve code := by
        rw [Markers.sift_of_startsComment hcomment, sift_bareStatement hsieve, List.append_nil]

/-- Taking the terminators off a line leaves the rest of its code. -/
theorem sift_dropTerminator (hsieve : ∀ d, isTerminatorOrBlank d → ¬sieve d) (line : Text) :
    target.profile.markers.sift sieve (dropTerminator target.profile line)
      = target.profile.markers.sift sieve line := by
  have hblank : ∀ d, isBlank d → ¬sieve d :=
    fun d hd ↦ hsieve d (isTerminatorOrBlank_of_isBlank hd)
  -- A statement of which nothing is left has nothing in its code.
  have hnone {code : Text} (hvoid : Text.isVoid (bareStatement code)) :
      target.profile.markers.sift sieve code = [] := by
    rw [← sift_bareStatement hsieve, ← sift_trim hblank, Text.trim_eq_nil_iff.2 hvoid]
    rfl
  have hcomment := Markers.splitComment_cases target.profile.markers line
  generalize hsplit : target.profile.markers.splitComment line = parts at hcomment
  obtain ⟨code, comment⟩ := parts
  have hcases := dropTerminator_cases target.profile line hsplit
  rcases hcomment with hcomment | ⟨hstart, hend, hcode⟩
  · obtain ⟨rfl, rfl⟩ := Prod.mk.inj hcomment
    rcases hcases with h | ⟨-, h | ⟨hvoid, h⟩⟩ | ⟨h, -⟩
    · rw [h]
    · rw [h, sift_bareStatement hsieve]
    · rw [h, hnone hvoid]
      rfl
    · exact absurd rfl h
  · have hline : target.profile.markers.sift sieve code
        = target.profile.markers.sift sieve line := by
      rw [Markers.sift, hcode, Markers.sift]
    rcases hcases with h | ⟨rfl, -⟩ | ⟨-, h | ⟨hvoid, h⟩⟩
    · rw [h]
    · exact absurd hstart (by simp [Markers.startsComment_nil])
    · rw [h, sift_bareStatement_append hsieve hend hstart, hline]
    · rw [h, sift_blanks_append hblank fun _ hd ↦ Text.isBlank_of_mem_indentation hd,
        Markers.sift_of_startsComment hstart, ← hline, hnone hvoid]

/-! ## Braces -/

/-- Whether a character is a brace. -/
def isBrace (c : Char) : Bool :=
  c == '{' || c == '}'

/-- The braces that stand in the code of the lines, in their order. -/
def bracesOf (target : Profile) (lines : List Text) : Text :=
  lines.flatMap (target.markers.sift isBrace)

theorem not_isBrace_of_isTerminatorOrBlank (c : Char) (h : isTerminatorOrBlank c) :
    ¬isBrace c := by
  intro hbrace
  rcases Bool.or_eq_true_iff.1 hbrace with hc | hc
  · rw [eq_of_beq hc] at h
    exact absurd h (by decide)
  · rw [eq_of_beq hc] at h
    exact absurd h (by decide)

theorem countInLines_eq_count_bracesOf (hbrace : c = '{' ∨ c = '}') (target : Profile)
    (lines : List Text) : countInLines target c lines = (bracesOf target lines).count c := by
  have hsieve : isBrace c := by simpa [isBrace] using hbrace
  induction lines with
  | nil => rfl
  | cons line lines ih =>
    rw [countInLines_cons, ih, target.markers.countInCode_eq_count_sift isBrace hsieve, bracesOf,
      bracesOf, List.flatMap_cons, List.count_append]

theorem bracesOf_levelFrom (target : Language) (depth : Nat) (lines : List Text) :
    bracesOf target.profile (levelFrom target.profile depth lines)
      = bracesOf target.profile lines := by
  have hsieve : ∀ d, isBlank d → ¬isBrace d :=
    fun d hd ↦ not_isBrace_of_isTerminatorOrBlank d (isTerminatorOrBlank_of_isBlank hd)
  rw [bracesOf, bracesOf, List.flatMap_def, List.flatMap_def, map_sift_levelFrom hsieve]

theorem blockStyle_ne_indent {target : Profile} (hbraces : target.usesBraces) :
    target.blockStyle ≠ .indent := by
  intro h
  simp [Profile.usesBraces, h] at hbraces

theorem bracesOf_relevel (hstyle : target.profile.blockStyle ≠ .indent) (lines : List Text) :
    bracesOf target.profile (relevel target.profile lines) = bracesOf target.profile lines := by
  rw [relevel, if_neg hstyle, bracesOf_levelFrom]

theorem bracesOf_declareTopLevel (target : Language) (lines : List Text) :
    bracesOf target.profile (declareTopLevel target.profile lines)
      = bracesOf target.profile lines := by
  have hdeclaration : ∀ topLevel ∈ target.profile.topLevel,
      target.profile.markers.sift isBrace topLevel.declaration = [] := by
    cases target <;> decide
  rw [declareTopLevel]
  split
  · rename_i topLevel htop
    split
    · rfl
    · rw [bracesOf, List.flatMap_cons, List.flatMap_cons, hdeclaration topLevel htop]
      rfl
  · rfl

theorem bracesOf_cleanup (target : Language) (lines : List Text) :
    bracesOf target.profile (cleanup target.profile lines) = bracesOf target.profile lines := by
  rw [cleanup, bracesOf_declareTopLevel]
  split
  · rw [bracesOf, List.flatMap_map, bracesOf]
    congr 1
    funext line
    exact sift_dropTerminator not_isBrace_of_isTerminatorOrBlank line
  · rfl

/-- The passes after balancing keep the balance: as many opening and as many closing braces stand
in the code before and after each of them. -/
theorem countInLines_relevel_cleanup (target : Language) (hbraces : target.profile.usesBraces)
    (lines : List Text) :
    (countInLines target.profile '{' (relevel target.profile lines)
          = countInLines target.profile '{' lines
        ∧ countInLines target.profile '}' (relevel target.profile lines)
          = countInLines target.profile '}' lines)
      ∧ countInLines target.profile '{' (cleanup target.profile lines)
          = countInLines target.profile '{' lines
        ∧ countInLines target.profile '}' (cleanup target.profile lines)
          = countInLines target.profile '}' lines := by
  have hopens := countInLines_eq_count_bracesOf (c := '{') (.inl rfl) target.profile
  have hcloses := countInLines_eq_count_bracesOf (c := '}') (.inr rfl) target.profile
  have hrelevel := bracesOf_relevel (blockStyle_ne_indent hbraces) lines
  have hcleanup := bracesOf_cleanup target lines
  refine ⟨⟨?_, ?_⟩, ?_, ?_⟩
  · rw [hopens, hrelevel, hopens]
  · rw [hcloses, hrelevel, hcloses]
  · rw [hopens, hcleanup, hopens]
  · rw [hcloses, hcleanup, hcloses]

/-- A string is left open behind an escape, a terminator is taken off in front of a comment, and
nothing is left of a statement. -/
theorem countInLines_relevel_cleanup_open_string :
    let target := Language.go.profile
    let lines : List Text :=
      ["if x \x7b", "s := \"\x7b\\;  ", "f(); // \x7d", "  \x7d;\t;", ";; // \x7b"]
    target.usesBraces
      ∧ relevel target lines
        = ["if x \x7b", "\ts := \"\x7b\\;", "\tf(); // \x7d", "\x7d;\t;", ";; // \x7b"]
      ∧ cleanup target lines
        = ["package main", "", "if x \x7b", "s := \"\x7b\\", "f() // \x7d", "  \x7d;", "// \x7b"]
      ∧ (countInLines target '{' (relevel target lines) = countInLines target '{' lines
          ∧ countInLines target '}' (relevel target lines) = countInLines target '}' lines)
      ∧ countInLines target '{' (cleanup target lines) = countInLines target '{' lines
        ∧ countInLines target '}' (cleanup target lines) = countInLines target '}' lines :=
  ⟨by decide, by decide +kernel, by decide +kernel,
    countInLines_relevel_cleanup .go (by decide) _⟩

end Recast.Layout
