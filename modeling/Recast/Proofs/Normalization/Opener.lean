import Mathlib.Data.List.TakeWhile
import Recast.Proofs.Normalization.Branch
import Recast.Proofs.Text.Name

/-!
# Print statements, colons and braces

A print statement becomes a call, and a header gets the colon or the brace that it lacks.  The line
that comes out is tidy if the line was, its comment stays where it is, and there is nothing more to
mend in it.
-/

namespace Recast.Correction

open Text Pattern Normalization

variable {marks : Markers} {line code comment t u : Text} {source? : Option Profile}
  {source : Profile} {target : Language}

/-! ## Code and comment -/

theorem code_append_comment (h : marks.splitComment line = (code, comment)) :
    code ++ comment = line := by
  have happend := marks.splitComment_append line
  rwa [h] at happend

theorem line_eq_of_splitComment (h : marks.splitComment line = (code, comment)) :
    line = trimEnd code ++ (gap code ++ comment) := by
  rw [← List.append_assoc, trimEnd_append_gap, code_append_comment h]

/-- Neutral characters in front of a line are in front of its code. -/
theorem splitComment_neutral_append (hu : ∀ c ∈ u, marks.isNeutral c) (t : Text) :
    marks.splitComment (u ++ t) = (u ++ (marks.splitComment t).1, (marks.splitComment t).2) := by
  have hfst : (marks.splitComment (u ++ t)).1 = u ++ (marks.splitComment t).1 := by
    rw [Markers.splitComment_fst, Markers.untilComment_neutral_append hu, Markers.splitComment_fst]
  have happend := marks.splitComment_append (u ++ t)
  have htext : u ++ t = u ++ (marks.splitComment t).1 ++ (marks.splitComment t).2 := by
    rw [List.append_assoc, Markers.splitComment_append]
  rw [hfst] at happend
  exact Prod.ext hfst (List.append_cancel_left (happend.trans htext))

/-- Code that ends in ink is what is left of it in front of blanks. -/
theorem trimEnd_append_gap_eq (hlast : ∀ c ∈ t.getLast?, isBlank c = false)
    (hu : ∀ c ∈ u, isBlank c) : trimEnd (t ++ u) = t ∧ gap (t ++ u) = u := by
  have htrim : trimEnd (t ++ u) = t := by
    rw [trimEnd_append_of_blank t hu]
    exact dropEndWhile_eq_self hlast
  have happend := trimEnd_append_gap (t ++ u)
  rw [htrim, List.append_cancel_left_eq] at happend
  exact ⟨htrim, happend⟩

theorem isWord_of_head?_gap (hmarks : marks.IsUsual) (h : marks.splitComment line = (code, comment)) :
    ∀ c ∈ (gap code ++ comment).head?, isWord c = false := by
  intro c hc
  cases hgap : gap code with
  | cons d b =>
    rw [hgap, List.cons_append, List.head?_cons, Option.mem_some_iff] at hc
    rw [← hc]
    exact isWord_of_isBlank (isBlank_of_mem_gap (hgap ▸ List.mem_cons_self))
  | nil =>
    rw [hgap, List.nil_append] at hc
    obtain ⟨t, rfl⟩ := List.head?_eq_some_iff.1 hc
    -- What starts a comment is no neutral character, so it is one that marks are made of.
    have hcomment : marks.startsComment (c :: t) := by
      rcases marks.splitComment_cases line with hnone | ⟨hstarts, -⟩
      · exact absurd (congrArg Prod.snd (h.symm.trans hnone)) (by simp)
      · rwa [h] at hstarts
    have hmem : c ∈ markChars := by
      by_contra hnot
      rw [Markers.startsComment_cons_of_neutral (hmarks.isNeutral c hnot)] at hcomment
      exact absurd hcomment (by decide)
    have hwords : markChars.all (!isWord ·) := by decide
    simpa using List.all_eq_true.1 hwords c hmem

/-- The code of a line without the blanks behind it. -/
def bareCode (marks : Markers) (line : Text) : Text :=
  trimEnd (marks.splitComment line).1

/-- A line with a mark put behind its code. -/
def withMark (marks : Markers) (mark line : Text) : Text :=
  bareCode marks line ++ mark ++ gap (marks.splitComment line).1 ++ (marks.splitComment line).2

/-! ## Print statements -/

/-- Whether the line is no print statement without parentheses. -/
def PrintsByCall (source : Profile) (line : Text) : Prop :=
  Normalization.printStatement.readStart (bareCode source.markers line) = none

theorem PrintsByCall.mendPrint_eq (h : PrintsByCall source line) : mendPrint source line = line := by
  rw [mendPrint]
  split
  rename_i code comment hsplit
  rw [PrintsByCall, bareCode, hsplit] at h
  rw [h]

/-- Code that prints without parentheses, from its indentation to what it prints. -/
structure Prints (code indent b : Text) (c : Char) (args : Text) : Prop where
  code_eq : code = indent ++ ("print" : Text) ++ b ++ c :: args
  indent : ∀ d ∈ indent, isBlank d
  gap : b ≠ [] ∧ ∀ d ∈ b, isBlank d
  ink : isInk c
  mark : oneOf "=(" c = false

theorem Prints.isSome_readStart {indent b args : Text} {c : Char} (h : Prints code indent b c args)
    (hline : '\n' ∉ code) : (Normalization.printStatement.readStart code).isSome := by
  have hargs : ∀ d ∈ args, inLine d := by
    intro d hd
    have hne : d ≠ '\n' := by
      rintro rfl
      exact hline (by simp [h.code_eq, hd])
    simpa [inLine] using hne
  have hopening : (keep .indent blanks ++ text "print" ++ blanks1).Reads
      (indent ++ ("print" : Text) ++ b) :=
    reads_of_describes (by rfl) ⟨_, _, rfl, ⟨_, _, rfl, describes_most_char.2 h.indent,
      describes_text.2 rfl⟩, describes_most1_char.2 h.gap⟩
  have hprinted : (keep .args (char isInk ++ anything)).Reads (c :: args) :=
    reads_of_describes (by rfl) ⟨[c], args, rfl, ⟨c, rfl, h.ink⟩, describes_most_char.2 hargs⟩
  obtain ⟨⟨_, _, captures⟩, hfirst, rfl, rfl⟩ := hopening none (c :: args) []
  obtain ⟨last, hlast, hrest, -⟩ :=
    hprinted (endOf none (indent ++ ("print" : Text) ++ b)) [] captures
  rw [List.append_nil] at hlast
  refine isSome_readAt_iff.2 ⟨last, List.mem_flatMap.2 ⟨last, List.mem_flatMap.2 ⟨_,
    List.mem_flatMap.2 ⟨_, ?_, mem_outcomes_look.2 ⟨?_, rfl⟩⟩, hlast⟩, mem_outcomes_look.2 ⟨?_, rfl⟩⟩⟩
  · rw [h.code_eq]
    exact hfirst
  · simp only [readAt, run, h.mark]
    rfl
  · rw [hrest]
    rfl

theorem isBlank_of_getLast?_bareCode {c : Char} (hc : c ∈ (bareCode marks line).getLast?) :
    isBlank c = false :=
  isBlank_of_getLast?_trimEnd hc

theorem notMem_bareCode {c : Char} (h : c ∉ line) : c ∉ bareCode marks line := by
  intro hc
  refine h ?_
  rw [← marks.splitComment_append line]
  exact List.mem_append_left _ (mem_of_mem_trimEnd hc)

theorem printsByCall_iff (hline : '\n' ∉ line) : PrintsByCall source line
    ↔ ∀ indent b c args, ¬ Prints (bareCode source.markers line) indent b c args := by
  constructor
  · intro h indent b c args hprints
    have hsome := hprints.isSome_readStart (notMem_bareCode hline)
    rw [h] at hsome
    exact absurd hsome (by decide)
  · intro h
    rw [PrintsByCall, Option.eq_none_iff_forall_not_mem]
    intro reading hread
    obtain ⟨b, hbare, hindent, hb, c, hc, hink, hmark⟩ := exists_of_readStart_print_trimEnd hread
    obtain ⟨args, hargs⟩ := List.head?_eq_some_iff.1 hc
    rw [hargs] at hbare
    exact h _ _ _ _ ⟨hbare, hindent, hb, hink, hmark⟩

/-- A call is no print statement without parentheses. -/
theorem readStart_print_call {indent : Text} (hindent : ∀ c ∈ indent, isBlank c) (t : Text) :
    Normalization.printStatement.readStart (indent ++ ("print(" : Text) ++ t) = none := by
  rw [Option.eq_none_iff_forall_not_mem]
  intro reading hread
  obtain ⟨b, heq, hblank, ⟨hne, hb⟩, -, -⟩ := exists_of_readStart_printStatement hread
  have hleft : (indent ++ ("print(" : Text) ++ t).dropWhile isBlank = ("print(" : Text) ++ t := by
    rw [List.append_assoc, List.dropWhile_append_of_pos hindent]
    exact List.dropWhile_cons_of_neg (by decide)
  have hright : (indent ++ ("print(" : Text) ++ t).dropWhile isBlank
      = ("print" : Text) ++ (b ++ reading.get .args ++ reading.rest) := by
    have hassoc : indent ++ ("print(" : Text) ++ t
        = reading.get .indent ++ (("print" : Text) ++ (b ++ reading.get .args ++ reading.rest)) := by
      rw [heq]
      simp only [List.append_assoc]
    rw [hassoc, List.dropWhile_append_of_pos hblank]
    exact List.dropWhile_cons_of_neg (by decide)
  obtain ⟨c, b, rfl⟩ := List.exists_cons_of_ne_nil hne
  rw [hleft] at hright
  have hparen : c = '(' ∧ b ++ (reading.get .args ++ reading.rest) = t := by
    simpa using hright.symm
  have hc := hb c List.mem_cons_self
  rw [hparen.1] at hc
  exact absurd hc (by decide)

/-- A call in place of a print statement leaves a line tidy and its comment where it is. -/
theorem isTidy_print_call {indent b args : Text} (hmarks : marks.IsUsual) (h : IsTidy marks line)
    (hsplit : marks.splitComment line = (code, comment))
    (hbare : trimEnd code = indent ++ ("print" : Text) ++ b ++ args) (hindent : ∀ c ∈ indent, isBlank c)
    (hb : ∀ c ∈ b, isBlank c) (hargs : ∃ c ∈ args.head?, isInk c) :
    IsTidy marks (indent ++ ("print(" : Text) ++ args ++ ")" ++ gap code ++ comment)
      ∧ marks.splitComment (indent ++ ("print(" : Text) ++ args ++ ")" ++ gap code ++ comment)
        = (indent ++ ("print(" : Text) ++ args ++ ")" ++ gap code, comment) := by
  have hblank {w : Text} (hw : ∀ c ∈ w, isBlank c) : ∀ c ∈ w, marks.isNeutral c :=
    fun c hc ↦ hmarks.isNeutral_of_isBlank (hw c hc)
  have hold : ∀ c ∈ indent ++ ("print" : Text) ++ b, marks.isNeutral c :=
    List.forall_mem_append.2
      ⟨List.forall_mem_append.2 ⟨hblank hindent, hmarks.isNeutral_of_mem (by decide)⟩, hblank hb⟩
  have hnew : ∀ c ∈ indent ++ ("print(" : Text), marks.isNeutral c :=
    List.forall_mem_append.2 ⟨hblank hindent, hmarks.isNeutral_of_mem (by decide)⟩
  have hline : line = indent ++ ("print" : Text) ++ b ++ (args ++ (gap code ++ comment)) := by
    rw [line_eq_of_splitComment hsplit, hbare, List.append_assoc]
  have hrest : marks.splitComment (args ++ (gap code ++ comment)) = (args ++ gap code, comment) := by
    have hparts := splitComment_neutral_append hold (args ++ (gap code ++ comment))
    rw [← hline, hsplit] at hparts
    obtain ⟨hcode, hcomment⟩ := Prod.mk.inj hparts
    have hwhole : code = indent ++ ("print" : Text) ++ b ++ (args ++ gap code) := by
      rw [← List.append_assoc, ← hbare, trimEnd_append_gap]
    exact Prod.ext (List.append_cancel_left (hcode.symm.trans hwhole)) hcomment.symm
  obtain ⟨c, hc, hink⟩ := hargs
  obtain ⟨w, rfl⟩ := List.head?_eq_some_iff.1 hc
  have htidy : IsTidy marks (indent ++ ("print(" : Text) ++ (c :: w ++ (gap code ++ comment))) := by
    rw [hline] at h
    refine h.of_append hold (by simp) (fun d hd ↦ ⟨hnew d hd, ?_⟩) ⟨'(', by simp, by decide⟩ (.inr ?_)
    · refine (List.mem_append.1 hd).elim (fun hd ↦ notMem_of_isBlank (by decide) (hindent d hd)) ?_
      have hletters : ("print(" : Text).all (fun c ↦ !([',', ':', '{'].contains c)) := by decide
      exact fun hd ↦ by simpa using List.all_eq_true.1 hletters d hd
    · rintro d ⟨⟩
      exact isSpacing_of_isInk hink
  have hlast : ∀ d ∈ (indent ++ ("print(" : Text) ++ c :: w).getLast?, isBlank d = false := by
    intro d hd
    refine isBlank_of_getLast?_trimEnd (t := code) ?_
    rw [hbare]
    rw [List.getLast?_append, List.getLast?_cons, Option.some_or] at hd ⊢
    exact hd
  obtain ⟨htrim, hgap⟩ := trimEnd_append_gap_eq hlast fun d ↦ isBlank_of_mem_gap (t := code)
  have hcode : marks.splitComment (indent ++ ("print(" : Text) ++ (c :: w ++ (gap code ++ comment)))
      = (indent ++ ("print(" : Text) ++ c :: w ++ gap code, comment) := by
    rw [splitComment_neutral_append hnew, hrest, List.append_assoc _ (c :: w)]
  have hmark : (")" : Text) ∈ endMarks := by decide
  have hvoid : isVoid (indent ++ ("print(" : Text) ++ c :: w ++ gap code) = false := by
    rw [isVoid, List.all_eq_false]
    exact ⟨'(', by simp, by decide⟩
  have hmarked := htidy.append_mark hmarks hmark hcode hvoid
  rwa [htrim, hgap] at hmarked

/-- Mending a print statement changes nothing, or it makes a call of it. -/
theorem mendPrint_cases (hmarks : source.markers.IsUsual) (h : IsTidy source.markers line) :
    PrintsByCall source line
      ∨ ∃ indent t, (∀ c ∈ indent, isBlank c)
        ∧ mendPrint source line = indent ++ ("print(" : Text) ++ t
        ∧ IsTidy source.markers (mendPrint source line)
        ∧ PrintsByCall source (mendPrint source line) := by
  rw [mendPrint]
  split
  rename_i code comment hsplit
  split
  · rename_i reading hread
    obtain ⟨b, hbare, hindent, ⟨-, hb⟩, c, hc, hink, -⟩ := exists_of_readStart_print_trimEnd hread
    obtain ⟨htidy, hcall⟩ := isTidy_print_call hmarks h hsplit hbare hindent hb ⟨c, hc, hink⟩
    refine .inr ⟨reading.get .indent, reading.get .args ++ ")" ++ gap code ++ comment, hindent,
      by simp only [List.append_assoc], htidy, ?_⟩
    have hlast : ∀ c ∈ (reading.get .indent ++ ("print(" : Text) ++ reading.get .args
        ++ (")" : Text)).getLast?, isBlank c = false := by
      rw [List.getLast?_append]
      rintro c ⟨⟩
      decide
    rw [PrintsByCall, bareCode, hcall, (trimEnd_append_gap_eq hlast fun c ↦ isBlank_of_mem_gap).1,
      List.append_assoc (reading.get .indent ++ _)]
    exact readStart_print_call hindent _
  · rename_i hnone
    left
    rw [PrintsByCall, bareCode, hsplit]
    exact hnone

theorem KeepsBranch.mendPrint (hmarks : source.markers.IsUsual) (htidy : IsTidy source.markers line)
    (h : KeepsBranch target line) : KeepsBranch target (mendPrint source line) := by
  rcases mendPrint_cases hmarks htidy with hprints | ⟨indent, t, hindent, heq, -, -⟩
  · rwa [hprints.mendPrint_eq]
  · have hclosers : ∀ c ∈ indent, isCloser c :=
      fun c hc ↦ Bool.or_eq_true_iff.2 (.inl (hindent c hc))
    rw [heq, List.append_assoc]
    refine keepsBranch_of_head (c := 'p') (t := "rint(" ++ t) ?_ (by decide)
    rw [List.dropWhile_append_of_pos hclosers]
    exact List.dropWhile_cons_of_neg (by decide)

/-! ## Marks behind the code -/

variable {mark : Text}

theorem isTidy_withMark (hmarks : marks.IsUsual) (hmark : mark ∈ endMarks) (h : IsTidy marks line)
    (hne : bareCode marks line ≠ []) :
    IsTidy marks (withMark marks mark line)
      ∧ bareCode marks (withMark marks mark line) = bareCode marks line ++ mark := by
  have hvoid : isVoid (marks.splitComment line).1 = false := by
    rw [← Bool.not_eq_true]
    intro hvoid
    have htrim := trimEnd_append_of_blank [] (List.all_eq_true.1 hvoid)
    exact hne htrim
  have hparts : marks.splitComment line = ((marks.splitComment line).1, (marks.splitComment line).2) :=
    rfl
  obtain ⟨htidy, hsplit⟩ := h.append_mark hmarks hmark hparts hvoid
  refine ⟨htidy, ?_⟩
  rw [bareCode, withMark, bareCode, hsplit]
  refine (trimEnd_append_gap_eq (fun c hc ↦ ?_) fun c ↦ isBlank_of_mem_gap).1
  have hall : endMarks.all fun mark ↦ mark.getLast?.any (!isBlank ·) := by decide
  have hlast := List.all_eq_true.1 hall mark hmark
  cases hend : mark.getLast? with
  | none => simp [hend] at hlast
  | some d =>
    rw [List.getLast?_append, hend, Option.some_or, Option.mem_some_iff] at hc
    simpa [hend, hc] using hlast

theorem KeepsBranch.withMark (hmarks : marks.IsUsual) (hmark : mark ∈ endMarks)
    (h : KeepsBranch target line) : KeepsBranch target (withMark marks mark line) := by
  have hline : line = bareCode marks line
      ++ (gap (marks.splitComment line).1 ++ (marks.splitComment line).2) :=
    line_eq_of_splitComment rfl
  rw [hline] at h
  have hmarked := h.append_mark hmark (isWord_of_head?_gap hmarks rfl)
  rwa [← List.append_assoc] at hmarked

/-- Whether the line is neither blank nor a comment. -/
def isCodeLine (source? : Option Profile) (line : Text) : Bool :=
  !((trim line).isEmpty || isCommentLine source? (trim line))

theorem isEmpty_or_isCommentLine (source? : Option Profile) (line : Text) :
    ((trim line).isEmpty || isCommentLine source? (trim line)) = !isCodeLine source? line :=
  (Bool.not_not _).symm

theorem endsWithAny_append {marks : List Text} (hmark : mark ∈ marks) (t : Text) :
    endsWithAny (t ++ mark) marks :=
  List.any_eq_true.2 ⟨mark, hmark, List.isSuffixOf_iff_suffix.2 (List.suffix_append t mark)⟩

/-! ## Colons -/

/-- Whether the line is the header of a block and lacks its colon. -/
def lacksColon (source? : Option Profile) (line : Text) : Bool :=
  isCodeLine source? line && needsColon source? (bareCode (markersOf source?) line)

theorem mendColon_eq (source? : Option Profile) (line : Text) :
    mendColon source? line
      = if lacksColon source? line then withMark (markersOf source?) ":" line else line := by
  cases hcode : isCodeLine source? line <;>
    simp only [mendColon, isEmpty_or_isCommentLine, lacksColon, hcode] <;> rfl

theorem bareCode_ne_nil_of_lacksColon (h : lacksColon source? line) :
    bareCode (markersOf source?) line ≠ [] := by
  intro hnil
  rw [lacksColon, hnil] at h
  exact absurd h (by simp [needsColon])

theorem lacksColon_eq_false (h : endsWithAny (bareCode (markersOf source?) line)
    [":", ['{'], "\\", ",", "(", ";", "["]) : lacksColon source? line = false := by
  simp only [lacksColon, needsColon, h, Bool.not_true, Bool.and_false, Bool.false_and]

/-- Mending a colon leaves a tidy line tidy, and no colon to be mended. -/
theorem isTidy_mendColon (hmarks : (markersOf source?).IsUsual) (h : IsTidy (markersOf source?) line) :
    IsTidy (markersOf source?) (mendColon source? line)
      ∧ lacksColon source? (mendColon source? line) = false := by
  rw [mendColon_eq]
  split
  · rename_i hlacks
    have hmark : (":" : Text) ∈ endMarks := by decide
    obtain ⟨htidy, hbare⟩ :=
      isTidy_withMark hmarks hmark h (bareCode_ne_nil_of_lacksColon hlacks)
    refine ⟨htidy, lacksColon_eq_false ?_⟩
    rw [hbare]
    exact endsWithAny_append (by decide) _
  · rename_i hlacks
    exact ⟨h, Bool.eq_false_of_not_eq_true hlacks⟩

theorem KeepsBranch.mendColon (hmarks : (markersOf source?).IsUsual) (h : KeepsBranch target line) :
    KeepsBranch target (mendColon source? line) := by
  rw [mendColon_eq]
  split
  · exact h.withMark hmarks (by decide)
  · exact h

/-- A colon behind the code makes no print statement of it. -/
theorem PrintsByCall.mendColon (hmarks : source.markers.IsUsual) (htidy : IsTidy source.markers line)
    (hline : '\n' ∉ line) (h : PrintsByCall source line) :
    PrintsByCall source (mendColon (some source) line) := by
  have hmended : '\n' ∉ Correction.mendColon (some source) line := newline_notMem_mendColon hline
  rw [printsByCall_iff hline] at h
  rw [printsByCall_iff hmended]
  rw [mendColon_eq]
  split
  · rename_i hlacks
    have hmark : (":" : Text) ∈ endMarks := by decide
    obtain ⟨-, hbare⟩ := isTidy_withMark hmarks hmark htidy (bareCode_ne_nil_of_lacksColon hlacks)
    intro indent b c args hprints
    have hcode : bareCode source.markers line ++ [':'] = indent ++ ("print" : Text) ++ b ++ c :: args :=
      hbare.symm.trans hprints.code_eq
    -- What is printed is more than the colon, as the code does not end in a blank.
    rcases List.eq_nil_or_concat args with rfl | ⟨args, d, rfl⟩
    · obtain ⟨hbefore, -⟩ := List.append_inj' hcode rfl
      have hlast : b.getLast hprints.gap.1 ∈ (bareCode source.markers line).getLast? := by
        rw [hbefore, List.getLast?_append, List.getLast?_eq_some_getLast hprints.gap.1]
        rfl
      have hblank := isBlank_of_getLast?_bareCode hlast
      rw [hprints.gap.2 _ (List.getLast_mem hprints.gap.1)] at hblank
      exact absurd hblank (by decide)
    · rw [List.concat_eq_append, ← List.cons_append, ← List.append_assoc] at hcode
      obtain ⟨hbefore, -⟩ := List.append_inj' hcode rfl
      exact h indent b c args ⟨hbefore, hprints.indent, hprints.gap, hprints.ink, hprints.mark⟩
  · exact h

/-! ## Braces -/

/-- Whether the line is the header of a block and lacks its brace, unless that stands in the next
line. -/
def lacksBrace (source? : Option Profile) (line : Text) : Bool :=
  isCodeLine source? line
    && (!endsWithAny (bareCode (markersOf source?) line) [['{'], ";", ['}'], ","]
      && isBraceHeader source? (bareCode (markersOf source?) line))

/-- Whether the next line that is not blank starts with a brace. -/
def opensNext (following : List Text) : Bool :=
  startsWith (nextCode following) ['{']

theorem mendBrace_eq (source? : Option Profile) (line : Text) (following : List Text) :
    mendBrace source? line following
      = if lacksBrace source? line && !opensNext following then
          withMark (markersOf source?) [' ', '{'] line
        else line := by
  cases hcode : isCodeLine source? line with
  | false =>
    simp only [mendBrace, isEmpty_or_isCommentLine, lacksBrace, hcode]
    rfl
  | true =>
    simp only [mendBrace, isEmpty_or_isCommentLine, lacksBrace, hcode, Bool.not_true,
      Bool.false_eq_true, if_false, Bool.true_and, Bool.and_right_comm _ (!startsWith _ _)]
    rfl

theorem isBraceHeader_nil (source? : Option Profile) : isBraceHeader source? [] = false := by
  cases source? with
  | none => rfl
  | some source =>
    have hparenless : Normalization.parenlessHeader.accepts [] = false := by rfl
    have hothers : isBraceHeader (some source) []
        = ((source.language = .go || source.language = .rust)
          && Normalization.parenlessHeader.accepts []) := by rfl
    rw [hothers, hparenless, Bool.and_false]

theorem bareCode_ne_nil_of_lacksBrace (h : lacksBrace source? line) :
    bareCode (markersOf source?) line ≠ [] := by
  intro hnil
  rw [lacksBrace, hnil, isBraceHeader_nil] at h
  exact absurd h (by simp)

theorem lacksBrace_eq_false (h : endsWithAny (bareCode (markersOf source?) line)
    [['{'], ";", ['}'], ","]) : lacksBrace source? line = false := by
  simp only [lacksBrace, h, Bool.not_true, Bool.and_false, Bool.false_and]

/-- Mending a brace leaves a tidy line tidy, no brace to be mended and no colon either. -/
theorem isTidy_mendBrace (hmarks : (markersOf source?).IsUsual) (h : IsTidy (markersOf source?) line)
    (following : List Text) :
    IsTidy (markersOf source?) (mendBrace source? line following)
      ∧ (lacksBrace source? (mendBrace source? line following) && !opensNext following) = false
      ∧ (lacksColon source? line = false →
        lacksColon source? (mendBrace source? line following) = false) := by
  rw [mendBrace_eq]
  split
  · rename_i hlacks
    have hmark : [' ', '{'] ∈ endMarks := by decide
    obtain ⟨htidy, hbare⟩ := isTidy_withMark hmarks hmark h
      (bareCode_ne_nil_of_lacksBrace (Bool.and_eq_true_iff.1 hlacks).1)
    have hbrace : bareCode (markersOf source?) (withMark (markersOf source?) [' ', '{'] line)
        = bareCode (markersOf source?) line ++ [' '] ++ ['{'] := by
      rw [hbare, List.append_assoc]
      rfl
    refine ⟨htidy, ?_, fun _ ↦ lacksColon_eq_false ?_⟩
    · rw [lacksBrace_eq_false, Bool.false_and]
      rw [hbrace]
      exact endsWithAny_append (by decide) _
    · rw [hbrace]
      exact endsWithAny_append (by decide) _
  · rename_i hlacks
    exact ⟨h, Bool.eq_false_of_not_eq_true hlacks, id⟩

theorem KeepsBranch.mendBrace (hmarks : (markersOf source?).IsUsual) (h : KeepsBranch target line)
    (following : List Text) : KeepsBranch target (mendBrace source? line following) := by
  rw [mendBrace_eq]
  split
  · exact h.withMark hmarks (by decide)
  · exact h

/-! ## The lines after a header -/

theorem find?_isInk_of_isVoid (h : isVoid line) : line.find? isInk = none := by
  rw [List.find?_eq_none]
  intro c hc
  simp [isInk, List.all_eq_true.1 h c hc]

theorem head?_trim (t : Text) : (trim t).head? = t.find? isInk := by
  have hstart : (trimStart t).head? = t.find? isInk := (t.find?_not_eq_head?_dropWhile isBlank).symm
  cases hcons : trimStart t with
  | nil =>
    rw [← hstart, hcons, trim, hcons]
    rfl
  | cons c u =>
    rw [← hstart, trim, hcons, trimEnd_cons (isBlank_of_trimStart_eq_cons hcons)]
    rfl

/-- Only the first ink of the lines after a header counts. -/
theorem opensNext_cons (line : Text) (following : List Text) : opensNext (line :: following)
    = (line.find? isInk).elim (opensNext following) (· == '{') := by
  rw [opensNext, nextCode, List.find?_cons]
  cases hvoid : isVoid line with
  | true =>
    rw [find?_isInk_of_isVoid hvoid]
    rfl
  | false =>
    have hne : trim line ≠ [] := by
      rw [Ne, trim_eq_nil_iff, hvoid]
      decide
    obtain ⟨c, u, hcons⟩ := List.exists_cons_of_ne_nil hne
    have hhead := head?_trim line
    rw [hcons] at hhead
    rw [← hhead]
    simp [hcons, startsWith, List.isPrefixOf, eq_comm]

theorem opensNext_eq_of_forall₂ {following others : List Text}
    (h : List.Forall₂ (fun line other ↦ other.find? isInk = line.find? isInk) following others) :
    opensNext others = opensNext following := by
  induction h with
  | nil => rfl
  | cons hline _ ih => rw [opensNext_cons, opensNext_cons, hline, ih]

theorem find?_isInk_withMark (mark : Text) (h : bareCode marks line ≠ []) :
    (withMark marks mark line).find? isInk = line.find? isInk := by
  have hline : line = bareCode marks line
      ++ (gap (marks.splitComment line).1 ++ (marks.splitComment line).2) :=
    line_eq_of_splitComment rfl
  have hlast : (bareCode marks line).getLast h ∈ (bareCode marks line).getLast? :=
    List.getLast?_eq_some_getLast h
  have hink : (bareCode marks line).find? isInk ≠ none := by
    rw [Ne, List.find?_eq_none]
    intro hnone
    refine hnone _ (List.getLast_mem h) ?_
    rw [isInk, isBlank_of_getLast?_bareCode hlast]
    rfl
  obtain ⟨c, hc⟩ := Option.ne_none_iff_exists'.1 hink
  have hfound : line.find? isInk = some c := by
    rw [hline, List.find?_append, hc]
    rfl
  rw [withMark, hfound]
  simp [List.find?_append, hc]

/-- Whether no line lacks a brace. -/
def BracesStand (source? : Option Profile) : List Text → Prop
  | [] => True
  | line :: following =>
    (lacksBrace source? line && !opensNext following) = false ∧ BracesStand source? following

theorem BracesStand.mendBraces_eq {lines : List Text} (h : BracesStand source? lines) :
    mendBraces source? lines = lines := by
  induction lines with
  | nil => rfl
  | cons line following ih => rw [mendBraces, mendBrace_eq, h.1, ih h.2]; rfl

theorem find?_isInk_mendBrace (source? : Option Profile) (line : Text) (following : List Text) :
    (mendBrace source? line following).find? isInk = line.find? isInk := by
  rw [mendBrace_eq]
  split
  · rename_i hlacks
    exact find?_isInk_withMark _ (bareCode_ne_nil_of_lacksBrace (Bool.and_eq_true_iff.1 hlacks).1)
  · rfl

theorem find?_isInk_mendBraces (source? : Option Profile) (lines : List Text) :
    List.Forall₂ (fun line other ↦ other.find? isInk = line.find? isInk) lines
      (mendBraces source? lines) := by
  induction lines with
  | nil => exact .nil
  | cons line following ih => exact .cons (find?_isInk_mendBrace source? line following) ih

/-- Mending braces leaves none to be mended, as it does not change how a line starts. -/
theorem bracesStand_mendBraces (hmarks : (markersOf source?).IsUsual) {lines : List Text}
    (h : ∀ line ∈ lines, IsTidy (markersOf source?) line) :
    BracesStand source? (mendBraces source? lines) := by
  induction lines with
  | nil => trivial
  | cons line following ih =>
    obtain ⟨hline, hfollowing⟩ := List.forall_mem_cons.1 h
    refine ⟨?_, ih hfollowing⟩
    rw [opensNext_eq_of_forall₂ (find?_isInk_mendBraces source? following)]
    exact (isTidy_mendBrace hmarks hline following).2.1

end Recast.Correction
