import Recast.Normalization.Correction
import Recast.Proofs.Pattern.Replace
import Recast.Proofs.Pattern.Search
import Recast.Proofs.Text.Trim

/-!
# What normalization swaps

Tidying and each correction are edits of a line.  Here is, for each of them, which stretches it
takes out and what it puts in.  Whatever else is true of normalization as a rewriting of lines
follows from that.
-/

namespace Recast

open Text Pattern Logic

variable {swaps : Text → Text → Prop} {marks : Markers} {line t u : Text}

/-! ## Edits of the segments of a line -/

theorem edits_flatMap {f : Segment → Text} {segments : List Segment}
    (hf : ∀ segment ∈ segments, Edits swaps segment.text (f segment)) :
    Edits swaps (Segment.textOf segments) (segments.flatMap f) := by
  induction segments with
  | nil => exact .nil
  | cons segment segments ih =>
    obtain ⟨hfirst, hothers⟩ := List.forall_mem_cons.1 hf
    rw [Segment.textOf_cons, List.flatMap_cons]
    exact hfirst.append (ih hothers)

theorem edits_mapCode {f : Text → Text} (hf : ∀ code, Edits swaps code (f code)) (line : Text) :
    Edits swaps line (marks.mapCode f line) := by
  have h : Edits swaps (Segment.textOf (marks.segments line)) (marks.mapCode f line) := by
    apply edits_flatMap
    intro segment _
    split
    · exact hf segment.text
    · exact .refl _
  rwa [Markers.textOf_segments] at h

/-! ## Spacing -/

theorem describes_spacing : spacing.Describes u ↔ ∀ c ∈ u, isSpacing c :=
  describes_most_char

theorem describes_spacing1 : spacing1.Describes u ↔ u ≠ [] ∧ ∀ c ∈ u, isSpacing c :=
  describes_most1_char

namespace Normalization

/-- Tidying swaps spacing around a mark for no spacing or for one space. -/
inductive SpacingSwap : Text → Text → Prop where
  | comma {s : Text} (hne : s ≠ []) (hs : ∀ c ∈ s, isSpacing c) : SpacingSwap (s ++ [',']) [',']
  | wideComma {s : Text} (hs : ∀ c ∈ s, isSpacing c) : SpacingSwap (',' :: s) [',', ' ']
  | colon {s : Text} (hne : s ≠ []) (hs : ∀ c ∈ s, isSpacing c) : SpacingSwap (s ++ [':']) [':']
  | wideBrace {s : Text} (hne : s ≠ []) (hs : ∀ c ∈ s, isSpacing c) :
      SpacingSwap (s ++ ['{']) [' ', '{']

theorem edits_spacedComma (t : Text) :
    Edits SpacingSwap t (spacedComma.replace (fun _ ↦ ",") t) := by
  refine edits_replace_const ?_ t
  rintro _ ⟨s, w, rfl, hs, hw⟩
  obtain ⟨hne, hs⟩ := describes_spacing1.1 hs
  rw [describes_mark.1 hw]
  exact ⟨by simp, .comma hne hs⟩

theorem edits_wideComma (t : Text) :
    Edits SpacingSwap t (wideComma.replace (fun _ ↦ ", ") t) := by
  refine edits_replace_const ?_ t
  rintro _ ⟨-, -, rfl, ⟨-, s, rfl, ⟨v, -, rfl, hv, c, rfl, hc⟩, hs⟩, rfl⟩
  rw [describes_mark.1 hv, List.append_nil]
  exact ⟨by simp, .wideComma (List.forall_mem_cons.2 ⟨hc, (describes_spacing1.1 hs).2⟩)⟩

theorem edits_spacedColon (t : Text) :
    Edits SpacingSwap t (spacedColon.replace (fun _ ↦ ":") t) := by
  refine edits_replace_const ?_ t
  rintro _ ⟨-, -, rfl, ⟨-, w, rfl, ⟨-, s, rfl, rfl, hs⟩, hw⟩, rfl⟩
  obtain ⟨hne, hs⟩ := describes_spacing1.1 hs
  rw [describes_mark.1 hw, List.append_nil, List.nil_append]
  exact ⟨by simp, .colon hne hs⟩

theorem edits_wideBrace (t : Text) :
    Edits SpacingSwap t (wideBrace.replace (fun _ ↦ [' ', '{']) t) := by
  refine edits_replace_const ?_ t
  rintro _ ⟨-, -, rfl, ⟨-, w, rfl, ⟨-, s, rfl, ⟨-, -, rfl, rfl, c, rfl, hc⟩, hs⟩, hw⟩, rfl⟩
  rw [describes_mark.1 hw, List.append_nil]
  have hspacing : ∀ d ∈ c :: s, isSpacing d :=
    List.forall_mem_cons.2 ⟨hc, (describes_spacing1.1 hs).2⟩
  exact ⟨by simp, .wideBrace (by simp) hspacing⟩

theorem edits_tidyCode (last : Bool) (code : Text) : Edits SpacingSwap code (tidyCode last code) := by
  have hcommas := (edits_spacedComma code).trans (edits_wideComma _)
  rw [tidyCode]
  split
  · exact hcommas.trans ((edits_spacedColon _).trans (edits_wideBrace _))
  · exact hcommas

theorem edits_tidySegments (segments : List Segment) :
    Edits SpacingSwap (Segment.textOf segments) (tidySegments segments) := by
  induction segments with
  | nil => exact .nil
  | cons segment segments ih =>
    rw [Segment.textOf_cons, tidySegments]
    refine Edits.append ?_ ih
    split
    · exact edits_tidyCode _ _
    · exact .refl _

/-- Tidying drops the trailing blanks of a line and edits what is left. -/
theorem edits_tidyLine (profile? : Option Profile) (line : Text) :
    Edits SpacingSwap (trimEnd line) (tidyLine profile? line) := by
  have h := edits_tidySegments ((markersOf profile?).segments (trimEnd line))
  rwa [Markers.textOf_segments] at h

end Normalization

/-! ## Logical operators -/

namespace Logic

/-- A symbol, with the spacing around it, is swapped for the word. -/
inductive WordSwap : Text → Text → Prop where
  | mk {op : Operator} (hop : op = conjunction ∨ op = disjunction) {before after new : Text}
      (hbefore : ∀ c ∈ before, isSpacing c) (hafter : ∀ c ∈ after, isSpacing c)
      (hnew : ∀ c ∈ new, isSpacing c) :
      WordSwap (before ++ op.symbol ++ after) (new ++ op.word ++ " ")

/-- A word between spacing is swapped for the symbol. -/
inductive SymbolSwap : Text → Text → Prop where
  | mk {op : Operator} (hop : op = conjunction ∨ op = disjunction) {before after : Text}
      (hbefore : ∀ c ∈ before, isSpacing c) (hafter : ∀ c ∈ after, isSpacing c)
      (hne : before ≠ []) (hne' : after ≠ []) :
      SymbolSwap (before ++ op.word ++ after) (" " ++ op.symbol ++ " ")

variable {op : Operator}

theorem symbol_ne_nil (hop : op = conjunction ∨ op = disjunction) : op.symbol ≠ [] := by
  rcases hop with rfl | rfl <;> decide

theorem edits_leading (hop : op = conjunction ∨ op = disjunction) (t : Text) :
    Edits WordSwap t
      (op.leading.replace (fun reading ↦ reading.get .indent ++ op.word ++ " ") t) := by
  refine edits_replace ?_ t
  intro before t reading hread
  have hparts : (textStart ++ (keep .indent spacing ++ (text op.symbol ++ spacing))).readAt
      ⟨before, t, []⟩ = some reading := hread
  obtain ⟨first, hfirst, hafter⟩ := List.mem_flatMap.1 (mem_outcomes_of_readAt hparts)
  obtain rfl := eq_of_mem_outcomes_look hfirst
  have hfree : (text op.symbol ++ spacing).keepFree :=
    Bool.and_eq_true_iff.2 ⟨keepFree_text _, rfl⟩
  obtain ⟨u, -, rfl, hu, ⟨w, after, rfl, hw, hafter⟩, hindent⟩ :=
    exists_keep_append rfl hfree hafter
  rw [describes_text.1 hw, hindent]
  exact ⟨u ++ op.symbol ++ after, by simp, by simp [symbol_ne_nil hop],
    .mk hop (describes_spacing.1 hu) (describes_spacing.1 hafter) (describes_spacing.1 hu)⟩

theorem edits_inner (hop : op = conjunction ∨ op = disjunction) (t : Text) :
    Edits WordSwap t (op.inner.replace (fun _ ↦ " " ++ op.word ++ " ") t) := by
  refine edits_replace_const ?_ t
  rintro _ ⟨-, -, rfl, ⟨-, after, rfl, ⟨-, w, rfl, ⟨-, before, rfl, rfl, hbefore⟩, hw⟩, hafter⟩, rfl⟩
  rw [describes_text.1 hw, List.append_nil, List.nil_append]
  exact ⟨by simp [symbol_ne_nil hop],
    .mk hop (describes_spacing.1 hbefore) (describes_spacing.1 hafter) (by simp [isSpacing])⟩

theorem edits_toWord (hop : op = conjunction ∨ op = disjunction) (t : Text) :
    Edits WordSwap t (op.toWord t) :=
  (edits_leading hop t).trans (edits_inner hop _)

theorem edits_toWords (t : Text) : Edits WordSwap t (toWords t) :=
  (edits_toWord (.inl rfl) t).trans (edits_toWord (.inr rfl) _)

theorem edits_toSymbol (hop : op = conjunction ∨ op = disjunction) (t : Text) :
    Edits SymbolSwap t (op.toSymbol t) := by
  refine edits_replace_const ?_ t
  rintro _ ⟨-, -, rfl, ⟨-, after, rfl, ⟨-, w, rfl, ⟨-, before, rfl, rfl, hbefore⟩, hw⟩, hafter⟩, rfl⟩
  obtain ⟨hne, hbefore⟩ := describes_spacing1.1 hbefore
  obtain ⟨hne', hafter⟩ := describes_spacing1.1 hafter
  rw [describes_text.1 hw, List.append_nil, List.nil_append]
  exact ⟨by simp [hne], .mk hop hbefore hafter hne hne'⟩

theorem edits_toSymbols (t : Text) : Edits SymbolSwap t (toSymbols t) :=
  (edits_toSymbol (.inl rfl) t).trans (edits_toSymbol (.inr rfl) _)

end Logic

/-! ## Corrections -/

namespace Correction

/-- The spellings of the keyword of a further branch. -/
inductive IsElseIf : Text → Prop where
  | elif : IsElseIf "elif"
  | elsif : IsElseIf "elsif"
  | elseif : IsElseIf "elseif"
  | elseThenIf {b : Text} (hne : b ≠ []) (hb : ∀ c ∈ b, isBlank c) : IsElseIf ("else" ++ b ++ "if")

/-- What a correction swaps for what. -/
inductive Swap : Correction → Text → Text → Prop where
  | elseIfKeyword {old new : Text} (hold : IsElseIf old) (hnew : IsElseIf new) :
      Swap .elseIfKeyword old new
  | openParen {b : Text} (hb : ∀ c ∈ b, isBlank c) : Swap .printStatement b "("
  | closeParen : Swap .printStatement [] ")"
  | missingColon : Swap .missingColon [] ":"
  | missingBrace : Swap .missingBrace [] [' ', '{']
  | quotes {inner : Text} (hinner : '"' ∉ inner) :
      Swap .quotes ('\'' :: inner ++ ['\''])
        ('"' :: Text.substitute ['\\', '\''] ['\''] inner ++ ['"'])
  | duplicateTerminators {u : Text} (hne : u ≠ []) (hu : ∀ c ∈ u, c = ';') :
      Swap .duplicateTerminators (';' :: u) ";"
  | word {old new : Text} (h : WordSwap old new) : Swap .logicalOperators old new
  | symbol {old new : Text} (h : SymbolSwap old new) : Swap .logicalOperators old new

variable {source? target? : Option Profile} {source target : Profile} {reading : Reading}

/-- A line that starts, after the end of a block, with a keyword of a further branch. -/
structure StartsBranch (line indent keyword rest : Text) : Prop where
  line_eq : line = indent ++ keyword ++ rest
  indent : (blanks ++ Normalization.closer?).Describes indent
  keyword : IsElseIf keyword
  edge : ∀ c ∈ rest.head?, isWord c = false

theorem isElseIf_iff_describes {keyword : Text} :
    (anyOf ["elif", "elsif", "elseif", "else" ++ blanks1 ++ "if"]).Describes keyword
      ↔ IsElseIf keyword := by
  constructor
  · rintro (h | h | h | ⟨-, w, rfl, ⟨v, b, rfl, hv, hb⟩, hw⟩)
    · rw [describes_text.1 h]
      exact .elif
    · rw [describes_text.1 h]
      exact .elsif
    · rw [describes_text.1 h]
      exact .elseif
    · obtain ⟨hne, hb⟩ := describes_most1_char.1 hb
      rw [describes_text.1 hv, describes_text.1 hw]
      exact .elseThenIf hne hb
  · rintro (_ | _ | _ | ⟨hne, hb⟩)
    · exact .inl (describes_text.2 rfl)
    · exact .inr (.inl (describes_text.2 rfl))
    · exact .inr (.inr (.inl (describes_text.2 rfl)))
    · exact .inr (.inr (.inr ⟨_, _, rfl, ⟨_, _, rfl, describes_text.2 rfl,
        describes_most1_char.2 ⟨hne, hb⟩⟩, describes_text.2 rfl⟩))

theorem IsElseIf.getLast?_eq {keyword : Text} (h : IsElseIf keyword) :
    keyword.getLast? = some 'f' := by
  cases h with
  | elif | elsif | elseif => rfl
  | elseThenIf => rw [List.getLast?_append]; rfl

/-- Where the keyword of a further branch is read, it stands after the end of a block. -/
theorem exists_startsBranch_of_readStart
    (h : Normalization.elseIfKeyword.readStart line = some reading) :
    ∃ keyword, StartsBranch line (reading.get .indent) keyword reading.rest := by
  have hparts : (keep .indent (blanks ++ Normalization.closer?)
      ++ (anyOf ["elif", "elsif", "elseif", "else" ++ blanks1 ++ "if"] ++ edge)).readAt
        ⟨none, line, []⟩ = some reading := h
  obtain ⟨indent, -, hline, hcloser, ⟨keyword, -, rfl, hkeyword, rfl⟩, hindent⟩ :=
    exists_keep_append rfl rfl (mem_outcomes_of_readAt hparts)
  rw [List.append_nil] at hline
  rw [hindent]
  refine ⟨keyword, hline, hcloser, isElseIf_iff_describes.1 hkeyword, ?_⟩
  obtain ⟨middle, -, hafter⟩ := List.mem_flatMap.1 (mem_outcomes_of_readAt hparts)
  obtain ⟨last, hlast, hedge⟩ := List.mem_flatMap.1 hafter
  obtain rfl := eq_of_mem_outcomes_look hedge
  obtain ⟨w, hw, hdescribes⟩ := exists_describes hlast
  have hbefore : reading.before = some 'f' := by
    rw [before_of_mem_outcomes hlast hw, endOf, (isElseIf_iff_describes.1 hdescribes).getLast?_eq]
    rfl
  have hword : isWord 'f' := by decide
  intro c hc
  have hholds := (mem_outcomes_look.1 hedge).1
  simpa [hbefore, hword, Option.mem_def.1 hc] using hholds

theorem edits_mendElseIf (htarget : IsElseIf target.elseIfKeyword) (line : Text) :
    Edits (Swap .elseIfKeyword) line (mendElseIf target line) := by
  rw [mendElseIf]
  split
  · rename_i reading hread
    obtain ⟨keyword, hbranch⟩ := exists_startsBranch_of_readStart hread
    have h : Edits (Swap .elseIfKeyword) (reading.get .indent ++ keyword ++ reading.rest)
        (reading.get .indent ++ target.elseIfKeyword ++ reading.rest) :=
      ((Edits.refl _).append (.single (.elseIfKeyword hbranch.keyword htarget))).append (.refl _)
    rwa [← hbranch.line_eq] at h
  · exact .refl line

/-- An output statement is its keyword, blanks and what is printed. -/
theorem exists_of_readStart_printStatement
    (h : Normalization.printStatement.readStart t = some reading) :
    ∃ b, t = reading.get .indent ++ "print" ++ b ++ reading.get .args ++ reading.rest
      ∧ (∀ c ∈ reading.get .indent, isBlank c) ∧ (b ≠ [] ∧ ∀ c ∈ b, isBlank c)
      ∧ (∀ c ∈ reading.rest, isBlank c)
      ∧ ∃ c ∈ (reading.get .args).head?, isInk c ∧ oneOf "=(" c = false := by
  have hparts : (keep .indent blanks ++ (text "print" ++ (blanks1
      ++ (notAhead (.char (oneOf "=(")) ++ (keep .args (.char isInk ++ anything) ++ textEnd))))).readAt
        ⟨none, t, []⟩ = some reading := h
  obtain ⟨r₁, h₁, hparts⟩ := List.mem_flatMap.1 (mem_outcomes_of_readAt hparts)
  obtain ⟨r₂, h₂, hparts⟩ := List.mem_flatMap.1 hparts
  obtain ⟨r₃, h₃, hparts⟩ := List.mem_flatMap.1 hparts
  obtain ⟨r₄, h₄, hparts⟩ := List.mem_flatMap.1 hparts
  obtain ⟨r₅, h₅, hend⟩ := List.mem_flatMap.1 hparts
  obtain ⟨first, hfirst, rfl⟩ := List.mem_map.1 h₁
  obtain ⟨last, hlast, rfl⟩ := List.mem_map.1 h₅
  have hrest (c : Char) := isBlank_of_mem_outcomes_textEnd (c := c) hend
  have hnot := (mem_outcomes_look.1 h₄).1
  obtain rfl := eq_of_mem_outcomes_look h₄
  obtain rfl := eq_of_mem_outcomes_look hend
  obtain ⟨indent, hindent, hblank⟩ := exists_describes hfirst
  obtain ⟨w, hw, hprint⟩ := exists_describes h₂
  obtain ⟨b, hb, hgap⟩ := exists_describes h₃
  obtain ⟨args, hargs, hprinted⟩ := exists_describes hlast
  have hcaptures : last.captures = [⟨.indent, t, first.rest⟩] := by
    rw [captures_eq_of_keepFree rfl hlast, captures_eq_of_keepFree rfl h₃,
      captures_eq_of_keepFree (keepFree_text _) h₂]
    simpa using captures_eq_of_keepFree rfl hfirst
  simp only at hindent hw hargs
  rw [describes_text.1 hprint] at hw
  have hgetArgs : Capture.text ⟨.args, r₄.rest, last.rest⟩ = args := by
    simp [Capture.text, hargs]
  have hgetIndent : Capture.text ⟨.indent, t, first.rest⟩ = indent := by
    simp [Capture.text, hindent]
  simp only [Reading.get, Reading.get?, hcaptures, List.find?, reduceCtorEq, decide_true,
    decide_false, Option.map_some, Option.getD_some, hgetArgs, hgetIndent]
  refine ⟨b, ?_, describes_most_char.1 hblank, describes_most1_char.1 hgap, hrest, ?_⟩
  · simp only [hindent, hw, hb, hargs, List.append_assoc]
  · obtain ⟨_, _, rfl, ⟨c, rfl, hc⟩, -⟩ := hprinted
    exact ⟨c, rfl, hc, by simpa [hargs, readAt, run] using hnot⟩

/-- In code without blanks at its end nothing is left after what is printed. -/
theorem exists_of_readStart_print_trimEnd
    (h : Normalization.printStatement.readStart (trimEnd t) = some reading) :
    ∃ b, trimEnd t = reading.get .indent ++ "print" ++ b ++ reading.get .args
      ∧ (∀ c ∈ reading.get .indent, isBlank c) ∧ (b ≠ [] ∧ ∀ c ∈ b, isBlank c)
      ∧ ∃ c ∈ (reading.get .args).head?, isInk c ∧ oneOf "=(" c = false := by
  obtain ⟨b, hbare, hindent, hb, hrest, hargs⟩ := exists_of_readStart_printStatement h
  have hnil : reading.rest = [] := by
    have htrim := trimEnd_append_of_blank
      (reading.get .indent ++ "print" ++ b ++ reading.get .args) hrest
    have hgap := trimEnd_append_gap (reading.get .indent ++ "print" ++ b ++ reading.get .args)
    rw [← htrim, ← hbare, trimEnd_trimEnd, hbare, List.append_assoc, List.append_right_eq_self,
      List.append_eq_nil_iff] at hgap
    exact hgap.1
  rw [hnil, List.append_nil] at hbare
  exact ⟨b, hbare, hindent, hb, hargs⟩

theorem edits_mendPrint (source : Profile) (line : Text) :
    Edits (Swap .printStatement) line (mendPrint source line) := by
  have hline := source.markers.splitComment_append line
  rw [mendPrint]
  split
  rename_i code comment hsplit
  rw [hsplit] at hline
  split
  · rename_i reading hread
    obtain ⟨b, hbare, -, ⟨-, hb⟩, -⟩ := exists_of_readStart_print_trimEnd hread
    have hopened : ("print(" : Text) = ("print" : Text) ++ ("(" : Text) := rfl
    have hprint : Edits (Swap .printStatement)
        (reading.get .indent ++ ("print" : Text) ++ b ++ reading.get .args ++ [])
        (reading.get .indent ++ ("print" : Text) ++ ("(" : Text) ++ reading.get .args ++ ")") :=
      (((Edits.refl _).append (.single (.openParen hb))).append (.refl _)).append
        (.single .closeParen)
    rw [List.append_nil, ← hbare, List.append_assoc (reading.get .indent), ← hopened] at hprint
    have h := (hprint.append (.refl (gap code))).append (.refl comment)
    rwa [trimEnd_append_gap, hline] at h
  · exact .refl line

/-- A mark put in front of the trailing blanks of the code and the comment. -/
theorem edits_beforeComment {mark : Text} (hmark : swaps [] mark) (line : Text) :
    Edits swaps line (trimEnd (marks.splitComment line).1 ++ mark
      ++ gap (marks.splitComment line).1 ++ (marks.splitComment line).2) := by
  have h : Edits swaps
      (trimEnd (marks.splitComment line).1 ++ [] ++ gap (marks.splitComment line).1
        ++ (marks.splitComment line).2) _ :=
    (((Edits.refl _).append (.single hmark)).append (.refl _)).append (.refl _)
  rwa [List.append_nil, trimEnd_append_gap, Markers.splitComment_append] at h

theorem edits_mendColon (source? : Option Profile) (line : Text) :
    Edits (Swap .missingColon) line (mendColon source? line) := by
  simp only [mendColon]
  split
  · exact .refl line
  · split
    · exact edits_beforeComment .missingColon line
    · exact .refl line

theorem edits_mendBrace (source? : Option Profile) (line : Text) (following : List Text) :
    Edits (Swap .missingBrace) line (mendBrace source? line following) := by
  simp only [mendBrace]
  split
  · exact .refl line
  · split
    · exact edits_beforeComment .missingBrace line
    · exact .refl line

theorem edits_mendBraces (source? : Option Profile) (lines : List Text) :
    List.Forall₂ (Edits (Swap .missingBrace)) lines (mendBraces source? lines) := by
  induction lines with
  | nil => exact .nil
  | cons line following ih => exact .cons (edits_mendBrace source? line following) ih

theorem edits_unifyQuotes (literal : Text) :
    Edits (Swap .quotes) literal (unifyQuotes literal) := by
  unfold unifyQuotes
  split
  · rename_i rest
    dsimp only
    split
    · exact .refl _
    · rename_i h
      simp only [Bool.or_eq_true, not_or, Bool.not_eq_true] at h
      obtain ⟨⟨⟨⟨-, hlast⟩, hinner⟩, -⟩, -⟩ := h
      have hrest : rest = rest.dropLast ++ ['\''] := by
        apply (List.dropLast_append_getLast? _ _).symm
        simpa using hlast
      have hswap : Swap .quotes ('\'' :: rest.dropLast ++ ['\''])
          ('"' :: Text.substitute ['\\', '\''] ['\''] rest.dropLast ++ ['"']) :=
        .quotes (by simpa using hinner)
      rw [List.cons_append, ← hrest] at hswap
      exact .single hswap
  · exact .refl _

theorem edits_mendQuotes (source? : Option Profile) (line : Text) :
    Edits (Swap .quotes) line (mendQuotes source? line) := by
  rw [mendQuotes]
  split
  · exact .refl line
  · have hsegment (segment : Segment) : Edits (Swap .quotes) segment.text
        (if segment.kind = .string then unifyQuotes segment.text else segment.text) := by
      split
      · exact edits_unifyQuotes segment.text
      · exact .refl _
    have h := @edits_flatMap (Swap .quotes) _ ((markersOf source?).segments line)
      fun segment _ ↦ hsegment segment
    rwa [Markers.textOf_segments] at h

theorem edits_terminatorRun (t : Text) :
    Edits (Swap .duplicateTerminators) t (Normalization.terminatorRun.replace (fun _ ↦ ";") t) := by
  refine edits_replace_const ?_ t
  rintro _ ⟨v, u, rfl, hv, hu⟩
  obtain ⟨hne, hu⟩ := describes_most1_char.1 hu
  rw [describes_mark.1 hv]
  exact ⟨by simp, .duplicateTerminators hne (by simpa using hu)⟩

theorem edits_mendTerminators (source? : Option Profile) (line : Text) :
    Edits (Swap .duplicateTerminators) line (mendTerminators source? line) := by
  rw [mendTerminators]
  split
  · exact .refl line
  · exact edits_mapCode edits_terminatorRun line

theorem edits_mendLogic_of_word (h : source.logicStyle = .word) (line : Text) :
    Edits WordSwap line (mendLogic source line) := by
  rw [mendLogic, h]
  split
  · exact .refl line
  · exact edits_mapCode edits_toWords line

theorem edits_mendLogic_of_symbol (h : source.logicStyle = .symbol) (line : Text) :
    Edits SymbolSwap line (mendLogic source line) := by
  rw [mendLogic, h]
  split
  · exact .refl line
  · exact edits_mapCode edits_toSymbols line

theorem mendLogic_of_mixed (h : source.logicStyle = .mixed) (line : Text) :
    mendLogic source line = line := by
  rw [mendLogic, h]
  split <;> rfl

theorem edits_mendLogic (source : Profile) (line : Text) :
    Edits (Swap .logicalOperators) line (mendLogic source line) := by
  cases hstyle : source.logicStyle with
  | word => exact (edits_mendLogic_of_word hstyle line).mono .word
  | symbol => exact (edits_mendLogic_of_symbol hstyle line).mono .symbol
  | mixed =>
    rw [mendLogic_of_mixed hstyle]
    exact .refl line

/-- Every correction edits each line, by swaps of its own. -/
theorem edits_apply (correction : Correction) (source? : Option Profile) {target? : Option Profile}
    (htarget : ∀ target ∈ target?, IsElseIf target.elseIfKeyword) (lines : List Text) :
    List.Forall₂ (Edits (Swap correction)) lines (correction.apply source? target? lines) := by
  have hrefl : List.Forall₂ (Edits (Swap correction)) lines lines :=
    List.forall₂_same.2 fun line _ ↦ .refl line
  have hmap {mend : Text → Text} (hmend : ∀ line, Edits (Swap correction) line (mend line)) :
      List.Forall₂ (Edits (Swap correction)) lines (lines.map mend) := by
    rw [List.forall₂_map_right_iff, List.forall₂_same]
    exact fun line _ ↦ hmend line
  cases correction <;> simp only [apply]
  case elseIfKeyword =>
    split
    · rename_i target
      exact hmap (edits_mendElseIf (htarget target rfl))
    · exact hrefl
  case printStatement =>
    split
    · split
      · exact hmap (edits_mendPrint _)
      · exact hrefl
    · exact hrefl
  case missingColon =>
    split
    · exact hmap (edits_mendColon source?)
    · exact hrefl
  case missingBrace =>
    split
    · exact edits_mendBraces source? lines
    · exact hrefl
  case quotes =>
    split
    · exact hrefl
    · exact hmap (edits_mendQuotes source?)
  case duplicateTerminators => exact hmap (edits_mendTerminators source?)
  case logicalOperators =>
    split
    · exact hmap (edits_mendLogic _)
    · exact hrefl

end Correction

end Recast
