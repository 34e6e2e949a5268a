import Recast.Proofs.Normalization.Repeated

/-!
# Strings with other quotes

Writing strings between double quotes leaves a line with the segments that it has: code and comments
are the same, and a string that was closed is closed and holds the same characters once each escape
is read as the character behind the backslash.  Only a quote that is escaped loses its backslash.
This relies on what the scan says of a string between single quotes: every single quote inside it
stands behind a backslash that is not itself escaped, so dropping the backslash drops a whole escape.
-/

namespace Recast

open Text

/-! ## Escapes -/

namespace Text

/-- The text with each escape read as the character behind the backslash. -/
def unescaped : Text → Text
  | [] => []
  | '\\' :: c :: rest => c :: unescaped rest
  | c :: rest => c :: unescaped rest

/-- Whether a string ends in the quote that it starts with, and not before. -/
def isClosed : Text → Bool
  | [] => false
  | quote :: body => afterString quote body == some []

/-- What stands between the quotes of a string, with its escapes read. -/
def content (literal : Text) : Text :=
  unescaped literal.tail.dropLast

/-- The text with the backslash of each escaped single quote dropped. -/
def bareQuotes (t : Text) : Text :=
  substitute ['\\', '\''] ['\''] t

variable {c : Char} {t inner : Text}

theorem unescaped_cons (h : c ≠ '\\') (t : Text) : unescaped (c :: t) = c :: unescaped t := by
  rw [unescaped]
  exact fun _ _ hc ↦ absurd hc h

theorem bareQuotes_escape (t : Text) : bareQuotes ('\\' :: '\'' :: t) = '\'' :: bareQuotes t := rfl

theorem bareQuotes_cons (h : c = '\\' → t.head? ≠ some '\'') :
    bareQuotes (c :: t) = c :: bareQuotes t := by
  have hmatch : ['\\', '\''].isPrefixOf (c :: t) = false := by
    rw [Bool.eq_false_iff]
    intro hprefixed
    obtain ⟨after, hafter⟩ := List.isPrefixOf_iff_prefix.1 hprefixed
    obtain ⟨rfl, rfl⟩ := List.cons.inj hafter
    exact h rfl rfl
  rw [bareQuotes, substitute, replaceFrom, hmatch]
  rfl

/-- Between double quotes the text with bare quotes ends where the text ended between single quotes,
and it reads the same. -/
theorem afterString_bareQuotes (hdouble : '"' ∉ inner)
    (h : ∀ after ∈ afterString '\'' (inner ++ ['\'']), after = []) :
    afterString '"' (bareQuotes inner ++ ['"']) = afterString '\'' (inner ++ ['\''])
      ∧ unescaped (bareQuotes inner) = unescaped inner := by
  -- The induction takes an escape at a time, as reading does.
  fun_induction unescaped inner with
  | case1 => exact ⟨rfl, rfl⟩
  | case2 c rest ih =>
    have hrest : '"' ∉ rest := fun hc ↦ hdouble (by simp [hc])
    have hskip : afterString '\'' ('\\' :: c :: rest ++ ['\'']) = afterString '\'' (rest ++ ['\'']) := by
      simp [afterString_cons]
    rw [hskip] at h ⊢
    obtain ⟨hafter, hread⟩ := ih hrest h
    by_cases hquote : c = '\''
    · subst hquote
      rw [bareQuotes_escape]
      exact ⟨by simpa [afterString_cons] using hafter, by simp [unescaped, hread]⟩
    · -- A backslash behind the backslash escapes nothing: a quote behind it would end the string.
      have hend : c = '\\' → rest.head? ≠ some '\'' := by
        rintro - hhead
        obtain ⟨tail, rfl⟩ := List.head?_eq_some_iff.1 hhead
        exact absurd (h (tail ++ ['\'']) (by simp [afterString_cons])) (by simp)
      rw [bareQuotes_cons (by simpa using hquote), bareQuotes_cons hend]
      exact ⟨by simpa [afterString_cons] using hafter, by simp [unescaped, hread]⟩
  | case3 c rest hpair ih =>
    obtain ⟨hc, hrest⟩ := List.ne_and_not_mem_of_not_mem_cons hdouble
    by_cases hescape : c = '\\'
    · -- A backslash at the very end escapes the quote, the one as well as the other.
      subst hescape
      cases rest with
      | nil => exact ⟨rfl, rfl⟩
      | cons d rest => exact (hpair d rest rfl rfl).elim
    · have hquote : c ≠ '\'' := by
        rintro rfl
        exact absurd (h (rest ++ ['\'']) (by simp [afterString_cons])) (by simp)
      have hskip : afterString '\'' (c :: rest ++ ['\'']) = afterString '\'' (rest ++ ['\'']) := by
        simp [afterString_cons, hescape, hquote]
      rw [hskip] at h ⊢
      obtain ⟨hafter, hread⟩ := ih hrest h
      rw [bareQuotes_cons fun hc ↦ absurd hc hescape]
      refine ⟨?_, by rw [unescaped_cons hescape, hread]⟩
      simpa [afterString_cons, hescape, Ne.symm hc] using hafter

end Text

namespace Segment

variable {marks : Markers} {quote : Char} {line body after : Text} {segments : List Segment}

/-- A string of a line ends where it is closed. -/
theorem Segmented.eq_nil_of_mem_afterString (h : Segmented marks segments)
    (hmem : ⟨.string, quote :: body⟩ ∈ segments) (hafter : after ∈ afterString quote body) :
    after = [] := by
  induction h with
  | nil => exact absurd hmem List.not_mem_nil
  | code _ _ _ _ ih => exact ih (by simpa using hmem)
  | closed _ hclosed _ ih =>
    rcases List.mem_cons.1 hmem with heq | hmem
    · cases heq
      exact (Option.some.inj (hclosed.symm.trans hafter)).symm
    · exact ih hmem
  | unclosed _ hopen =>
    cases List.mem_singleton.1 hmem
    exact absurd (hopen.symm.trans hafter) (by simp)
  | comment => exact absurd hmem (by simp)

theorem eq_nil_of_mem_afterString (hmem : ⟨.string, quote :: body⟩ ∈ marks.segments line) :
    ∀ after ∈ afterString quote body, after = [] := by
  intro after hafter
  have hline : Segmented marks (marks.segments line) := segmented_scan (Nat.le_refl _) trivial
  exact hline.eq_nil_of_mem_afterString hmem hafter

end Segment

/-! ## Strings with other quotes -/

namespace Correction

variable {literal inner line : Text} {source? : Option Profile} {marks : Markers}

/-- Whether what stands between single quotes may stand between double quotes: it holds no double
quote and nothing that double quotes would interpolate. -/
def isRequotable (inner : Text) : Bool :=
  !inner.contains '"' && !mentions inner ['#', '{'] && !inner.contains '$'

theorem unifyQuotes_quoted (inner : Text) :
    unifyQuotes ('\'' :: inner ++ ['\''])
      = if isRequotable inner then '"' :: bareQuotes inner ++ ['"'] else '\'' :: inner ++ ['\''] := by
  have hempty : (inner ++ ['\'']).isEmpty = false := by cases inner <;> rfl
  rw [List.cons_append, unifyQuotes, isRequotable, bareQuotes]
  rw [List.dropLast_concat, List.getLast?_concat, hempty]
  cases inner.contains '"' <;> cases mentions inner ['#', '{'] <;> cases inner.contains '$' <;> rfl

/-- What does not stand between single quotes is left as it is. -/
theorem unifyQuotes_of_forall_ne (h : ∀ inner, literal ≠ '\'' :: inner ++ ['\'']) :
    unifyQuotes literal = literal := by
  unfold unifyQuotes
  split
  · rename_i rest
    have hlast : rest.getLast? ≠ some '\'' := by
      intro hlast
      refine h rest.dropLast ?_
      rw [List.cons_append, List.dropLast_append_getLast? _ hlast]
    simp [hlast]
  · rfl

/-- A literal is left as it is, or it stands between single quotes and gets double ones. -/
theorem unifyQuotes_cases (literal : Text) :
    unifyQuotes literal = literal
      ∨ ∃ inner, literal = '\'' :: inner ++ ['\''] ∧ isRequotable inner
        ∧ unifyQuotes literal = '"' :: bareQuotes inner ++ ['"'] := by
  by_cases h : ∃ inner, literal = '\'' :: inner ++ ['\'']
  · obtain ⟨inner, rfl⟩ := h
    rw [unifyQuotes_quoted]
    split
    · rename_i hinner
      exact .inr ⟨inner, rfl, hinner, rfl⟩
    · exact .inl rfl
  · exact .inl (unifyQuotes_of_forall_ne (not_exists.1 h))

theorem unifyQuotes_unifyQuotes (literal : Text) :
    unifyQuotes (unifyQuotes literal) = unifyQuotes literal := by
  rcases unifyQuotes_cases literal with h | ⟨inner, -, -, h⟩
  · rw [h, h]
  · rw [h]
    exact unifyQuotes_of_forall_ne fun _ hquoted ↦ absurd (List.cons.inj hquoted).1 (by decide)

/-- The segment with double quotes, if it is a string that may have them. -/
def requoted (segment : Segment) : Segment :=
  if segment.kind = .string then ⟨.string, unifyQuotes segment.text⟩ else segment

theorem requoted_requoted (segment : Segment) : requoted (requoted segment) = requoted segment := by
  obtain ⟨kind, t⟩ := segment
  cases kind with
  | string => exact congrArg (Segment.mk .string) (unifyQuotes_unifyQuotes t)
  | code | comment => rfl

/-- Whether one segment reads as the other: it is of the same kind, and it is the same unless both
are strings; a closed string is closed and has the same content. -/
structure ReadsAs (other segment : Segment) : Prop where
  kind_eq : other.kind = segment.kind
  eq_of_ne_string : segment.kind ≠ .string → other = segment
  isClosed_eq : isClosed other.text = isClosed segment.text
  content_eq : segment.kind = .string → isClosed segment.text → content other.text = content segment.text

theorem ReadsAs.refl (segment : Segment) : ReadsAs segment segment :=
  ⟨rfl, fun _ ↦ rfl, rfl, fun _ _ ↦ rfl⟩

/-- A segment of a line stays the same, or it is a string that gets double quotes and ends where it
ended. -/
theorem requoted_cases {segment : Segment} (hmem : segment ∈ marks.segments line) :
    requoted segment = segment
      ∨ ∃ inner, segment = ⟨.string, '\'' :: inner ++ ['\'']⟩
        ∧ requoted segment = ⟨.string, '"' :: bareQuotes inner ++ ['"']⟩
        ∧ afterString '"' (bareQuotes inner ++ ['"']) = afterString '\'' (inner ++ ['\''])
        ∧ unescaped (bareQuotes inner) = unescaped inner := by
  obtain ⟨kind, t⟩ := segment
  cases kind with
  | code | comment => exact .inl rfl
  | string =>
    rcases unifyQuotes_cases t with h | ⟨inner, rfl, hinner, h⟩
    · exact .inl (congrArg (Segment.mk .string) h)
    · have hdouble : '"' ∉ inner := by
        simp only [isRequotable, Bool.and_eq_true, Bool.not_eq_true'] at hinner
        simpa using hinner.1.1
      exact .inr ⟨inner, rfl, congrArg (Segment.mk .string) h,
        afterString_bareQuotes hdouble (Segment.eq_nil_of_mem_afterString hmem)⟩

theorem readsAs_requoted {segment : Segment} (hmem : segment ∈ marks.segments line) :
    ReadsAs (requoted segment) segment := by
  rcases requoted_cases hmem with h | ⟨inner, rfl, h, hafter, hread⟩
  · rw [h]
    exact .refl segment
  · rw [h]
    refine ⟨rfl, fun hkind ↦ absurd rfl hkind, ?_, fun _ _ ↦ ?_⟩
    · simp [isClosed, hafter]
    · simpa [content] using hread

theorem respelled_requoted (hquote : marks.quotes.contains '"') {segment : Segment}
    (hmem : segment ∈ marks.segments line) : Segment.Respelled marks segment (requoted segment) := by
  rcases requoted_cases hmem with h | ⟨inner, rfl, h, hafter, -⟩
  · rw [h]
    exact .refl segment
  · rw [h]
    exact .string (fun _ ↦ hquote) hafter.trans hafter.trans

/-! ## Lines with other quotes -/

theorem textOf_map_requoted (segments : List Segment) :
    Segment.textOf (segments.map requoted) = segments.flatMap mendQuote := by
  rw [Segment.textOf, List.flatMap_map]
  congr 1
  funext segment
  simp only [requoted, mendQuote]
  split <;> rfl

/-- Mending the quotes of a line leaves the line alone or its segments in place. -/
theorem mendQuotes_cases (source? : Option Profile) (line : Text) :
    mendQuotes source? line = line
        ∧ (line.contains '\'' = false ∨ isCommentLine source? (trim line))
      ∨ mendQuotes source? line
          = Segment.textOf (((markersOf source?).segments line).map requoted) := by
  rw [mendQuotes]
  split
  · rename_i hskip
    exact .inl ⟨rfl, by simpa using hskip⟩
  · rw [textOf_map_requoted]
    exact .inr rfl

theorem segments_map_requoted (hapart : marks.IsApart) (hquote : marks.quotes.contains '"')
    (line : Text) :
    marks.segments (Segment.textOf ((marks.segments line).map requoted))
      = (marks.segments line).map requoted := by
  have hrespelled : List.Forall₂ (Segment.Respelled marks) (marks.segments line)
      ((marks.segments line).map requoted) := by
    rw [List.forall₂_map_right_iff, List.forall₂_same]
    exact fun segment ↦ respelled_requoted hquote
  exact Segment.segments_respelled hapart hrespelled

theorem readsAs_segments_mendQuotes (hapart : (markersOf source?).IsApart)
    (hquote : (markersOf source?).quotes.contains '"') (line : Text) :
    List.Forall₂ (fun segment other ↦ ReadsAs other segment) ((markersOf source?).segments line)
      ((markersOf source?).segments (mendQuotes source? line)) := by
  rcases mendQuotes_cases source? line with ⟨h, -⟩ | h
  · rw [h, List.forall₂_same]
    exact fun segment _ ↦ .refl segment
  · rw [h, segments_map_requoted hapart hquote, List.forall₂_map_right_iff, List.forall₂_same]
    exact fun segment ↦ readsAs_requoted

theorem mendQuotes_mendQuotes (hapart : (markersOf source?).IsApart)
    (hquote : (markersOf source?).quotes.contains '"') (line : Text) :
    mendQuotes source? (mendQuotes source? line) = mendQuotes source? line := by
  rcases mendQuotes_cases source? line with ⟨h, -⟩ | h
  · rw [h, h]
  · rw [h]
    rcases mendQuotes_cases source? _ with ⟨h', -⟩ | h'
    · exact h'
    · rw [h', segments_map_requoted hapart hquote, List.map_map]
      exact congrArg Segment.textOf (List.map_congr_left fun segment _ ↦ requoted_requoted segment)

/-- A string that stands between single quotes in a line with mended quotes has to. -/
theorem isRequotable_of_mendQuotes_eq (hapart : (markersOf source?).IsApart)
    (hquote : (markersOf source?).quotes.contains '"') (h : mendQuotes source? line = line)
    (hcomment : isCommentLine source? (trim line) = false)
    (hmem : ⟨.string, '\'' :: inner ++ ['\'']⟩ ∈ (markersOf source?).segments line) :
    isRequotable inner = false := by
  rcases mendQuotes_cases source? line with ⟨-, hskip⟩ | hmended
  · have hsingle : line.contains '\'' := by
      rw [List.contains_iff_mem]
      exact Markers.mem_of_mem_segments hmem (by simp)
    rw [hsingle, hcomment] at hskip
    exact absurd hskip (by decide)
  · have hsegments := segments_map_requoted hapart hquote line
    rw [← hmended, h] at hsegments
    nth_rewrite 1 [← List.map_id ((markersOf source?).segments line)] at hsegments
    have hfixed : requoted ⟨.string, '\'' :: inner ++ ['\'']⟩ = ⟨.string, '\'' :: inner ++ ['\'']⟩ :=
      (List.map_inj_left.1 hsegments _ hmem).symm
    have htext : unifyQuotes ('\'' :: inner ++ ['\'']) = '\'' :: inner ++ ['\''] :=
      congrArg Segment.text hfixed
    rw [unifyQuotes_quoted] at htext
    rw [← Bool.not_eq_true]
    intro hinner
    rw [if_pos hinner] at htext
    exact absurd (List.cons.inj htext).1 (by decide)

/-! ## Programs with other quotes -/

theorem double_mem_quotes (language? : Option Language) :
    (markersOf (language?.map Language.profile)).quotes.contains '"' := by
  cases language? with
  | none => rfl
  | some language => cases language <;> decide

/-- Mending the quotes of a program leaves every line with the segments that it has: as many and of
the same kinds, code and comments the same, and a closed string closed and with the same content.
Mending them once more changes nothing.  If the language has no character literals, a string that
still stands between single quotes, in a line that is no comment, holds a double quote or something
that double quotes would interpolate. -/
theorem quotes_apply_readsAs (source? target? : Option Language) (lines : List Text) :
    let profile? := source?.map Language.profile
    let marks := markersOf profile?
    let mend := quotes.apply profile? (target?.map Language.profile)
    List.Forall₂
        (fun line mended ↦ List.Forall₂ (fun segment other ↦ ReadsAs other segment)
          (marks.segments line) (marks.segments mended))
        lines (mend lines)
      ∧ mend (mend lines) = mend lines
      ∧ (profile?.all (!·.charLiterals) →
        ∀ line ∈ mend lines, isCommentLine profile? (trim line) = false →
          ∀ inner, ⟨.string, '\'' :: inner ++ ['\'']⟩ ∈ marks.segments line →
            inner.contains '"' ∨ mentions inner ['#', '{'] ∨ inner.contains '$') := by
  intro profile? marks mend
  have hapart : marks.IsApart := (isUsual_markersOf source?).isApart
  have hquote : marks.quotes.contains '"' := double_mem_quotes source?
  by_cases hchars : profile?.any (·.charLiterals)
  · have hmend (lines : List Text) : mend lines = lines := if_pos hchars
    rw [hmend, hmend]
    refine ⟨?_, rfl, fun hnone ↦ ?_⟩
    · rw [List.forall₂_same]
      exact fun line _ ↦ List.forall₂_same.2 fun segment _ ↦ .refl segment
    · cases hprofile : profile? <;> simp_all
  · have hmend (lines : List Text) : mend lines = lines.map (mendQuotes profile?) := if_neg hchars
    rw [hmend, hmend, List.map_map]
    refine ⟨?_, List.map_congr_left fun line _ ↦ mendQuotes_mendQuotes hapart hquote line, ?_⟩
    · rw [List.forall₂_map_right_iff, List.forall₂_same]
      exact fun line _ ↦ readsAs_segments_mendQuotes hapart hquote line
    · rintro - mended hmended hcomment inner hmem
      obtain ⟨line, -, rfl⟩ := List.mem_map.1 hmended
      have hinner := isRequotable_of_mendQuotes_eq hapart hquote
        (mendQuotes_mendQuotes hapart hquote line) hcomment hmem
      simpa [isRequotable, imp_iff_not_or, or_assoc] using hinner

end Correction

end Recast
