import Recast.Proofs.Text.Rescan

/-!
# What a line is cut into

The segments of a line spell the line.  Code is what no quote and no comment marker interrupts; a
string runs from its quote to the next quote of the same kind that is not escaped; a comment takes
the rest of the line.  A place is escaped if an odd number of backslashes stands right before it, so
that the last of them is not escaped itself.  The part of a line before its comment ends in code,
hence it has no comment of its own although the scan now sees less of the line.
-/

namespace Recast

/-! ## Escaped places -/

namespace Text

/-- The number of backslashes that the text ends in. -/
def slashesAtEnd (t : Text) : Nat :=
  (t.reverse.takeWhile (· == '\\')).length

/-- Whether the text escapes the character behind it. -/
def escapesNext (t : Text) : Bool :=
  slashesAtEnd t % 2 == 1

variable {quote c : Char} {t lead body : Text}

theorem escapesNext_concat_slash (t : Text) : escapesNext (t ++ ['\\']) = !escapesNext t := by
  simp only [escapesNext, slashesAtEnd, List.reverse_append, List.reverse_singleton,
    List.singleton_append, List.takeWhile_cons, beq_self_eq_true, if_true, List.length_cons]
  rcases Nat.mod_two_eq_zero_or_one (t.reverse.takeWhile (· == '\\')).length with h | h <;>
    simp [Nat.add_mod, h]

theorem escapesNext_concat (hc : c ≠ '\\') (t : Text) : escapesNext (t ++ [c]) = false := by
  simp [escapesNext, slashesAtEnd, hc]

/-- Two characters of which the first escapes the second leave nothing escaped behind them. -/
theorem escapesNext_escape (h : escapesNext t = false) (c : Char) :
    escapesNext (t ++ ['\\', c]) = false := by
  rw [← List.singleton_append, ← List.append_assoc]
  by_cases hc : c = '\\'
  · rw [hc, escapesNext_concat_slash, escapesNext_concat_slash, h]
    rfl
  · exact escapesNext_concat hc _

theorem ne_slash_of_afterString (h : afterString quote body = some t) : quote ≠ '\\' := by
  fun_induction afterString quote body <;> simp_all

/-- A closed string ends in its quote, and this is the only place behind the first quote at which
the quote stands and is not escaped. -/
theorem closing_of_afterString (hlead : escapesNext lead = false)
    (h : afterString quote body = some []) :
    ∃ inner, body = inner ++ [quote] ∧ escapesNext (lead ++ inner) = false
      ∧ ∀ u v, inner = u ++ quote :: v → escapesNext (lead ++ u) := by
  have hquote := ne_slash_of_afterString h
  fun_induction afterString quote body generalizing lead with
  | case1 | case2 => exact absurd h (by simp)
  | case3 c hescape d rest ih =>
    obtain rfl : c = '\\' := by simpa using hescape
    obtain ⟨inner, rfl, hend, hinner⟩ := ih (escapesNext_escape hlead d) h
    rw [List.append_assoc] at hend
    refine ⟨'\\' :: d :: inner, rfl, hend, fun u v huv ↦ ?_⟩
    rcases u with _ | ⟨e, _ | ⟨f, u⟩⟩
    · exact absurd (List.cons.inj huv).1.symm hquote
    · obtain ⟨rfl, -⟩ := List.cons.inj huv
      rw [escapesNext_concat_slash, hlead]
      rfl
    · obtain ⟨rfl, htail⟩ := List.cons.inj huv
      obtain ⟨rfl, hrest⟩ := List.cons.inj htail
      simpa using hinner u v hrest
  | case4 c rest hescape hclose =>
    obtain rfl := Option.some.inj h
    obtain rfl : c = quote := by simpa using hclose
    exact ⟨[], rfl, by simpa using hlead, by simp⟩
  | case5 c rest hescape hclose ih =>
    have hc : c ≠ '\\' := by simpa using hescape
    obtain ⟨inner, rfl, hend, hinner⟩ := ih (escapesNext_concat hc lead) h
    rw [List.append_assoc] at hend
    refine ⟨c :: inner, rfl, hend, fun u v huv ↦ ?_⟩
    rcases u with _ | ⟨e, u⟩
    · exact absurd (List.cons.inj huv).1 (by simpa using hclose)
    · obtain ⟨rfl, hrest⟩ := List.cons.inj huv
      simpa using hinner u v hrest

end Text

/-! ## Comment markers -/

namespace Markers

variable {marks : Markers} {t : Text}

theorem exists_marker_of_startsComment (h : marks.startsComment t) :
    ∃ marker ∈ marks.comments, marker ≠ [] ∧ marker <+: t := by
  rw [startsComment] at h
  split at h
  · rename_i marker hfind
    have hstart := List.find?_some hfind
    exact ⟨marker, List.mem_of_find?_eq_some hfind, by simpa using h,
      List.isPrefixOf_iff_prefix.1 hstart⟩
  · exact absurd h Bool.false_ne_true

/-- Where no comment starts, no marker stands, if none of them is empty. -/
theorem not_isPrefix_of_startsComment (hne : [] ∉ marks.comments)
    (h : marks.startsComment t = false) : ∀ marker ∈ marks.comments, ¬marker <+: t := by
  intro marker hmarker hstart
  rw [startsComment] at h
  split at h
  · rename_i first hfind
    have hempty : first = [] := by simpa using h
    exact hne (hempty ▸ List.mem_of_find?_eq_some hfind)
  · rename_i hfind
    have hnot := List.find?_eq_none.1 hfind marker hmarker
    exact hnot (List.isPrefixOf_iff_prefix.2 hstart)

end Markers

/-! ## The segments of a line -/

open Text

namespace Segment

variable {marks : Markers} {segment : Segment} {before after segments : List Segment} {u v : Text}

theorem Segmented.of_append (h : Segmented marks (before ++ segments)) :
    Segmented marks segments := by
  induction before with
  | nil => exact h
  | cons segment before ih =>
    rw [List.cons_append] at h
    generalize hrest : before ++ segments = rest at h ih
    cases h with
    | code _ _ _ h => exact ih h
    | closed _ _ h => exact ih h
    | unclosed => exact ih .nil
    | comment => exact ih .nil

/-- What the segments of a line have to be like. -/
structure WellCut (marks : Markers) (line : Text) (segments : List Segment) : Prop where
  text : textOf segments = line
  nonempty : ∀ segment ∈ segments, segment.text ≠ []
  code : ∀ segment ∈ segments, segment.kind = .code → ∀ c ∈ segment.text, c ∉ marks.quotes
  apart : ∀ before first second after, segments = before ++ first :: second :: after →
    ¬(first.kind = .code ∧ second.kind = .code)
  /-- A comment is the last segment, and the only one. -/
  comment : ∀ before segment after, segments = before ++ segment :: after →
    segment.kind = .comment → after = [] ∧ (∀ other ∈ before, other.kind ≠ .comment)
      ∧ ∃ marker ∈ marks.comments, marker ≠ [] ∧ marker <+: segment.text
  string : ∀ segment ∈ segments, segment.kind = .string →
    ∃ quote ∈ marks.quotes, [quote] <+: segment.text
  /-- A string that something follows ends in its quote, which stands in it else only escaped. -/
  closed : ∀ before segment after, segments = before ++ segment :: after →
    segment.kind = .string → after ≠ [] →
      ∃ quote inner, segment.text = quote :: inner ++ [quote] ∧ escapesNext inner = false
        ∧ ∀ u v, inner = u ++ quote :: v → escapesNext u
  /-- No comment could have started in code. -/
  unmarked : [] ∉ marks.comments → ∀ before u v after, v ≠ [] →
    segments = before ++ ⟨.code, u ++ v⟩ :: after →
      ∀ marker ∈ marks.comments, ¬marker <+: line.drop (textOf before ++ u).length

theorem Segmented.nonempty (h : Segmented marks (segment :: after)) : segment.text ≠ [] := by
  cases h with
  | code hne => exact hne
  | closed | unclosed => simp
  | comment hcomment =>
    rintro rfl
    exact absurd hcomment (by simp [Markers.startsComment_nil])

theorem IsCode.notMem_quotes {c : Char} (h : IsCode marks u v) (hc : c ∈ u) : c ∉ marks.quotes := by
  induction u with
  | nil => exact absurd hc List.not_mem_nil
  | cons d u ih =>
    obtain ⟨-, hquote, hu⟩ := h
    rcases List.mem_cons.1 hc with rfl | hc
    · simpa using hquote
    · exact ih hu hc

theorem Segmented.isCode (h : Segmented marks (segment :: after)) (hkind : segment.kind = .code) :
    IsCode marks segment.text (textOf after) ∧ ∀ next ∈ after.head?, next.kind ≠ .code := by
  cases h with
  | code _ hcode hnext _ => exact ⟨hcode, hnext⟩
  | closed | unclosed | comment => exact absurd hkind (by simp)

theorem Segmented.comment_last (h : Segmented marks (segment :: after))
    (hkind : segment.kind = .comment) : after = [] ∧ marks.startsComment segment.text := by
  cases h with
  | comment hcomment => exact ⟨rfl, hcomment⟩
  | code | closed | unclosed => exact absurd hkind (by simp)

theorem Segmented.quoted (h : Segmented marks (segment :: after)) (hkind : segment.kind = .string) :
    ∃ quote ∈ marks.quotes, ∃ body, segment.text = quote :: body
      ∧ (after ≠ [] → afterString quote body = some []) := by
  cases h with
  | closed hquote hclosed => exact ⟨_, by simpa using hquote, _, rfl, fun _ ↦ hclosed⟩
  | unclosed hquote => exact ⟨_, by simpa using hquote, _, rfl, fun hne ↦ absurd rfl hne⟩
  | code | comment => exact absurd hkind (by simp)

theorem Segmented.wellCut (h : Segmented marks segments) :
    WellCut marks (textOf segments) segments where
  text := rfl
  nonempty segment hmem := by
    obtain ⟨before, after, rfl⟩ := List.append_of_mem hmem
    exact h.of_append.nonempty
  code segment hmem hkind c hc := by
    obtain ⟨before, after, rfl⟩ := List.append_of_mem hmem
    exact (h.of_append.isCode hkind).1.notMem_quotes hc
  apart before first second after hsplit := by
    rintro ⟨hfirst, hsecond⟩
    rw [hsplit] at h
    exact (h.of_append.isCode hfirst).2 second rfl hsecond
  comment before segment after hsplit hkind := by
    rw [hsplit] at h
    obtain ⟨hlast, hcomment⟩ := h.of_append.comment_last hkind
    refine ⟨hlast, fun other hother hkind' ↦ ?_, Markers.exists_marker_of_startsComment hcomment⟩
    obtain ⟨earlier, later, rfl⟩ := List.append_of_mem hother
    rw [List.append_assoc] at h
    exact absurd (h.of_append.comment_last hkind').1 (by simp)
  string segment hmem hkind := by
    obtain ⟨before, after, rfl⟩ := List.append_of_mem hmem
    obtain ⟨quote, hquote, body, htext, -⟩ := h.of_append.quoted hkind
    exact ⟨quote, hquote, by simp [htext]⟩
  closed before segment after hsplit hkind hafter := by
    rw [hsplit] at h
    obtain ⟨quote, -, body, htext, hclosed⟩ := h.of_append.quoted hkind
    have hlead : escapesNext [] = false := rfl
    obtain ⟨inner, rfl, hend, hinner⟩ := closing_of_afterString hlead (hclosed hafter)
    exact ⟨quote, inner, htext, hend, hinner⟩
  unmarked hne before u v after hv hsplit := by
    rw [hsplit] at h ⊢
    obtain ⟨c, v, rfl⟩ := List.exists_cons_of_ne_nil hv
    have hcode := (isCode_append.1 (h.of_append.isCode rfl).1).2
    have hspell : textOf (before ++ ⟨.code, u ++ c :: v⟩ :: after)
        = (textOf before ++ u) ++ (c :: v ++ textOf after) := by
      simp [textOf]
    rw [hspell, List.drop_left]
    exact Markers.not_isPrefix_of_startsComment hne hcode.1

end Segment

namespace Markers

variable {marks : Markers} {line : Text}

theorem splitComment_of_startsComment (h : marks.startsComment line) :
    marks.splitComment line = ([], line) := by
  cases line with
  | nil => exact absurd h (by simp [startsComment_nil])
  | cons c line =>
    have hsegments : marks.segments (c :: line) = [⟨.comment, c :: line⟩] := by
      rw [segments, Segment.scan, if_pos h]
      rfl
    rw [splitComment, hsegments]
    rfl

/-- A line is the text of its segments, which are well cut.  So it is its code and its comment, and
both are cut again as they were: the code has no comment and the comment has no code. -/
theorem segments_wellCut (marks : Markers) (line : Text) :
    let code := (marks.splitComment line).1
    let comment := (marks.splitComment line).2
    Segment.WellCut marks line (marks.segments line)
      ∧ code ++ comment = line
      ∧ marks.splitComment code = (code, [])
      ∧ (comment ≠ [] → marks.splitComment comment = ([], comment)) := by
  intro code comment
  have hsegmented : Segment.Segmented marks (marks.segments line) :=
    Segment.segmented_scan (Nat.le_refl _) trivial
  refine ⟨by simpa [textOf_segments] using hsegmented.wellCut, marks.splitComment_append line, ?_⟩
  rcases marks.splitComment_cases line with hnone | ⟨hcomment, hend, -⟩
  · simp [code, comment, hnone]
  · exact ⟨splitComment_of_endsInCode hend, fun _ ↦ splitComment_of_startsComment hcomment⟩

end Markers

end Recast
