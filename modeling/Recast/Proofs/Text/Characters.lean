import Mathlib.Data.List.TakeWhile
import Recast.Text.Segment
import Recast.Proofs.Text.Lines

/-!
# Where the characters of a text come from

Trimming, cutting and segmenting a text bring in no characters of their own.  These facts carry
the property of being a single line through every step of the recasting, and they are tagged so
that `grind` finds them.
-/

namespace Recast.Text

variable {c : Char} {t : Text}

/-! ## Trimming -/

theorem dropEndWhile_append (p : Char → Bool) (t : Text) :
    dropEndWhile p t ++ (t.reverse.takeWhile p).reverse = t := by
  rw [dropEndWhile, ← List.reverse_append, List.takeWhile_append_dropWhile, List.reverse_reverse]

theorem dropEndWhile_isPrefix (p : Char → Bool) (t : Text) : dropEndWhile p t <+: t :=
  ⟨_, dropEndWhile_append p t⟩

theorem trimEnd_isPrefix (t : Text) : trimEnd t <+: t :=
  dropEndWhile_isPrefix isBlank t

theorem trim_isInfix (t : Text) : trim t <:+: t :=
  (trimEnd_isPrefix _).isInfix.trans (List.dropWhile_suffix isBlank).isInfix

theorem trimChars_isInfix (chars t : Text) : trimChars chars t <:+: t :=
  (dropEndWhile_isPrefix _ _).isInfix.trans (List.dropWhile_suffix _).isInfix

@[grind →]
theorem mem_of_mem_trimStart (h : c ∈ trimStart t) : c ∈ t :=
  (List.dropWhile_suffix isBlank).subset h

@[grind →]
theorem mem_of_mem_dropEndWhile {p : Char → Bool} (h : c ∈ dropEndWhile p t) : c ∈ t :=
  (dropEndWhile_isPrefix p t).subset h

@[grind →]
theorem mem_of_mem_trimEnd (h : c ∈ trimEnd t) : c ∈ t :=
  (trimEnd_isPrefix t).subset h

@[grind →]
theorem mem_of_mem_trim (h : c ∈ trim t) : c ∈ t :=
  (trim_isInfix t).subset h

@[grind →]
theorem mem_of_mem_indentation (h : c ∈ indentation t) : c ∈ t :=
  (List.takeWhile_prefix isBlank).subset h

@[grind →]
theorem mem_of_mem_gap (h : c ∈ gap t) : c ∈ t := by
  rw [gap, List.mem_reverse] at h
  exact List.mem_reverse.1 ((List.takeWhile_prefix isBlank).subset h)

/-! ## Blanks -/

theorem isBlank_of_mem_space (h : c ∈ [' ']) : isBlank c := by
  rw [List.mem_singleton.1 h]
  rfl

theorem isBlank_of_mem_indentation (h : c ∈ indentation t) : isBlank c :=
  List.mem_takeWhile_imp h

theorem isBlank_of_mem_gap (h : c ∈ gap t) : isBlank c :=
  List.mem_takeWhile_imp (List.mem_reverse.1 h)

theorem indentation_append_trimStart (t : Text) : indentation t ++ trimStart t = t :=
  List.takeWhile_append_dropWhile

theorem trimEnd_append_gap (t : Text) : trimEnd t ++ gap t = t :=
  dropEndWhile_append isBlank t

theorem trim_append_of_blank {before : Text} (h : ∀ c ∈ before, isBlank c) (t : Text) :
    trim (before ++ t) = trim t := by
  rw [trim, trimStart, List.dropWhile_append_of_pos h, trim, trimStart]

theorem trim_eq_nil_iff : trim t = [] ↔ isVoid t := by
  rw [isVoid, List.all_eq_true, ← List.dropWhile_eq_nil_iff, trim, trimEnd, dropEndWhile,
    List.reverse_eq_nil_iff, List.dropWhile_eq_nil_iff, trimStart]
  constructor
  · intro h
    cases htrim : t.dropWhile isBlank with
    | nil => rfl
    | cons d rest =>
      have hd := List.head?_dropWhile_not isBlank t
      rw [htrim] at h hd
      exact absurd (h d (by simp)) (by simpa using hd)
  · intro h
    simp [h]

/-! ## Cutting and joining -/

theorem cut_fst_isPrefix (separator t : Text) : (cut separator t).1 <+: t := by
  induction t with
  | nil =>
    rw [cut]
    split <;> exact List.nil_prefix
  | cons c t ih =>
    rw [cut]
    split
    · exact List.nil_prefix
    · exact List.cons_prefix_cons.2 ⟨rfl, ih⟩

theorem cut_snd_suffix {separator after : Text} (h : (cut separator t).2 = some after) :
    after <:+ t := by
  induction t with
  | nil =>
    rw [cut] at h
    split at h
    · exact Option.some.inj h ▸ List.nil_suffix
    · exact absurd h (by simp)
  | cons c t ih =>
    rw [cut] at h
    split at h
    · exact Option.some.inj h ▸ List.drop_suffix _ _
    · exact (ih h).trans (List.suffix_cons c t)

theorem infix_of_mem_words_go {word piece : Text} (h : piece ∈ words.go word t) :
    piece <:+: word.reverse ++ t := by
  fun_induction words.go word t with
  | case1 word hempty => exact absurd h List.not_mem_nil
  | case2 word hne =>
    rw [List.mem_singleton.1 h]
    exact (List.prefix_append _ _).isInfix
  | case3 word c rest hblank hempty ih =>
    refine (ih h).trans (List.IsSuffix.isInfix ?_)
    exact (List.suffix_cons c rest).trans (List.suffix_append _ _)
  | case4 word c rest hblank hne ih =>
    rcases List.mem_cons.1 h with rfl | h
    · exact (List.prefix_append _ _).isInfix
    · refine (ih h).trans (List.IsSuffix.isInfix ?_)
      exact (List.suffix_cons c rest).trans (List.suffix_append _ _)
  | case5 word c rest hblank ih => simpa using ih h

theorem infix_of_mem_words {piece : Text} (h : piece ∈ words t) : piece <:+: t :=
  infix_of_mem_words_go h

theorem mem_of_mem_joinWith {separator : Text} {pieces : List Text}
    (h : c ∈ joinWith separator pieces) : c ∈ separator ∨ ∃ piece ∈ pieces, c ∈ piece := by
  induction pieces with
  | nil => simp [joinWith] at h
  | cons first others ih =>
    cases others with
    | nil => exact .inr ⟨first, by simp, by simpa [joinWith] using h⟩
    | cons second others =>
      rw [joinWith, List.intercalate_cons_cons, List.mem_append, List.mem_append] at h
      rcases h with (h | h) | h
      · exact .inr ⟨first, List.mem_cons_self, h⟩
      · exact .inl h
      · obtain h | ⟨piece, hpiece, h⟩ := ih h
        · exact .inl h
        · exact .inr ⟨piece, List.mem_cons_of_mem first hpiece, h⟩

theorem notMem_joinWith {separator : Text} {pieces : List Text} (hseparator : c ∉ separator)
    (hpieces : ∀ piece ∈ pieces, c ∉ piece) : c ∉ joinWith separator pieces := by
  intro h
  rcases mem_of_mem_joinWith h with h | ⟨piece, hpiece, h⟩
  · exact hseparator h
  · exact hpieces piece hpiece h

theorem mem_of_mem_replaceFrom {old new : Text} {skip : Nat} (h : c ∈ replaceFrom old new skip t) :
    c ∈ t ∨ c ∈ new := by
  fun_induction replaceFrom old new skip t <;> grind

theorem notMem_substitute {old new : Text} (ht : c ∉ t) (hnew : c ∉ new) :
    c ∉ substitute old new t :=
  fun h ↦ (mem_of_mem_replaceFrom h).elim ht hnew

/-! ## Brackets -/

/-- Every piece is a stretch of what has been read of it and of what is still to be read. -/
theorem infix_of_mem_topLevelPieces {separator : Char} {quote? : Option Char} {depth : Int}
    {read piece : Text} (h : piece ∈ topLevelPieces separator quote? depth read t) :
    piece <:+: read.reverse ++ t := by
  fun_induction topLevelPieces separator quote? depth read t with
  | case8 depth read c rest _ _ _ _ ih =>
    -- At a separator what has been read is a piece of its own.
    rcases List.mem_cons.1 h with rfl | h
    · exact (List.prefix_append _ _).isInfix
    · refine (ih h).trans (List.IsSuffix.isInfix ?_)
      exact (List.suffix_cons c rest).trans (List.suffix_append _ _)
  | _ => simp_all

theorem infix_of_mem_splitTopLevel {separator : Char} {piece : Text}
    (h : piece ∈ splitTopLevel separator t) : piece <:+: t := by
  have hmap : piece ∈ (topLevelPieces separator none 0 [] t).map trim := by
    rw [splitTopLevel] at h
    split at h
    · exact absurd h List.not_mem_nil
    · exact h
  obtain ⟨whole, hwhole, rfl⟩ := List.mem_map.1 hmap
  exact (trim_isInfix whole).trans (infix_of_mem_topLevelPieces hwhole)

theorem unwrapParens_isInfix (t : Text) : unwrapParens t <:+: t := by
  simp only [unwrapParens]
  split
  · have hinner : ((trim t).drop 1).dropLast <:+: trim t :=
      (List.dropLast_prefix _).isInfix.trans (List.drop_suffix 1 _).isInfix
    exact (trim_isInfix _).trans (hinner.trans (trim_isInfix t))
  · exact trim_isInfix t

end Recast.Text

namespace Recast

open Text

/-! ## Segments -/

namespace Segment

@[simp]
theorem textOf_nil : textOf [] = [] := rfl

@[simp]
theorem textOf_cons (segment : Segment) (segments : List Segment) :
    textOf (segment :: segments) = segment.text ++ textOf segments :=
  List.flatMap_cons

@[simp]
theorem textOf_append (segments others : List Segment) :
    textOf (segments ++ others) = textOf segments ++ textOf others :=
  List.flatMap_append

@[simp]
theorem textOf_flush (kind : SegmentKind) (read : Text) :
    textOf (flush kind read) = read.reverse := by
  cases read <;> simp [flush]

/-- A scan loses nothing of what it has read and what it still has to read. -/
theorem textOf_scan (marks : Markers) (quote? : Option Char) (read t : Text) :
    textOf (scan marks quote? read t) = read.reverse ++ t := by
  fun_induction scan marks quote? read t <;> simp_all

end Segment

namespace Markers

/-- The segments of a line spell the line. -/
theorem textOf_segments (marks : Markers) (line : Text) :
    Segment.textOf (marks.segments line) = line :=
  Segment.textOf_scan marks none [] line

theorem mem_of_mem_segments {marks : Markers} {line : Text} {segment : Segment} {c : Char}
    (hsegment : segment ∈ marks.segments line) (hc : c ∈ segment.text) : c ∈ line := by
  rw [← textOf_segments marks line]
  exact List.mem_flatMap.2 ⟨segment, hsegment, hc⟩

/-- A change of the code segments brings in only what it puts into them. -/
theorem notMem_mapCode {marks : Markers} {f : Text → Text} {line : Text} {c : Char}
    (hline : c ∉ line) (hf : ∀ code, c ∉ code → c ∉ f code) : c ∉ marks.mapCode f line := by
  intro h
  obtain ⟨segment, hsegment, hc⟩ := List.mem_flatMap.1 h
  have htext : c ∉ segment.text := fun h ↦ hline (mem_of_mem_segments hsegment h)
  split at hc
  · exact hf segment.text htext hc
  · exact htext hc

/-- The code and the comment of a line make up the line. -/
theorem splitComment_append (marks : Markers) (line : Text) :
    (marks.splitComment line).1 ++ (marks.splitComment line).2 = line := by
  have hline := textOf_segments marks line
  simp only [splitComment]
  split
  · rename_i comment hlast
    obtain ⟨code, hcode⟩ := List.getLast?_eq_some_iff.1 hlast
    rw [hcode] at hline ⊢
    simpa using hline
  · exact List.append_nil line

@[grind →]
theorem mem_of_mem_splitComment_fst {marks : Markers} {line : Text} {c : Char}
    (h : c ∈ (marks.splitComment line).1) : c ∈ line := by
  rw [← splitComment_append marks line]
  exact List.mem_append_left _ h

@[grind →]
theorem mem_of_mem_splitComment_snd {marks : Markers} {line : Text} {c : Char}
    (h : c ∈ (marks.splitComment line).2) : c ∈ line := by
  rw [← splitComment_append marks line]
  exact List.mem_append_right _ h

end Markers

end Recast
