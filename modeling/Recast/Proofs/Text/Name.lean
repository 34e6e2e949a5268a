import Recast.Text.Brackets
import Recast.Text.Word
import Recast.Proofs.Text.Trim

/-!
# Names, and lists of them

A name is a letter or an underscore with letters, digits and underscores after it, all of them
ASCII.  Every cut of a text leaves a name in one piece, because none of its characters is blank, a
bracket, a quote or a separator.  The main statement is that a list written with commas is cut back
into its pieces, as long as each piece is level, that is, every bracket in it is closed.
-/

namespace Recast

/-! ## Blanks and words -/

theorem exists_of_inRanges {n : Nat} {ranges : List (Nat × Nat)} (h : inRanges n ranges) :
    ∃ range ∈ ranges, range.1 ≤ n ∧ n ≤ range.2 := by
  fun_induction inRanges n ranges with
  | case1 => exact absurd h (by simp)
  | case2 low high others hlow => exact absurd h (by simp)
  | case3 low high others hlow ih =>
    rcases Bool.or_eq_true_iff.1 h with h | h
    · exact ⟨(low, high), List.mem_cons_self, by omega, of_decide_eq_true h⟩
    · obtain ⟨range, hrange, hn⟩ := ih h
      exact ⟨range, List.mem_cons_of_mem _ hrange, hn⟩

theorem isWord_of_isBlank {c : Char} (h : isBlank c) : isWord c = false := by
  have hapart : ([(0x09, 0x0d), (0x1c, 0x20), (0x85, 0x85), (0xa0, 0xa0), (0x1680, 0x1680),
      (0x2000, 0x200a), (0x2028, 0x2029), (0x202f, 0x202f), (0x205f, 0x205f),
      (0x3000, 0x3000)] : List (Nat × Nat)).all (fun blank ↦ alphanumericRanges.all fun word ↦
        Nat.blt blank.2 word.1 || Nat.blt word.2 blank.1) := by
    decide +kernel
  obtain ⟨blank, hblank, hlow, hhigh⟩ := exists_of_inRanges h
  rw [isWord, Bool.or_eq_false_iff]
  constructor
  · rw [beq_eq_false_iff_ne]
    rintro rfl
    exact absurd h (by decide)
  · rw [← Bool.not_eq_true]
    intro hword
    obtain ⟨word, hword, hlow', hhigh'⟩ := exists_of_inRanges hword
    have hpair := List.all_eq_true.1 (List.all_eq_true.1 hapart blank hblank) word hword
    simp only [Bool.or_eq_true, Nat.blt_eq] at hpair
    omega

/-! ## Names -/

/-- A character that may stand in a name. -/
def isNameChar (c : Char) : Bool :=
  c.isAlphanum || c == '_'

/-- A character that may start a name. -/
def isNameStart (c : Char) : Bool :=
  c.isAlpha || c == '_'

/-- Whether a text is a name. -/
def isName : Text → Bool
  | [] => false
  | c :: rest => isNameStart c && rest.all isNameChar

/-! ## The characters of a name -/

section Characters

variable {c d : Char}

theorem isNameChar_iff :
    isNameChar c ↔ 48 ≤ c.toNat ∧ c.toNat ≤ 57 ∨ 65 ≤ c.toNat ∧ c.toNat ≤ 90
      ∨ 97 ≤ c.toNat ∧ c.toNat ≤ 122 ∨ c = '_' := by
  have hupper : c.isUpper ↔ 65 ≤ c.toNat ∧ c.toNat ≤ 90 := by
    change decide (c.val ≥ 'A'.val ∧ c.val ≤ 'Z'.val) ↔ _
    simp [UInt32.le_iff_toNat_le]
  have hlower : c.isLower ↔ 97 ≤ c.toNat ∧ c.toNat ≤ 122 := by
    change (decide (c.val ≥ 'a'.val) && decide (c.val ≤ 'z'.val)) ↔ _
    simp [UInt32.le_iff_toNat_le]
  have hdigit : c.isDigit ↔ 48 ≤ c.toNat ∧ c.toNat ≤ 57 := by
    simp [Char.isDigit, UInt32.le_iff_toNat_le]
  have halpha : c.isAlpha = (c.isUpper || c.isLower) := rfl
  simp only [isNameChar, Char.isAlphanum, halpha, Bool.or_eq_true, beq_iff_eq, hupper, hlower,
    hdigit]
  grind

theorem isNameChar_of_isNameStart (h : isNameStart c) : isNameChar c := by
  simp only [isNameStart, isNameChar, Char.isAlphanum, Bool.or_eq_true] at h ⊢
  grind

/-- The letters and digits of ASCII are among the word characters. -/
theorem isWord_of_isNameChar (h : isNameChar c) : isWord c := by
  obtain ⟨others, hranges⟩ : ∃ others, alphanumericRanges
      = (0x30, 0x39) :: (0x41, 0x5a) :: (0x61, 0x7a) :: others := ⟨_, rfl⟩
  rw [isWord, hranges, Bool.or_eq_true, beq_iff_eq]
  rcases isNameChar_iff.1 h with h | h | h | h
  · exact .inr (by simp [inRanges, show ¬ c.toNat < 48 by omega, h.2])
  · exact .inr (by simp [inRanges, show ¬ c.toNat < 48 by omega, show ¬ c.toNat < 65 by omega, h.2])
  · exact .inr (by simp [inRanges, show ¬ c.toNat < 48 by omega, show ¬ c.toNat < 65 by omega,
      show ¬ c.toNat < 97 by omega, h.2])
  · exact .inl h

theorem isBlank_of_isNameChar (h : isNameChar c) : isBlank c = false := by
  have hrange : 48 ≤ c.toNat ∧ c.toNat ≤ 122 := by
    rcases isNameChar_iff.1 h with h | h | h | rfl
    · omega
    · omega
    · omega
    · decide
  simp only [isBlank, inRanges]
  grind

theorem ne_of_isNameChar (hc : isNameChar c) (hd : isNameChar d = false) : c ≠ d := by
  rintro rfl
  rw [hd] at hc
  exact Bool.false_ne_true hc

end Characters

/-! ## Names -/

section Names

variable {name : Text} {c : Char}

theorem ne_nil_of_isName (h : isName name) : name ≠ [] := by
  rintro rfl
  exact Bool.false_ne_true h

theorem isNameChar_of_mem (h : isName name) (hc : c ∈ name) : isNameChar c := by
  cases name with
  | nil => exact absurd hc List.not_mem_nil
  | cons d rest =>
    obtain ⟨hstart, hrest⟩ := Bool.and_eq_true_iff.1 h
    rcases List.mem_cons.1 hc with rfl | hc
    · exact isNameChar_of_isNameStart hstart
    · exact List.all_eq_true.1 hrest c hc

theorem notMem_of_isName (h : isName name) (hc : isNameChar c = false) : c ∉ name :=
  fun hmem ↦ ne_of_isNameChar (isNameChar_of_mem h hmem) hc rfl

end Names

namespace Text

variable {c : Char} {t u : Text}

/-! ## Cuts that find nothing -/

theorem cut_of_notMem {separator : Text} (h : c ∈ separator) (hc : c ∉ t) :
    cut separator t = (t, none) := by
  induction t with
  | nil =>
    have hne : separator ≠ [] := List.ne_nil_of_mem h
    simp [cut, hne]
  | cons d rest ih =>
    have hnot : separator.isPrefixOf (d :: rest) = false := by
      rw [Bool.eq_false_iff]
      exact fun hpre ↦ hc ((List.isPrefixOf_iff_prefix.1 hpre).subset h)
    rw [cut, hnot, ih fun hmem ↦ hc (List.mem_cons_of_mem d hmem)]
    rfl

/-! ## Level pieces -/

/-- Whether a cut at the commas reads over the text at depth zero and is back at depth zero. -/
def IsLevel (t : Text) : Prop :=
  ∀ piece rest, topLevelPieces ',' none 0 piece (t ++ rest)
    = topLevelPieces ',' none 0 (t.reverse ++ piece) rest

theorem IsLevel.append (ht : IsLevel t) (hu : IsLevel u) : IsLevel (t ++ u) := by
  intro piece rest
  rw [List.append_assoc, ht, hu, List.reverse_append, List.append_assoc]

/-- A text without quotes, brackets and commas is level. -/
theorem isLevel_of_forall
    (h : ∀ c ∈ t, c ∉ allQuotes ∧ c ∉ openers ∧ c ∉ closers ∧ c ≠ ',') : IsLevel t := by
  induction t with
  | nil => exact fun piece rest ↦ rfl
  | cons c t ih =>
    intro piece rest
    obtain ⟨hquote, hopen, hclose, hne⟩ := h c List.mem_cons_self
    rw [List.cons_append, topLevelPieces, if_neg (by simpa using hquote),
      if_neg (by simpa using hopen), if_neg (by simpa using hclose), if_neg (by simp [hne]),
      ih (fun d hd ↦ h d (List.mem_cons_of_mem c hd)), List.reverse_cons, List.append_assoc]
    rfl

theorem isLevel_of_isName (h : isName t) : IsLevel t := by
  refine isLevel_of_forall fun c hc ↦ ?_
  have hname := isNameChar_of_mem h hc
  have hnot (chars : Text) (hchars : chars.all fun d ↦ !isNameChar d) : c ∉ chars := fun hmem ↦
    ne_of_isNameChar hname (by simpa using List.all_eq_true.1 hchars c hmem) rfl
  exact ⟨hnot allQuotes (by decide), hnot openers (by decide), hnot closers (by decide),
    ne_of_isNameChar hname (by decide)⟩

theorem topLevelPieces_joinWith (first : Text) (others : List Text)
    (hlevel : ∀ piece ∈ first :: others, IsLevel piece) (lead : Text) :
    topLevelPieces ',' none 0 lead (joinWith ", " (first :: others))
      = (lead.reverse ++ first) :: others.map (' ' :: ·) := by
  induction others generalizing first lead with
  | nil =>
    have hfirst := hlevel first List.mem_cons_self lead []
    rw [List.append_nil] at hfirst
    rw [joinWith, List.intercalate_singleton, hfirst, topLevelPieces, List.reverse_append,
      List.reverse_reverse]
    rfl
  | cons second others ih =>
    have hjoin : joinWith ", " (first :: second :: others)
        = first ++ ',' :: ' ' :: joinWith ", " (second :: others) := by
      simp [joinWith, List.intercalate_cons_cons]
    have hcomma (piece rest : Text) : topLevelPieces ',' none 0 piece (',' :: ' ' :: rest)
        = piece.reverse :: topLevelPieces ',' none 0 [' '] rest := rfl
    rw [hjoin, hlevel first List.mem_cons_self, hcomma,
      ih second (fun piece h ↦ hlevel piece (List.mem_cons_of_mem first h)), List.reverse_append,
      List.reverse_reverse]
    rfl

/-- A list written with commas is cut back into its pieces. -/
theorem splitTopLevel_joinWith {pieces : List Text}
    (h : ∀ piece ∈ pieces, IsLevel piece ∧ piece ≠ [] ∧ trim piece = piece) :
    splitTopLevel ',' (joinWith ", " pieces) = pieces := by
  cases pieces with
  | nil => rfl
  | cons first others =>
    have htrim : (others.map (' ' :: ·)).map trim = others := by
      rw [List.map_map]
      refine (List.map_congr_left fun piece hpiece ↦ ?_).trans (List.map_id others)
      have hblank : trim ([' '] ++ piece) = trim piece :=
        trim_append_of_blank (fun _ ↦ isBlank_of_mem_space) piece
      exact hblank.trans (h piece (List.mem_cons_of_mem first hpiece)).2.2
    obtain ⟨hfirst, hne, htrimmed⟩ := h first List.mem_cons_self
    rw [splitTopLevel, topLevelPieces_joinWith first others (fun piece hp ↦ (h piece hp).1),
      List.map_cons, List.reverse_nil, List.nil_append, htrimmed, htrim]
    split
    · simp_all
    · rfl

end Text

end Recast
