import Recast.Proofs.Language.Profile
import Recast.Proofs.Normalization.Lines
import Recast.Proofs.Normalization.Tight
import Recast.Proofs.Text.Comment
import Recast.Proofs.Text.Rescan

/-!
# Tidy lines

A line is tidy if it ends in no blank and its code is tight.  Tidying makes a line tidy and leaves a
tidy line alone.  The corrections that put a mark behind the code of a line or another word at its
start keep it tidy.
-/

namespace Recast

open Text Pattern

theorem Text.notMem_of_isBlank {chars : Text} (hchars : chars.all (!isBlank ·)) {c : Char}
    (hc : isBlank c) : c ∉ chars := by
  intro hmem
  have hnot := List.all_eq_true.1 hchars c hmem
  rw [hc] at hnot
  exact absurd hnot (by decide)

/-! ## The markers of a known or an unknown language -/

/-- Markers that no quote is part of, and that consist of the usual characters. -/
structure Markers.IsUsual (marks : Markers) : Prop where
  isApart : marks.IsApart
  isNeutral : ∀ c, c ∉ markChars → marks.isNeutral c

theorem isUsual_markersOf (language? : Option Language) :
    (markersOf (language?.map Language.profile)).IsUsual := by
  cases language? with
  | none =>
    refine ⟨fun quote hquote marker hmarker ↦ ?_, fun c hc ↦ ?_⟩
    · simp [markersOf, Markers.unknown] at hmarker
      rcases hmarker with rfl | rfl <;> rintro hmem <;> simp at hmem <;> subst hmem <;>
        exact absurd hquote (by decide)
    · rw [Markers.isNeutral_iff]
      simp only [markChars, List.mem_cons, not_or] at hc
      simp [markersOf, Markers.unknown, Text.allQuotes, hc]
  | some language =>
    refine ⟨fun quote hquote marker hmarker ↦ ?_, fun c ↦ language.isNeutral_of_notMem⟩
    have hall : language.profile.markers.comments.all fun marker ↦
        marker.all (!language.profile.markers.quotes.contains ·) := by
      cases language <;> decide
    intro hmem
    have hnot := List.all_eq_true.1 (List.all_eq_true.1 hall marker hmarker) quote hmem
    have hquote : language.profile.markers.quotes.contains quote := hquote
    rw [hquote] at hnot
    exact absurd hnot (by decide)

namespace Markers

variable {marks : Markers} {c : Char} {t : Text}

theorem IsUsual.isNeutral_of_isBlank (hmarks : marks.IsUsual) (hc : isBlank c) :
    marks.isNeutral c :=
  hmarks.isNeutral c (notMem_of_isBlank (by decide) hc)

theorem IsUsual.isNeutral_of_mem (hmarks : marks.IsUsual) (ht : t.all (!markChars.contains ·)) :
    ∀ c ∈ t, marks.isNeutral c :=
  fun c hc ↦ hmarks.isNeutral c (by simpa using List.all_eq_true.1 ht c hc)

/-- No quote is a blank. -/
theorem IsUsual.isBlank_of_quote (hmarks : marks.IsUsual) (hc : marks.quotes.contains c) :
    isBlank c = false := by
  rw [← Bool.not_eq_true]
  intro hblank
  have hneutral := (isNeutral_iff.1 (hmarks.isNeutral_of_isBlank hblank)).2.1
  rw [hc] at hneutral
  exact absurd hneutral (by decide)

end Markers

/-! ## Tidy lines -/

namespace Normalization

variable {profile? : Option Profile} {marks : Markers} {segments : List Segment} {line : Text}

/-- Whether the code of some segments is tight. -/
def AllTight : List Segment → Prop
  | [] => True
  | segment :: segments =>
    (segment.kind = .code → IsTight segments.isEmpty segment.text) ∧ AllTight segments

/-- Whether a line ends in no blank and its code is tight. -/
structure IsTidy (marks : Markers) (line : Text) : Prop where
  trimmed : ∀ c ∈ line.getLast?, isBlank c = false
  allTight : AllTight (marks.segments line)

theorem AllTight.tidySegments_eq (h : AllTight segments)
    (hline : ∀ segment ∈ segments, '\n' ∉ segment.text) :
    tidySegments segments = Segment.textOf segments := by
  induction segments with
  | nil => rfl
  | cons segment segments ih =>
    obtain ⟨hfirst, hothers⟩ := List.forall_mem_cons.1 hline
    rw [tidySegments, Segment.textOf_cons, ih h.2 hothers]
    split
    · rename_i hkind
      rw [(h.1 hkind).tidyCode_eq hfirst]
    · rfl

theorem IsTidy.tidyLine_eq (h : IsTidy (markersOf profile?) line) (hline : '\n' ∉ line) :
    tidyLine profile? line = line := by
  have htrim : trimEnd line = line := dropEndWhile_eq_self h.trimmed
  rw [tidyLine, htrim, h.allTight.tidySegments_eq, Markers.textOf_segments]
  exact fun segment hsegment hc ↦ hline (Markers.mem_of_mem_segments hsegment hc)

/-- The segments with their code tidied. -/
def tidied : List Segment → List Segment
  | [] => []
  | segment :: segments =>
    (if segment.kind = .code then ⟨.code, tidyCode segments.isEmpty segment.text⟩ else segment)
      :: tidied segments

theorem textOf_tidied (segments : List Segment) :
    Segment.textOf (tidied segments) = tidySegments segments := by
  induction segments with
  | nil => rfl
  | cons segment segments ih =>
    rw [tidied, Segment.textOf_cons, tidySegments, ih]
    split <;> rfl

theorem allTight_tidied (hline : ∀ segment ∈ segments, '\n' ∉ segment.text) :
    AllTight (tidied segments) := by
  induction segments with
  | nil => trivial
  | cons segment segments ih =>
    obtain ⟨hfirst, hothers⟩ := List.forall_mem_cons.1 hline
    refine ⟨fun hkind ↦ ?_, ih hothers⟩
    have hempty : (tidied segments).isEmpty = segments.isEmpty := by cases segments <;> rfl
    rw [hempty]
    split
    · exact isTight_tidyCode _ hfirst
    · rename_i hnot
      rw [if_neg hnot] at hkind
      exact absurd hkind hnot

theorem SpacingSwap.neutralSwap (hmarks : marks.IsUsual) {old new : Text} (h : SpacingSwap old new) :
    marks.NeutralSwap old new := by
  cases h <;> exact ⟨by simp, hmarks.isNeutral_of_mem (by decide)⟩

theorem respelled_tidied (hmarks : marks.IsUsual) (segments : List Segment) :
    List.Forall₂ (Segment.Respelled marks) segments (tidied segments) := by
  induction segments with
  | nil => exact .nil
  | cons segment segments ih =>
    refine .cons ?_ ih
    obtain ⟨kind, t⟩ := segment
    cases kind with
    | code => exact .code ((edits_tidyCode _ t).mono (SpacingSwap.neutralSwap hmarks))
    | string | comment => exact .refl _

theorem segments_tidyLine (hmarks : (markersOf profile?).IsUsual) (line : Text) :
    (markersOf profile?).segments (tidyLine profile? line)
      = tidied ((markersOf profile?).segments (trimEnd line)) := by
  rw [tidyLine, ← textOf_tidied]
  exact Segment.segments_respelled hmarks.isApart (respelled_tidied hmarks _)

theorem getLast?_replace_mark {p : Pattern} (mark : Char) {new : Text} (hp : ¬ p.Describes [])
    (hmark : ∀ u, p.Describes u → u.getLast? = some mark) (hnew : new.getLast? = some mark)
    (t : Text) : (p.replace (fun _ ↦ new) t).getLast? = t.getLast? := by
  have hreplaces : Replaces p (fun _ ↦ new) none t (p.replace (fun _ ↦ new) t) :=
    replaces_replace hp t
  refine hreplaces.getLast?_eq fun hread _ ↦ ?_
  obtain ⟨u, hu, hdescribes⟩ := exists_describes (mem_outcomes_of_readAt hread)
  rw [hnew, List.append_cancel_right hu, hmark u hdescribes]

/-- Tidying keeps the last character of the code. -/
theorem getLast?_tidyCode (last : Bool) (code : Text) :
    (tidyCode last code).getLast? = code.getLast? := by
  have hcommas : (wideComma.replace (fun _ ↦ ", ") (spacedComma.replace (fun _ ↦ ",") code)).getLast?
      = code.getLast? := by
    have hspaced : (spacedComma.replace (fun _ ↦ ",") code).getLast? = code.getLast? := by
      refine getLast?_replace_mark ',' not_describes_spacedComma ?_ rfl code
      rintro _ ⟨s, w, rfl, -, hw⟩
      rw [describes_mark.1 hw, List.getLast?_concat]
    rw [← hspaced]
    generalize spacedComma.replace (fun _ ↦ ",") code = commas
    have hreplaces : Replaces wideComma (fun _ ↦ ", ") none commas
        (wideComma.replace (fun _ ↦ ", ") commas) := replaces_replace not_describes_wideComma commas
    refine hreplaces.getLast?_eq fun hread hrest ↦ ?_
    obtain ⟨s, c, v, -, hcons, -⟩ := exists_of_readAt_wideComma hread
    exact absurd (hrest.symm.trans hcons) (by simp)
  rw [tidyCode]
  split
  · rw [← hcommas, getLast?_replace_mark '{' readsEnd_wideBrace.not_describes _ rfl,
      getLast?_replace_mark ':' readsEnd_spacedColon.not_describes _ rfl]
    · rintro _ ⟨_, _, rfl, ⟨_, w, rfl, -, hw⟩, rfl⟩
      rw [describes_mark.1 hw, List.append_nil, List.getLast?_concat]
    · rintro _ ⟨_, _, rfl, ⟨_, w, rfl, -, hw⟩, rfl⟩
      rw [describes_mark.1 hw, List.append_nil, List.getLast?_concat]
  · exact hcommas

theorem getLast?_tidySegments (segments : List Segment) :
    (tidySegments segments).getLast? = (Segment.textOf segments).getLast? := by
  induction segments with
  | nil => rfl
  | cons segment segments ih =>
    rw [tidySegments, Segment.textOf_cons, List.getLast?_append, List.getLast?_append, ih]
    split
    · rw [getLast?_tidyCode]
    · rfl

/-- Tidying makes a line tidy. -/
theorem isTidy_tidyLine (hmarks : (markersOf profile?).IsUsual) (hline : '\n' ∉ line) :
    IsTidy (markersOf profile?) (tidyLine profile? line) := by
  constructor
  · intro c hc
    rw [tidyLine, getLast?_tidySegments, Markers.textOf_segments] at hc
    exact isBlank_of_getLast?_trimEnd hc
  · rw [segments_tidyLine hmarks]
    refine allTight_tidied fun segment hsegment hc ↦ hline ?_
    exact mem_of_mem_trimEnd (Markers.mem_of_mem_segments hsegment hc)

end Normalization

/-! ## A mark behind the code -/

namespace Segment

open Markers Normalization

variable {marks : Markers} {segments : List Segment} {mark u : Text}

/-- What may follow the code and the strings of a line. -/
inductive IsTail : List Segment → Prop where
  | nil : IsTail []
  | comment (t : Text) : IsTail [⟨.comment, t⟩]

theorem IsTail.spellCode_eq (h : IsTail segments) : spellCode segments = [] := by
  cases h <;> rfl

theorem IsTail.kind_of_head? (h : IsTail segments) :
    ∀ segment ∈ segments.head?, segment.kind ≠ .code := by
  cases h <;> simp

theorem isVoid_append {t u : Text} : isVoid (t ++ u) = (isVoid t && isVoid u) :=
  List.all_append

/-- Segments without ink before the comment are blanks and a comment. -/
theorem Segmented.cases_of_isVoid (hmarks : marks.IsUsual) (h : Segmented marks segments)
    (hvoid : isVoid (spellCode segments)) :
    IsTail segments
      ∨ ∃ b tail, segments = ⟨.code, b⟩ :: tail ∧ (∀ c ∈ b, isBlank c) ∧ IsTail tail := by
  have hquote {quote : Char} {body t : Text} (hquote : marks.quotes.contains quote)
      (h : isVoid (quote :: body ++ t)) : False := by
    have hblank := List.all_eq_true.1 h quote (by simp)
    rw [hmarks.isBlank_of_quote hquote] at hblank
    exact absurd hblank (by decide)
  cases h with
  | nil => exact .inl .nil
  | @code b tail hne hcode hnext h =>
    rw [spellCode_cons (by simp), isVoid_append, Bool.and_eq_true_iff] at hvoid
    refine .inr ⟨b, tail, rfl, List.all_eq_true.1 hvoid.1, ?_⟩
    cases h with
    | nil => exact .nil
    | code => exact absurd rfl (hnext _ rfl)
    | closed hq =>
      rw [spellCode_cons (by simp)] at hvoid
      exact (hquote hq hvoid.2).elim
    | unclosed hq =>
      rw [spellCode_cons (by simp)] at hvoid
      exact (hquote hq hvoid.2).elim
    | comment => exact .comment _
  | closed hq =>
    rw [spellCode_cons (by simp)] at hvoid
    exact (hquote hq hvoid).elim
  | unclosed hq =>
    rw [spellCode_cons (by simp)] at hvoid
    exact (hquote hq hvoid).elim
  | comment => exact .inl (.comment _)

/-- Segments with a mark put behind the ink of the code. -/
structure Marked (marks : Markers) (mark : Text) (segments others : List Segment) : Prop where
  segmented : Segmented marks others
  allTight : AllTight others
  spellCode_eq : spellCode others
    = trimEnd (spellCode segments) ++ mark ++ gap (spellCode segments)
  textOf_eq : ∀ after, textOf segments = trimEnd (spellCode segments) ++ after →
    textOf others = trimEnd (spellCode segments) ++ mark ++ after
  /-- A string at the start stays there. -/
  head : ∀ first ∈ segments.head?, first.kind = .string →
    ∃ other ∈ others.head?, other.kind = .string ∧ other.text.head? = first.text.head?

theorem neutral_of_mem_endMarks (hmarks : marks.IsUsual) (hmark : mark ∈ endMarks) :
    mark ≠ [] ∧ ∀ c ∈ mark, marks.isNeutral c := by
  have hall : endMarks.all fun mark ↦ !mark.isEmpty && mark.all (!markChars.contains ·) := by decide
  have h := List.all_eq_true.1 hall mark hmark
  simp only [Bool.and_eq_true, Bool.not_eq_true', List.isEmpty_eq_false_iff] at h
  exact ⟨h.1, hmarks.isNeutral_of_mem h.2⟩

/-- The text of a mark put in front of some blanks. -/
theorem edits_mark (hmarks : marks.IsUsual) (hmark : mark ∈ endMarks) (u : Text) :
    Edits marks.NeutralSwap u (trimEnd u ++ mark ++ gap u) := by
  have h : Edits marks.NeutralSwap (trimEnd u ++ [] ++ gap u) (trimEnd u ++ mark ++ gap u) :=
    ((Edits.refl _).append (.single (neutral_of_mem_endMarks hmarks hmark))).append (.refl _)
  rwa [List.append_nil, trimEnd_append_gap] at h

theorem isInk_of_getLast?_trimEnd {t : Text} {c : Char} (hc : c ∈ (trimEnd t).getLast?) :
    isInk c := by
  simp [isInk, isBlank_of_getLast?_trimEnd hc]

/-- A text that ends in ink has no blanks behind it. -/
theorem gap_eq_nil {t : Text} (h : ∀ c ∈ t.getLast?, isBlank c = false) : gap t = [] := by
  have htrim : trimEnd t = t := dropEndWhile_eq_self h
  have happend := trimEnd_append_gap t
  rw [htrim] at happend
  exact List.append_right_eq_self.1 happend

/-- The mark goes into code that nothing but a comment follows. -/
theorem marked_code (hmarks : marks.IsUsual) (hmark : mark ∈ endMarks)
    (hne : u ≠ []) (hcode : IsCode marks u (textOf segments)) (h : Segmented marks segments)
    (htail : IsTail segments) (htrim : ∀ c ∈ (u ++ textOf segments).getLast?, isBlank c = false)
    (htight : IsTight segments.isEmpty u) (hothers : AllTight segments) :
    Marked marks mark (⟨.code, u⟩ :: segments)
      (⟨.code, trimEnd u ++ mark ++ gap u⟩ :: segments) := by
  have hspell : spellCode (⟨.code, u⟩ :: segments) = u := by
    rw [spellCode_cons (by simp), htail.spellCode_eq, List.append_nil]
  have hedits := edits_mark hmarks hmark u
  refine ⟨.code (ne_nil_of_edits hedits hne) (hcode.edits hedits) htail.kind_of_head? h,
    ⟨fun _ ↦ ?_, hothers⟩, ?_, fun after hafter ↦ ?_, by simp⟩
  · rw [← trimEnd_append_gap u] at htight
    refine htight.append_mark (fun c ↦ isInk_of_getLast?_trimEnd) hmark
      (fun c ↦ isBlank_of_mem_gap) fun hlast ↦ gap_eq_nil ?_
    rw [List.isEmpty_iff.1 hlast, textOf_nil, List.append_nil] at htrim
    exact htrim
  · rw [hspell, spellCode_cons (by simp), htail.spellCode_eq, List.append_nil]
  · rw [hspell, textOf_cons] at hafter
    simp only at hafter
    nth_rewrite 1 [← trimEnd_append_gap u] at hafter
    rw [List.append_assoc, List.append_cancel_left_eq] at hafter
    rw [hspell, textOf_cons, ← hafter]
    simp

theorem isTight_nil {last : Bool} : IsTight last ([] : Text) :=
  ⟨.nil, fun x v h ↦ absurd h (by simp), fun _ x s h ↦ absurd h (by simp),
    fun _ x s h ↦ absurd h (by simp)⟩

/-- The mark goes into new code behind a string, in front of the blanks there. -/
theorem marked_string {quote : Char} {body b : Text} {tail : List Segment} (hmarks : marks.IsUsual)
    (hmark : mark ∈ endMarks) (hquote : marks.quotes.contains quote)
    (hclosed : afterString quote body = some []) (h : Segmented marks tail) (htail : IsTail tail)
    (hcode : IsCode marks b (textOf tail)) (hb : ∀ c ∈ b, isBlank c) (hlast : tail.isEmpty → b = [])
    (hothers : AllTight tail)
    (hspell : spellCode segments = b) (htext : textOf segments = b ++ textOf tail) :
    Marked marks mark (⟨.string, quote :: body⟩ :: segments)
      (⟨.string, quote :: body⟩ :: ⟨.code, mark ++ b⟩ :: tail) := by
  obtain ⟨hne, hneutral⟩ := neutral_of_mem_endMarks hmarks hmark
  have hstring : (quote :: body).getLast? = some quote := by
    rw [List.getLast?_cons, getLast?_of_afterString hclosed]
    rfl
  have hend : ∀ c ∈ (quote :: body).getLast?, isBlank c = false := by
    rw [hstring]
    rintro c ⟨⟩
    exact hmarks.isBlank_of_quote hquote
  have hwhole : spellCode (⟨.string, quote :: body⟩ :: segments) = quote :: body ++ b := by
    rw [spellCode_cons (by simp), hspell]
  have htrim : trimEnd (quote :: body ++ b) = quote :: body := by
    rw [trimEnd_append_of_blank _ hb]
    exact dropEndWhile_eq_self hend
  have hgap : gap (quote :: body ++ b) = b := by
    have happend := trimEnd_append_gap (quote :: body ++ b)
    rwa [htrim, List.append_cancel_left_eq] at happend
  refine ⟨.closed hquote hclosed (.code (by simp [hne]) ?_ htail.kind_of_head? h),
    ⟨fun h ↦ absurd h (by simp), fun _ ↦ ?_, hothers⟩, ?_, fun after hafter ↦ ?_, ?_⟩
  · exact (isCode_neutral_append hneutral).2 hcode
  · have htight : IsTight tail.isEmpty ([] ++ mark ++ b) :=
      IsTight.append_mark (w := []) (isTight_nil : IsTight true []) (by simp) hmark hb hlast
    simpa using htight
  · rw [hwhole, htrim, hgap, spellCode_cons (by simp), spellCode_cons (by simp),
      htail.spellCode_eq]
    simp
  · rw [hwhole, htrim, textOf_cons, htext, List.append_cancel_left_eq] at hafter
    rw [hwhole, htrim, textOf_cons, textOf_cons, ← hafter]
    simp
  · rintro first ⟨⟩ -
    exact ⟨_, rfl, rfl, rfl⟩

/-- The mark goes into a string that is left open. -/
theorem marked_unclosed {quote : Char} {body : Text} (hmarks : marks.IsUsual)
    (hmark : mark ∈ endMarks) (hquote : marks.quotes.contains quote)
    (hopen : afterString quote body = none)
    (htrim : ∀ c ∈ (quote :: body).getLast?, isBlank c = false) :
    Marked marks mark [⟨.string, quote :: body⟩] [⟨.string, quote :: (body ++ mark)⟩] := by
  obtain ⟨-, hneutral⟩ := neutral_of_mem_endMarks hmarks hmark
  have hspell : spellCode [⟨.string, quote :: body⟩] = quote :: body := by
    rw [spellCode_cons (by simp), spellCode, List.append_nil]
  have hself : trimEnd (quote :: body) = quote :: body := dropEndWhile_eq_self htrim
  refine ⟨.unclosed hquote ?_, ⟨by simp, trivial⟩, ?_, fun after hafter ↦ ?_, ?_⟩
  · refine afterString_append_eq_none hopen fun c hc ↦ ?_
    obtain ⟨hescape, hnot, -⟩ := isNeutral_iff.1 (hneutral c hc)
    refine ⟨by simpa using hescape, ?_⟩
    rintro rfl
    rw [hquote] at hnot
    exact absurd hnot (by decide)
  · rw [hspell, hself, gap_eq_nil htrim, spellCode_cons (by simp), spellCode]
    simp
  · have hnil : after = [] := by simpa [hspell, hself] using hafter
    simp [hspell, hself, hnil]
  · rintro first ⟨⟩ -
    exact ⟨_, rfl, rfl, rfl⟩

/-- What has ink and is not code starts with a string. -/
theorem Segmented.exists_string (h : Segmented marks segments)
    (hnext : ∀ segment ∈ segments.head?, segment.kind ≠ .code)
    (hvoid : isVoid (spellCode segments) = false) :
    ∃ quote body tail, segments = ⟨.string, quote :: body⟩ :: tail
      ∧ marks.quotes.contains quote := by
  cases h with
  | nil => exact absurd hvoid (by decide)
  | code => exact absurd rfl (hnext _ rfl)
  | closed hquote => exact ⟨_, _, _, rfl, hquote⟩
  | unclosed hquote => exact ⟨_, _, _, rfl, hquote⟩
  | comment => exact absurd hvoid (by simp [spellCode, isVoid])

theorem trimEnd_ne_nil {t : Text} (h : isVoid t = false) : trimEnd t ≠ [] := by
  intro hnil
  have hgap := trimEnd_append_gap t
  rw [hnil, List.nil_append] at hgap
  have hvoid : isVoid t := by
    rw [← hgap]
    exact List.all_eq_true.2 fun c ↦ isBlank_of_mem_gap
  rw [h] at hvoid
  exact absurd hvoid (by decide)

/-- The mark goes behind ink further on. -/
theorem Marked.cons {first : Segment} {others : List Segment} (h : Marked marks mark segments others)
    (hvoid : isVoid (spellCode segments) = false) (hkind : first.kind ≠ .comment)
    (hsegmented : Segmented marks (first :: others))
    (htight : first.kind = .code → IsTight others.isEmpty first.text) :
    Marked marks mark (first :: segments) (first :: others) := by
  have htrim := trimEnd_append_of_ne_nil first.text (trimEnd_ne_nil hvoid)
  have hgap : gap (first.text ++ spellCode segments) = gap (spellCode segments) := by
    have happend := trimEnd_append_gap (first.text ++ spellCode segments)
    rw [htrim, List.append_assoc, List.append_cancel_left_eq] at happend
    exact List.append_cancel_left (happend.trans (trimEnd_append_gap _).symm)
  refine ⟨hsegmented, ⟨htight, h.allTight⟩, ?_, fun after hafter ↦ ?_, ?_⟩
  · rw [spellCode_cons hkind, spellCode_cons hkind, htrim, hgap, h.spellCode_eq]
    simp
  · rw [spellCode_cons hkind, htrim, textOf_cons, List.append_assoc,
      List.append_cancel_left_eq] at hafter
    rw [spellCode_cons hkind, htrim, textOf_cons, h.textOf_eq after hafter]
    simp
  · rintro other ⟨⟩ hstring
    exact ⟨first, rfl, hstring, rfl⟩

/-- A mark can be put behind the ink of the code of a line. -/
theorem Segmented.exists_marked (hmarks : marks.IsUsual) (hmark : mark ∈ endMarks)
    (h : Segmented marks segments) (htrim : ∀ c ∈ (textOf segments).getLast?, isBlank c = false)
    (hcode : isVoid (spellCode segments) = false) (htight : AllTight segments) :
    ∃ others, Marked marks mark segments others := by
  have hlast {first : Segment} {segments : List Segment}
      (h : ∀ c ∈ (textOf (first :: segments)).getLast?, isBlank c = false) :
      ∀ c ∈ (textOf segments).getLast?, isBlank c = false := by
    intro c hc
    refine h c ?_
    rw [textOf_cons, List.getLast?_append, Option.mem_def.1 hc]
    rfl
  induction h with
  | nil => exact absurd hcode (by decide)
  | comment => exact absurd hcode (by simp [spellCode, isVoid])
  | @code u segments hne hu hnext h ih =>
    cases hvoid : isVoid (spellCode segments) with
    | true =>
      rcases h.cases_of_isVoid hmarks hvoid with htail | ⟨b, tail, rfl, -, -⟩
      · exact ⟨_, marked_code hmarks hmark hne hu h htail htrim (htight.1 rfl) htight.2⟩
      · exact absurd rfl (hnext _ rfl)
    | false =>
      obtain ⟨others, hothers⟩ := ih (hlast htrim) hvoid htight.2
      -- What follows the code is a string, and its quote is still there.
      obtain ⟨quote, body, tail, rfl, hquote⟩ := h.exists_string hnext hvoid
      obtain ⟨⟨kind, t⟩, hother, rfl, hhead⟩ := hothers.head _ rfl rfl
      obtain ⟨rest, rfl⟩ := List.head?_eq_some_iff.1 hother
      obtain ⟨t, rfl⟩ := List.head?_eq_some_iff.1 hhead
      rw [textOf_cons, List.cons_append, isCode_quote hmarks.isApart hquote] at hu
      refine ⟨_, hothers.cons hvoid (by simp) (.code hne ?_ (by simp) hothers.segmented) ?_⟩
      · rwa [textOf_cons, List.cons_append, isCode_quote hmarks.isApart hquote]
      · exact htight.1
  | @closed quote body segments hquote hclosed h ih =>
    cases hvoid : isVoid (spellCode segments) with
    | true =>
      rcases h.cases_of_isVoid hmarks hvoid with htail | ⟨b, tail, rfl, hb, htail⟩
      · exact ⟨_, marked_string hmarks hmark hquote hclosed h htail (b := []) trivial (by simp)
          (fun _ ↦ rfl) htight.2 htail.spellCode_eq rfl⟩
      · cases h with
        | code hne hcodeB hnext htail' =>
          refine ⟨_, marked_string hmarks hmark hquote hclosed htail' htail hcodeB hb (fun hempty ↦ ?_)
            htight.2.2 ?_ rfl⟩
          · rw [List.isEmpty_iff.1 hempty] at htrim
            have hblank := hb _ (List.getLast_mem hne)
            have hink := hlast htrim (b.getLast hne) (by simp [List.getLast?_eq_some_getLast hne])
            rw [hblank] at hink
            exact absurd hink (by decide)
          · rw [spellCode_cons (by simp), htail.spellCode_eq, List.append_nil]
    | false =>
      obtain ⟨others, hothers⟩ := ih (hlast htrim) hvoid htight.2
      exact ⟨_, hothers.cons hvoid (by simp) (.closed hquote hclosed hothers.segmented) (by simp)⟩
  | @unclosed quote body hquote hopen =>
    rw [show textOf [⟨.string, quote :: body⟩] = quote :: body by simp] at htrim
    exact ⟨_, marked_unclosed hmarks hmark hquote hopen htrim⟩

end Segment

namespace Normalization

variable {marks : Markers} {line mark t u v : Text}

/-- A mark behind the ink of the code leaves a line tidy and its comment where it is. -/
theorem IsTidy.append_mark (hmarks : marks.IsUsual) (hmark : mark ∈ endMarks) (h : IsTidy marks line)
    {code comment : Text} (hsplit : marks.splitComment line = (code, comment))
    (hcode : isVoid code = false) :
    IsTidy marks (trimEnd code ++ mark ++ gap code ++ comment)
      ∧ marks.splitComment (trimEnd code ++ mark ++ gap code ++ comment)
        = (trimEnd code ++ mark ++ gap code, comment) := by
  have hline : code ++ comment = line := by
    have happend := marks.splitComment_append line
    rwa [hsplit] at happend
  have hspell : Markers.spellCode (marks.segments line) = code := by
    rw [← Markers.splitComment_fst_eq_spellCode, hsplit]
  have hsegmented : Segment.Segmented marks (marks.segments line) :=
    Segment.segmented_scan (Nat.le_refl _) trivial
  rw [← hspell] at hcode
  obtain ⟨others, hothers⟩ := hsegmented.exists_marked hmarks hmark
    (by rw [Markers.textOf_segments]; exact h.trimmed) hcode h.allTight
  have htext : Segment.textOf others = trimEnd code ++ mark ++ gap code ++ comment := by
    rw [hothers.textOf_eq (gap code ++ comment), hspell]
    · simp
    · rw [Markers.textOf_segments, hspell, ← List.append_assoc, trimEnd_append_gap, hline]
  have hsegments : marks.segments (trimEnd code ++ mark ++ gap code ++ comment) = others := by
    rw [← htext, hothers.segmented.segments_textOf hmarks.isApart]
  have hfst : (marks.splitComment (trimEnd code ++ mark ++ gap code ++ comment)).1
      = trimEnd code ++ mark ++ gap code := by
    rw [Markers.splitComment_fst_eq_spellCode, hsegments, hothers.spellCode_eq, hspell]
  have hsnd := marks.splitComment_append (trimEnd code ++ mark ++ gap code ++ comment)
  rw [hfst, List.append_cancel_left_eq] at hsnd
  refine ⟨⟨fun c hc ↦ ?_, hsegments ▸ hothers.allTight⟩, Prod.ext hfst hsnd⟩
  rw [List.getLast?_append] at hc
  cases hcomment : comment.getLast? with
  | some d =>
    rw [hcomment, Option.some_or, Option.mem_some_iff] at hc
    subst hc
    refine h.trimmed d ?_
    rw [← hline, List.getLast?_append, hcomment]
    rfl
  | none =>
    rw [List.getLast?_eq_none_iff.1 hcomment, List.append_nil] at hline
    have hgap : gap code = [] := Segment.gap_eq_nil (hline ▸ h.trimmed)
    have hlast : endMarks.all fun mark ↦ mark.getLast?.any (!isBlank ·) := by decide
    have hink := List.all_eq_true.1 hlast mark hmark
    rw [hcomment, hgap, List.append_nil, Option.none_or, List.getLast?_append] at hc
    cases hend : mark.getLast? with
    | none => simp [hend] at hink
    | some d =>
      rw [hend, Option.some_or, Option.mem_some_iff] at hc
      simpa [hend, hc] using hink

/-! ## Another beginning -/

/-- Code that has been read only stands in front of what follows. -/
theorem exists_scan_eq (marks : Markers) (t : Text) :
    ∃ r segments, ∀ read, read ≠ [] →
      Segment.scan marks none read t = ⟨.code, read.reverse ++ r⟩ :: segments := by
  induction t with
  | nil =>
    refine ⟨[], [], fun read hread ↦ ?_⟩
    rw [Segment.scan, Segment.flush_eq_singleton hread, List.append_nil]
  | cons c t ih =>
    by_cases hcomment : marks.startsComment (c :: t)
    · refine ⟨[], [⟨.comment, c :: t⟩], fun read hread ↦ ?_⟩
      rw [Segment.scan, if_pos hcomment, Segment.flush_eq_singleton hread, List.append_nil]
      rfl
    by_cases hquote : marks.quotes.contains c
    · refine ⟨[], Segment.scan marks (some c) [c] t, fun read hread ↦ ?_⟩
      rw [Segment.scan, if_neg hcomment, if_pos hquote, Segment.flush_eq_singleton hread,
        List.append_nil]
      rfl
    · obtain ⟨r, segments, h⟩ := ih
      refine ⟨c :: r, segments, fun read hread ↦ ?_⟩
      rw [Segment.scan, if_neg hcomment, if_neg hquote, h (c :: read) (by simp)]
      simp

/-- Neutral characters at the start of a line start its first code. -/
theorem exists_segments_append (marks : Markers) (t : Text) :
    ∃ r segments, t = r ++ Segment.textOf segments ∧
      ∀ u, u ≠ [] → (∀ c ∈ u, marks.isNeutral c) →
        marks.segments (u ++ t) = ⟨.code, u ++ r⟩ :: segments := by
  obtain ⟨r, segments, h⟩ := exists_scan_eq marks t
  refine ⟨r, segments, ?_, fun u hne hu ↦ ?_⟩
  · have htext := Segment.textOf_scan marks none [' '] t
    rw [h _ (by simp), Segment.textOf_cons] at htext
    simpa using htext.symm
  · have hcode : Segment.IsCode marks u t := by
      have happend := (Segment.isCode_neutral_append (v := []) (t := t) hu).2 trivial
      rwa [List.append_nil] at happend
    rw [Markers.segments, Segment.scan_code hcode, List.append_nil, h _ (by simpa using hne)]
    simp

/-- Another beginning without marks leaves a line tidy. -/
theorem IsTidy.of_append (h : IsTidy marks (u ++ t)) (hu : ∀ c ∈ u, marks.isNeutral c) (hne : u ≠ [])
    (hv : ∀ c ∈ v, marks.isNeutral c ∧ c ∉ [',', ':', '{']) (hlast : ∃ c ∈ v.getLast?, isInk c)
    (hjoin : (∃ c ∈ u.getLast?, isInk c) ∨ ∀ c ∈ t.head?, isSpacing c = false) :
    IsTidy marks (v ++ t) := by
  obtain ⟨r, segments, rfl, hsegments⟩ := exists_segments_append marks t
  obtain ⟨c, hc, hink⟩ := hlast
  have hvne : v ≠ [] := List.ne_nil_of_mem (List.mem_of_getLast? hc)
  constructor
  · intro d hd
    rw [List.getLast?_append] at hd
    cases hend : (r ++ Segment.textOf segments).getLast? with
    | some e =>
      refine h.trimmed d ?_
      rw [List.getLast?_append, hend]
      rwa [hend] at hd
    | none =>
      rw [hend, Option.none_or, hc, Option.mem_some_iff] at hd
      simpa [isInk, hd] using hink
  · have htight := h.allTight
    rw [hsegments u hne hu] at htight
    rw [hsegments v hvne fun c hc ↦ (hv c hc).1]
    refine ⟨fun _ ↦ (htight.1 rfl).of_append (fun c hc ↦ (hv c hc).2) ?_ ?_, htight.2⟩
    · rw [hc]
      rintro d ⟨⟩
      exact hink
    · refine hjoin.imp_right fun hhead d hd ↦ hhead d ?_
      rw [List.head?_append, Option.mem_def.1 hd]
      rfl

end Normalization

end Recast
