import Recast.Proofs.Normalization.Branch
import Recast.Proofs.Normalization.Marks

/-!
# Programs that normalization leaves alone

Normalizing a program a second time gives the same program if and only if no step of normalization
has anything left to do.  One direction needs that no step undoes another: the signs of a correction
are touched by that correction alone, and tidying does not touch the keyword of a branch.
-/

namespace Recast

open Text Pattern

/-! ## One step after another -/

namespace Normalization

variable {source? target? : Option Profile} {normalization : Normalization}
  {correction : Correction} {lines : List Text}

theorem eq_of_changedFrom {number : Nat} {olds news : List Text}
    (hlength : news.length = olds.length) (h : changedFrom number olds news = []) : news = olds := by
  fun_induction changedFrom number olds news with
  | case1 number old olds new news heq ih =>
    rw [eq_of_beq heq, ih (by simpa using hlength) h]
  | case2 => exact absurd h (by simp)
  | case3 olds number news hnot =>
    cases olds with
    | nil => exact List.length_eq_zero_iff.1 hlength
    | cons old olds =>
      cases news with
      | nil => exact absurd hlength (by simp)
      | cons new news => exact (hnot old olds new news rfl rfl).elim

/-- A correction that changes nothing is not recorded, and one that changes something is made. -/
theorem lines_correct (htarget : ∀ target ∈ target?, target.IsSingleLine) :
    (correct source? target? normalization correction).lines
      = correction.apply source? target? normalization.lines := by
  simp only [correct]
  split
  · rename_i hchanged
    have hlength := (correction.apply_keepsLines source? htarget normalization.lines).length_eq
    exact (eq_of_changedFrom hlength hchanged).symm
  · rfl

end Normalization

namespace Correction

/-- The lines after some corrections, one after another. -/
def applyAll (source? target? : Option Profile) (corrections : List Correction)
    (lines : List Text) : List Text :=
  corrections.foldl (fun lines correction ↦ correction.apply source? target? lines) lines

variable {source? target? : Option Profile} {corrections : List Correction}
  {correction : Correction} {lines : List Text}

theorem applyAll_cons :
    applyAll source? target? (correction :: corrections) lines
      = applyAll source? target? corrections (correction.apply source? target? lines) :=
  rfl

theorem applyAll_append {others : List Correction} :
    applyAll source? target? (corrections ++ others) lines
      = applyAll source? target? others (applyAll source? target? corrections lines) :=
  List.foldl_append

theorem applyAll_eq_self (h : ∀ correction ∈ corrections, correction.apply source? target? lines = lines) :
    applyAll source? target? corrections lines = lines := by
  induction corrections with
  | nil => rfl
  | cons correction corrections ih =>
    obtain ⟨hfirst, hothers⟩ := List.forall_mem_cons.1 h
    rw [applyAll_cons, hfirst, ih hothers]

end Correction

namespace Normalization

theorem lines_foldl_correct {source? target? : Option Profile}
    (htarget : ∀ target ∈ target?, target.IsSingleLine) (corrections : List Correction)
    (normalization : Normalization) :
    (corrections.foldl (correct source? target?) normalization).lines
      = Correction.applyAll source? target? corrections normalization.lines := by
  induction corrections generalizing normalization with
  | nil => rfl
  | cons correction corrections ih =>
    rw [List.foldl_cons, ih, lines_correct htarget, Correction.applyAll_cons]

/-- The words of a language are those of a single line. -/
theorem isSingleLine_of_mem {language? : Option Language} :
    ∀ profile ∈ language?.map Language.profile, profile.IsSingleLine := by
  intro profile hprofile
  obtain ⟨language, -, rfl⟩ := Option.map_eq_some_iff.1 hprofile
  exact language.isSingleLine_profile

theorem lines_ofCode (source? target? : Option Language) (code : Text) :
    (ofCode source? target? code).lines
      = Correction.applyAll (source?.map Language.profile) (target?.map Language.profile)
          Correction.all (tidyLines (source?.map Language.profile) code) := by
  rw [ofCode, lines_foldl_correct isSingleLine_of_mem]
  rfl

end Normalization

/-! ## Carriage returns -/

theorem Text.Edits.notMem {swaps : Text → Text → Prop} {t u : Text} {c : Char}
    (h : Edits swaps t u) (hswaps : ∀ {old new}, swaps old new → c ∉ old → c ∉ new) (ht : c ∉ t) :
    c ∉ u := by
  induction h with
  | nil => exact ht
  | keep d _ ih =>
    obtain ⟨hd, ht⟩ := not_or.1 (mt List.mem_cons.2 ht)
    exact fun hc ↦ (List.mem_cons.1 hc).elim hd (ih ht)
  | swap hswap _ ih =>
    obtain ⟨hold, ht⟩ := not_or.1 (mt List.mem_append.2 ht)
    exact fun hc ↦ (List.mem_append.1 hc).elim (hswaps hswap hold) (ih ht)
  | trans _ _ ih ih' => exact ih' (ih ht)

namespace Text

theorem return_notMem_unifyLineEnds (t : Text) : '\r' ∉ unifyLineEnds t := by
  fun_induction unifyLineEnds t with
  | case1 => exact List.not_mem_nil
  | case2 rest ih => simpa using ih
  | case3 c rest _ ih =>
    by_cases hc : c = '\r'
    · simpa [hc] using ih
    · simpa [hc, Ne.symm hc] using ih

theorem unifyLineEnds_eq_self {t : Text} (h : '\r' ∉ t) : unifyLineEnds t = t := by
  fun_induction unifyLineEnds t with
  | case1 => rfl
  | case2 rest ih => exact absurd List.mem_cons_self h
  | case3 c rest _ ih =>
    have hc : c ≠ '\r' := by
      rintro rfl
      exact h List.mem_cons_self
    have hrest : '\r' ∉ rest := fun hmem ↦ h (List.mem_cons_of_mem c hmem)
    simp [hc, ih hrest]

end Text

namespace Normalization

variable {line : Text}

theorem return_notMem_tidyLine (profile? : Option Profile) (h : '\r' ∉ line) :
    '\r' ∉ tidyLine profile? line := by
  refine (edits_tidyLine profile? line).notMem (fun hswap _ ↦ ?_) fun hc ↦ h (mem_of_mem_trimEnd hc)
  cases hswap <;> decide

end Normalization

namespace Correction

variable {source? target? : Option Profile} {correction : Correction} {old new line : Text}
  {lines : List Text}

theorem notMem_of_isSpacing {c : Char} {s : Text} (hc : isSpacing c = false)
    (hs : ∀ d ∈ s, isSpacing d) : c ∉ s :=
  fun hmem ↦ Bool.false_ne_true (hc.symm.trans (hs c hmem))

theorem Swap.return_notMem (helse : correction ≠ .elseIfKeyword) (h : Swap correction old new)
    (hold : '\r' ∉ old) : '\r' ∉ new := by
  cases h with
  | elseIfKeyword => exact absurd rfl helse
  | openParen | closeParen | missingColon | missingBrace | duplicateTerminators => decide
  | @quotes inner _ =>
    have hinner : '\r' ∉ Text.substitute ['\\', '\''] ['\''] inner :=
      Text.notMem_substitute (fun hc ↦ hold (by simp [hc])) (by decide)
    simp [hinner]
  | word h =>
    obtain ⟨hop, -, -, hnew⟩ := h
    have hspacing := notMem_of_isSpacing (c := '\r') (by decide) hnew
    rcases hop with rfl | rfl <;> simp [hspacing, Logic.conjunction, Logic.disjunction]
  | symbol h =>
    obtain ⟨hop, -, -, -, -⟩ := h
    rcases hop with rfl | rfl <;> decide

theorem return_notMem_mendElseIf {target : Language} (h : '\r' ∉ line) :
    '\r' ∉ mendElseIf target.profile line := by
  rw [mendElseIf]
  split
  · rename_i reading hread
    have hindent : '\r' ∉ reading.get .indent := fun hc ↦ h (mem_of_mem_get hread hc)
    have hrest : '\r' ∉ reading.rest := fun hc ↦ h ((rest_suffix hread).subset hc)
    have hkeyword : '\r' ∉ target.profile.elseIfKeyword := by cases target <;> decide
    simp [hindent, hrest, hkeyword]
  · exact h

theorem isElseIf_of_mem (language? : Option Language) :
    ∀ target ∈ language?.map Language.profile, IsElseIf target.elseIfKeyword := by
  intro profile hprofile
  obtain ⟨language, -, rfl⟩ := Option.map_eq_some_iff.1 hprofile
  exact isElseIf_elseIfKeyword language

theorem return_notMem_apply {target? : Option Language} (correction : Correction)
    (source? : Option Profile) (h : ∀ line ∈ lines, '\r' ∉ line) :
    ∀ line ∈ correction.apply source? (target?.map Language.profile) lines, '\r' ∉ line := by
  by_cases helse : correction = .elseIfKeyword
  · subst helse
    cases target? with
    | none => exact h
    | some target =>
      intro mended hmended
      obtain ⟨line, hline, rfl⟩ := List.mem_map.1 hmended
      exact return_notMem_mendElseIf (h line hline)
  · have hedits := edits_apply correction source? (isElseIf_of_mem target?) lines
    generalize correction.apply source? _ lines = mended at hedits
    induction hedits with
    | nil => exact h
    | cons hline _ ih =>
      obtain ⟨hfirst, hothers⟩ := List.forall_mem_cons.1 h
      exact List.forall_mem_cons.2 ⟨hline.notMem (Swap.return_notMem helse) hfirst, ih hothers⟩

theorem return_notMem_applyAll {target? : Option Language} (source? : Option Profile)
    (corrections : List Correction) (h : ∀ line ∈ lines, '\r' ∉ line) :
    ∀ line ∈ applyAll source? (target?.map Language.profile) corrections lines, '\r' ∉ line := by
  induction corrections generalizing lines with
  | nil => exact h
  | cons correction corrections ih => exact ih (return_notMem_apply correction source? h)

end Correction

namespace Normalization

theorem return_notMem_of_mem_ofCode {source? target? : Option Language} {code line : Text}
    (h : line ∈ (ofCode source? target? code).lines) : '\r' ∉ line := by
  rw [lines_ofCode] at h
  refine Correction.return_notMem_applyAll _ _ (fun tidied htidied ↦ ?_) line h
  obtain ⟨piece, hpiece, rfl⟩ := List.mem_map.1 htidied
  refine return_notMem_tidyLine _ fun hc ↦ ?_
  exact return_notMem_unifyLineEnds code (mem_of_mem_splitOn hpiece hc)

/-- Tidying a normalized program tidies its lines. -/
theorem tidyLines_text (source? target? : Option Language) (code : Text) (profile? : Option Profile) :
    tidyLines profile? (ofCode source? target? code).text
      = (ofCode source? target? code).lines.map (tidyLine profile?) := by
  have hreturn : '\r' ∉ (ofCode source? target? code).text :=
    notMem_joinWith (by decide) fun line hline ↦ return_notMem_of_mem_ofCode hline
  rw [tidyLines, unifyLineEnds_eq_self hreturn, lines_text]

end Normalization

/-! ## No correction undoes another -/

namespace Correction

variable {source? target? : Option Profile} {correction other : Correction}
  {corrections : List Correction} {lines : List Text}

theorem contains_signs_of_isBlank {c : Char} (hc : isBlank c) :
    correction.signs.contains c = false := by
  have h : correction.countSigns [c] = 0 := countSigns_of_isBlank (by simpa using hc)
  simpa [countSigns] using h

/-- The signs of a correction are left alone by all others. -/
theorem total_countSigns_apply (hne : other ≠ correction)
    (htarget : ∀ target ∈ target?, IsElseIf target.elseIfKeyword) :
    total correction.countSigns (other.apply source? target? lines)
      = total correction.countSigns lines := by
  have hmarks : other.marks.all (!correction.signs.contains ·) := by
    cases other <;> cases correction <;> first | exact absurd rfl hne | decide
  refine total_countP_apply other source? htarget (fun c hc ↦ ?_) (fun c ↦ contains_signs_of_isBlank) lines
  simpa using List.all_eq_true.1 hmarks c hc

theorem total_countSigns_applyAll (hnot : correction ∉ corrections)
    (htarget : ∀ target ∈ target?, IsElseIf target.elseIfKeyword) :
    total correction.countSigns (applyAll source? target? corrections lines)
      = total correction.countSigns lines := by
  induction corrections generalizing lines with
  | nil => rfl
  | cons other corrections ih =>
    obtain ⟨hne, hnot⟩ := not_or.1 (mt List.mem_cons.2 hnot)
    rw [applyAll_cons, ih hnot, total_countSigns_apply (Ne.symm hne) htarget]

/-- Corrections that together leave the number of all their signs alone have changed nothing, one by
one. -/
theorem apply_eq_self_of_applyAll (hnodup : corrections.Nodup) (helse : .elseIfKeyword ∉ corrections)
    (htarget : ∀ target ∈ target?, IsElseIf target.elseIfKeyword)
    (htotal : ∀ correction ∈ corrections,
      total correction.countSigns (applyAll source? target? corrections lines)
        = total correction.countSigns lines) :
    ∀ correction ∈ corrections, correction.apply source? target? lines = lines := by
  induction corrections with
  | nil => simp
  | cons first corrections ih =>
    obtain ⟨hnot, hnodup⟩ := List.nodup_cons.1 hnodup
    obtain ⟨hne, helse⟩ := not_or.1 (mt List.mem_cons.2 helse)
    obtain ⟨hfirst, hothers⟩ := List.forall_mem_cons.1 htotal
    rw [applyAll_cons, total_countSigns_applyAll hnot htarget] at hfirst
    have hself := apply_eq_self_of_total (Ne.symm hne) htarget hfirst
    simp only [applyAll_cons, hself] at hothers
    exact List.forall_mem_cons.2 ⟨hself, ih hnodup helse hothers⟩

end Correction

/-! ## Tidying leaves the keyword of a branch alone -/

namespace Normalization

variable {u t m old new line : Text}

/-- What tidying takes out is spacing and then a mark. -/
theorem SpacingSwap.exists_mark (h : SpacingSwap old new) :
    ∃ s mark after, old = s ++ mark :: after ∧ (∀ c ∈ s, isSpacing c) ∧ mark ∈ [',', ':', '{'] := by
  cases h with
  | comma _ hs | colon _ hs | wideBrace _ hs => exact ⟨_, _, [], rfl, hs, by decide⟩
  | @wideComma s hs => exact ⟨[], ',', s, rfl, by simp, by decide⟩

/-- A beginning of a text that holds no mark and ends in no spacing stays as it is. -/
theorem exists_append_of_edits (h : Edits SpacingSwap (u ++ t) m)
    (hmarks : ∀ c ∈ u, c ∉ [',', ':', '{']) (hlast : ∀ c ∈ u.getLast?, isSpacing c = false) :
    ∃ m', m = u ++ m' := by
  generalize htext : u ++ t = text at h
  induction h generalizing u t with
  | nil =>
    obtain ⟨rfl, rfl⟩ := List.append_eq_nil_iff.1 htext
    exact ⟨[], rfl⟩
  | @keep c t' m _ ih =>
    cases u with
    | nil => exact ⟨c :: m, rfl⟩
    | cons d u =>
      obtain ⟨rfl, rfl⟩ := List.cons.inj htext
      have hlast' : ∀ c ∈ u.getLast?, isSpacing c = false := by
        intro c hc
        apply hlast c
        rw [List.getLast?_cons, Option.mem_def.1 hc]
        rfl
      obtain ⟨m', rfl⟩ := ih (List.forall_mem_cons.1 hmarks).2 hlast' rfl
      exact ⟨m', rfl⟩
  | @swap old new t' m hswap _ _ =>
    -- The stretch that is swapped starts with spacing and a mark, so it starts behind `u`.
    cases hu : u with
    | nil => exact ⟨new ++ m, rfl⟩
    | cons d u' =>
      exfalso
      obtain ⟨s, mark, after, rfl, hs, hmark⟩ := hswap.exists_mark
      have hspacing (hall : ∀ c ∈ u, isSpacing c) : False := by
        have hmem : u.getLast (by simp [hu]) ∈ u.getLast? := List.getLast?_eq_some_getLast _
        have hfalse := hlast _ hmem
        rw [hall _ (List.getLast_mem _)] at hfalse
        exact Bool.noConfusion hfalse
      rw [List.append_assoc, List.cons_append] at htext
      rcases List.append_eq_append_iff.1 htext with ⟨a, rfl, -⟩ | ⟨a, rfl, hafter⟩
      · exact hspacing fun c hc ↦ hs c (List.mem_append_left a hc)
      · cases a with
        | nil => exact hspacing (by simpa using hs)
        | cons e a =>
          obtain ⟨rfl, -⟩ := List.cons.inj hafter
          exact hmarks mark (by simp) hmark
  | trans _ _ ih ih' =>
    obtain ⟨m', rfl⟩ := ih hmarks hlast htext
    exact ih' hmarks hlast rfl

end Normalization

/-- A text that ends in ink loses blanks behind it only. -/
theorem Text.exists_trimEnd_append {u : Text} (hlast : ∀ c ∈ u.getLast?, isBlank c = false)
    (t : Text) : ∃ t', trimEnd (u ++ t) = u ++ t' := by
  by_cases hvoid : trimEnd t = []
  · have hgap := trimEnd_append_gap t
    rw [hvoid, List.nil_append] at hgap
    have hblank : ∀ c ∈ t, isBlank c := by
      rw [← hgap]
      exact fun c hc ↦ isBlank_of_mem_gap hc
    refine ⟨[], ?_⟩
    rw [trimEnd_append_of_blank u hblank, List.append_nil]
    exact dropEndWhile_eq_self hlast
  · exact ⟨trimEnd t, trimEnd_append_of_ne_nil u hvoid⟩

namespace Correction

variable {line : Text} {target : Language}

/-- Mending the keyword of a branch does not make up for tidying. -/
theorem tidyLine_eq_of_mendElseIf {profile? : Option Profile}
    (h : mendElseIf target.profile (Normalization.tidyLine profile? line) = line) :
    Normalization.tidyLine profile? line = line := by
  rw [mendElseIf] at h
  split at h
  · rename_i reading hread
    obtain ⟨keyword, hbranch⟩ := exists_startsBranch_of_readStart hread
    have hmended := hbranch.mended target
    have hlast : ∀ c ∈ (reading.get .indent ++ target.profile.elseIfKeyword).getLast?,
        isSpacing c = false ∧ isBlank c = false := by
      rw [hmended.getLast?_eq]
      rintro _ ⟨⟩
      decide
    obtain ⟨t, ht⟩ := exists_trimEnd_append (u := reading.get .indent ++ target.profile.elseIfKeyword)
      (fun c hc ↦ (hlast c hc).2) reading.rest
    have hedits := Normalization.edits_tidyLine profile? line
    rw [← h, ht, h] at hedits
    -- What tidying leaves is the target's keyword, so this is the one that was read.
    obtain ⟨m, hm⟩ := Normalization.exists_append_of_edits hedits
      (fun c hc ↦ notMem_marks_of_isCloser (hmended.isCloser_or_mem c hc))
      fun c hc ↦ (hlast c hc).1
    have htidy := hbranch.line_eq
    rw [hm, List.append_assoc, List.append_assoc, List.append_cancel_left_eq] at htidy
    rw [hbranch.line_eq, hbranch.keyword.eq_of_append htidy.symm, h]
  · exact h

end Correction

/-! ## Settled programs -/

/-- Whether no step of normalization changes anything in the lines. -/
structure IsSettled (source? target? : Option Profile) (lines : List Text) : Prop where
  tidyLine : ∀ line ∈ lines, Normalization.tidyLine source? line = line
  apply : ∀ correction : Correction, correction.apply source? target? lines = lines

namespace Normalization

variable {source? target? : Option Language} {code : Text}

theorem map_eq_self_iff {f : Text → Text} {lines : List Text} :
    lines.map f = lines ↔ ∀ line ∈ lines, f line = line := by
  have h := List.map_inj_left (l := lines) (f := f) (g := id)
  rwa [List.map_id] at h

theorem mem_all (correction : Correction) : correction ∈ Correction.all := by
  cases correction <;> decide

theorem tidyLine_eq_of_elseIf {profile? : Option Profile} {lines : List Text}
    (h : Correction.elseIfKeyword.apply profile? (target?.map Language.profile)
      (lines.map (tidyLine profile?)) = lines) :
    lines.map (tidyLine profile?) = lines := by
  cases target? with
  | none => exact h
  | some target =>
    have hmend : lines.map (Correction.mendElseIf target.profile ∘ tidyLine profile?) = lines := by
      rw [← List.map_map]
      exact h
    rw [map_eq_self_iff] at hmend ⊢
    exact fun line hline ↦ Correction.tidyLine_eq_of_mendElseIf (hmend line hline)

/-- Steps that together give back the lines have all left them alone. -/
theorem isSettled_of_applyAll {profile? : Option Profile} {lines : List Text}
    (h : Correction.applyAll profile? (target?.map Language.profile) Correction.all
      (lines.map (tidyLine profile?)) = lines) :
    IsSettled profile? (target?.map Language.profile) lines := by
  have htarget := Correction.isElseIf_of_mem target?
  generalize hmended : Correction.elseIfKeyword.apply profile? (target?.map Language.profile)
    (lines.map (tidyLine profile?)) = mended
  have hall : Correction.applyAll profile? (target?.map Language.profile) Correction.all.tail mended
      = lines := by
    rw [← hmended]
    exact h
  have hothers : ∀ correction ∈ Correction.all.tail,
      correction.apply profile? (target?.map Language.profile) mended = mended := by
    refine Correction.apply_eq_self_of_applyAll (by decide) (by decide) htarget fun correction hmem ↦ ?_
    have hne : Correction.elseIfKeyword ≠ correction := by
      rintro rfl
      exact absurd hmem (by decide)
    rw [hall, ← hmended, Correction.total_countSigns_apply hne htarget]
    apply total_eq_of_forall₂
    rw [List.forall₂_map_left_iff, List.forall₂_same]
    exact fun line _ ↦
      (countP_tidyLine (fun c ↦ Correction.contains_signs_of_isBlank) profile? line).symm
  obtain rfl : mended = lines := by rw [← hall, Correction.applyAll_eq_self hothers]
  have htidy := tidyLine_eq_of_elseIf hmended
  refine ⟨map_eq_self_iff.1 htidy, fun correction ↦ ?_⟩
  · rcases List.mem_cons.1 (mem_all correction) with rfl | hmem
    · rw [htidy] at hmended
      exact hmended
    · exact hothers correction hmem

/-- A second normalization changes nothing if and only if no step has anything left to do. -/
theorem text_ofCode_text_eq_iff :
    (ofCode source? target? (ofCode source? target? code).text).text
        = (ofCode source? target? code).text
      ↔ IsSettled (source?.map Language.profile) (target?.map Language.profile)
          (ofCode source? target? code).lines := by
  have hagain := lines_ofCode source? target? (ofCode source? target? code).text
  rw [tidyLines_text] at hagain
  constructor
  · intro h
    apply isSettled_of_applyAll
    rw [← hagain, ← lines_text, h, lines_text]
  · intro h
    rw [map_eq_self_iff.2 h.tidyLine, Correction.applyAll_eq_self fun k _ ↦ h.apply k] at hagain
    rw [text, hagain, text]

end Normalization

end Recast
