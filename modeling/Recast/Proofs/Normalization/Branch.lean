import Recast.Proofs.Normalization.Tidy
import Recast.Proofs.Pattern.Simulation

/-!
# The keyword of a further branch

A line has the keyword of a language for a further branch if it starts with no other spelling of it.
Mending the keyword brings this about, and what other corrections put into the line does not change
it.
-/

namespace Recast.Correction

open Text Pattern

variable {line indent keyword rest t u : Text} {target : Language}

/-! ## Lines that start with the keyword -/

/-- The characters that the end of a block consists of. -/
def isCloser (c : Char) : Bool :=
  isBlank c || c == '}'

theorem isCloser_of_describes (h : (blanks ++ Normalization.closer?).Describes u) :
    ∀ c ∈ u, isCloser c := by
  have hblank {b : Text} (hb : blanks.Describes b) : ∀ c ∈ b, isCloser c :=
    fun c hc ↦ Bool.or_eq_true_iff.2 (.inl (describes_most_char.1 hb c hc))
  obtain ⟨b, w, rfl, hb, hw⟩ := h
  refine List.forall_mem_append.2 ⟨hblank hb, ?_⟩
  rcases hw with ⟨v, b', rfl, hv, hb'⟩ | rfl
  · rw [describes_mark.1 hv]
    exact List.forall_mem_cons.2 ⟨by decide, hblank hb'⟩
  · simp

theorem IsElseIf.exists_cons (h : IsElseIf keyword) : ∃ w, keyword = 'e' :: w := by
  cases h <;> exact ⟨_, rfl⟩

theorem IsElseIf.mem (h : IsElseIf keyword) : ∀ c ∈ keyword, isBlank c ∨ c ∈ ("elsif" : Text) := by
  have hletters {w : Text} (hw : w.all ("elsif" : Text).contains) :
      ∀ c ∈ w, isBlank c ∨ c ∈ ("elsif" : Text) :=
    fun c hc ↦ .inr (by simpa using List.all_eq_true.1 hw c hc)
  cases h with
  | elif | elsif | elseif => exact hletters (by decide)
  | elseThenIf _ hb =>
    exact List.forall_mem_append.2
      ⟨List.forall_mem_append.2 ⟨hletters (by decide), fun c hc ↦ .inl (hb c hc)⟩,
        hletters (by decide)⟩

namespace StartsBranch

/-- The keyword stands where the end of the block before stops. -/
theorem dropWhile_eq (h : StartsBranch line indent keyword rest) :
    line.dropWhile isCloser = keyword ++ rest := by
  obtain ⟨w, hw⟩ := h.keyword.exists_cons
  rw [h.line_eq, hw, List.append_assoc, List.dropWhile_append_of_pos (isCloser_of_describes h.indent),
    List.cons_append, List.dropWhile_cons_of_neg (by decide)]

theorem isCloser_or_mem (h : StartsBranch line indent keyword rest) :
    ∀ c ∈ indent ++ keyword, isCloser c ∨ c ∈ ("elsif" : Text) := by
  refine List.forall_mem_append.2 ⟨fun c hc ↦ .inl (isCloser_of_describes h.indent c hc), ?_⟩
  exact fun c hc ↦ (h.keyword.mem c hc).imp_left fun hc ↦ Bool.or_eq_true_iff.2 (.inl hc)

theorem getLast?_eq (h : StartsBranch line indent keyword rest) :
    (indent ++ keyword).getLast? = some 'f' := by
  rw [List.getLast?_append, h.keyword.getLast?_eq]
  rfl

/-- Such a line is read as one. -/
theorem isSome_readStart (h : StartsBranch line indent keyword rest) :
    (Normalization.elseIfKeyword.readStart line).isSome := by
  have hreads : (keep .indent (blanks ++ Normalization.closer?)
      ++ anyOf ["elif", "elsif", "elseif", "else" ++ blanks1 ++ "if"]).Reads (indent ++ keyword) :=
    reads_of_describes (by rfl)
      ⟨indent, keyword, rfl, h.indent, isElseIf_iff_describes.2 h.keyword⟩
  obtain ⟨after, hafter, hrest, hbefore⟩ := hreads none rest []
  have hf : after.before = some 'f' := by
    rw [hbefore, endOf, h.getLast?_eq]
    rfl
  have hword : isWord 'f' := by decide
  have hhead : rest.head?.any isWord = false := by
    cases hhead : rest.head? with
    | none => rfl
    | some c => exact h.edge c hhead
  refine isSome_readAt_iff.2 ⟨after, List.mem_flatMap.2 ⟨after, ?_, ?_⟩⟩
  · rw [h.line_eq]
    exact hafter
  · simp [Pattern.edge, outcomes, hf, hrest, hword, hhead]

end StartsBranch

/-! ## The keyword of the target -/

/-- Whether the line starts with no keyword of a further branch but the one of the language. -/
def KeepsBranch (target : Language) (line : Text) : Prop :=
  ∀ ⦃indent keyword rest⦄, StartsBranch line indent keyword rest →
    keyword = target.profile.elseIfKeyword

theorem KeepsBranch.mendElseIf_eq (h : KeepsBranch target line) :
    mendElseIf target.profile line = line := by
  rw [mendElseIf]
  split
  · rename_i reading hread
    obtain ⟨keyword, hbranch⟩ := exists_startsBranch_of_readStart hread
    rw [← h hbranch, ← hbranch.line_eq]
  · rfl

/-- Every language has a keyword for a further branch that normalization knows. -/
theorem isElseIf_elseIfKeyword (language : Language) : IsElseIf language.profile.elseIfKeyword := by
  have hblank : IsElseIf ("else if" : Text) :=
    IsElseIf.elseThenIf (b := [' ']) (by simp) (List.forall_mem_singleton.2 (by decide))
  cases language
  case python => exact .elif
  case php => exact .elseif
  case ruby => exact .elsif
  all_goals exact hblank

/-- The keyword of the language may take the place of another one. -/
theorem StartsBranch.mended (h : StartsBranch line indent keyword rest) (target : Language) :
    StartsBranch (indent ++ target.profile.elseIfKeyword ++ rest) indent
      target.profile.elseIfKeyword rest :=
  ⟨rfl, h.indent, isElseIf_elseIfKeyword target, h.edge⟩

/-- The keyword at the start of a text is the target's if the text also starts with the target's. -/
theorem IsElseIf.eq_of_append {after : Text} (h : IsElseIf keyword)
    (heq : keyword ++ rest = target.profile.elseIfKeyword ++ after) :
    keyword = target.profile.elseIfKeyword := by
  have hspelling : target.profile.elseIfKeyword
      ∈ (["elif", "elsif", "elseif", "else if"] : List Text) := by
    cases target <;> decide
  generalize target.profile.elseIfKeyword = wanted at heq hspelling
  cases h with
  | elif | elsif | elseif =>
    simp only [List.mem_cons, List.not_mem_nil, or_false] at hspelling
    rcases hspelling with rfl | rfl | rfl | rfl <;> first | rfl | simp at heq
  | @elseThenIf b hne hb =>
    obtain ⟨c, b, rfl⟩ := List.exists_cons_of_ne_nil hne
    obtain ⟨hc, hb⟩ := List.forall_mem_cons.1 hb
    have hnot : c ≠ 'i' := by
      rintro rfl
      exact absurd hc (by decide)
    simp only [List.mem_cons, List.not_mem_nil, or_false] at hspelling
    rcases hspelling with rfl | rfl | rfl | rfl
    · simp at heq
    · simp at heq
    · simp [hnot] at heq
    · cases b with
      | nil => simp_all
      | cons d b =>
        have hd : d ≠ 'i' := by
          rintro rfl
          exact absurd (hb 'i' List.mem_cons_self) (by decide)
        simp [hd] at heq

/-- Mending the keyword leaves no other one. -/
theorem keepsBranch_mendElseIf (target : Language) (line : Text) :
    KeepsBranch target (mendElseIf target.profile line) := by
  rw [mendElseIf]
  split
  · rename_i reading hread
    obtain ⟨keyword, hbranch⟩ := exists_startsBranch_of_readStart hread
    have hmended := hbranch.mended target
    intro indent keyword rest hother
    exact hother.keyword.eq_of_append (hother.dropWhile_eq.symm.trans hmended.dropWhile_eq)
  · rename_i hnone
    intro indent keyword rest hbranch
    have hsome := hbranch.isSome_readStart
    rw [hnone] at hsome
    exact absurd hsome (by decide)

/-- A line whose first ink is another letter starts with no keyword of a branch. -/
theorem keepsBranch_of_head {c : Char} (h : line.dropWhile isCloser = c :: t) (hc : c ≠ 'e') :
    KeepsBranch target line := by
  intro indent keyword rest hbranch
  obtain ⟨w, hw⟩ := hbranch.keyword.exists_cons
  rw [hbranch.dropWhile_eq, hw] at h
  exact absurd (List.cons.inj h).1.symm hc

/-- A mark behind the code of a line is no part of the keyword that the line starts with. -/
theorem KeepsBranch.append_mark {mark : Text} (h : KeepsBranch target (u ++ t))
    (hmark : mark ∈ Normalization.endMarks) (ht : ∀ c ∈ t.head?, isWord c = false) :
    KeepsBranch target (u ++ mark ++ t) := by
  intro indent keyword rest hbranch
  have hlast := hbranch.getLast?_eq
  -- The keyword ends before the mark, as the mark holds characters that the keyword does not.
  have hbefore : ∃ a, u = indent ++ keyword ++ a ∧ rest = a ++ mark ++ t := by
    have hline := hbranch.line_eq
    rw [List.append_assoc u] at hline
    rcases List.append_eq_append_iff.1 hline with ⟨a, ha, hrest⟩ | ⟨a, ha, hrest⟩
    · have hnot {c : Char} (hc : c ∈ a) : isCloser c ∨ c ∈ ("elsif" : Text) :=
        hbranch.isCloser_or_mem c (ha ▸ List.mem_append_right u hc)
      cases a with
      | nil => exact ⟨[], by simpa using ha.symm, by simpa using hrest.symm⟩
      | cons d a =>
        exfalso
        simp only [Normalization.endMarks, List.mem_cons, List.not_mem_nil, or_false] at hmark
        rcases hmark with rfl | rfl | rfl
        · obtain ⟨rfl, -⟩ := List.cons.inj hrest
          exact absurd (hnot List.mem_cons_self) (by decide)
        · obtain ⟨rfl, -⟩ := List.cons.inj hrest
          exact absurd (hnot List.mem_cons_self) (by decide)
        · obtain ⟨rfl, hbrace⟩ := List.cons.inj hrest
          cases a with
          | nil =>
            rw [ha, List.getLast?_concat] at hlast
            exact absurd hlast (by decide)
          | cons e a =>
            obtain ⟨rfl, -⟩ := List.cons.inj hbrace
            exact absurd (hnot (List.mem_cons_of_mem _ List.mem_cons_self)) (by decide)
    · exact ⟨a, ha, by rw [hrest, List.append_assoc]⟩
  obtain ⟨a, rfl, rfl⟩ := hbefore
  have hother : StartsBranch (indent ++ keyword ++ a ++ t) indent keyword (a ++ t) := by
    refine ⟨by simp, hbranch.indent, hbranch.keyword, fun c hc ↦ ?_⟩
    cases a with
    | nil => exact ht c hc
    | cons d a => exact hbranch.edge c hc
  exact h hother

/-! ## Tidiness -/

theorem notMem_of_isCloser {chars : Text} (hchars : chars.all fun c ↦
    !isCloser c && !("elsif" : Text).contains c) {c : Char}
    (h : isCloser c ∨ c ∈ ("elsif" : Text)) : c ∉ chars := by
  intro hc
  have hnot := List.all_eq_true.1 hchars c hc
  simp only [Bool.and_eq_true, Bool.not_eq_true', List.contains_eq_mem,
    decide_eq_false_iff_not] at hnot
  exact h.elim (by simp [hnot.1]) hnot.2

theorem notMem_marks_of_isCloser {c : Char} (h : isCloser c ∨ c ∈ ("elsif" : Text)) :
    c ∉ [',', ':', '{'] :=
  notMem_of_isCloser (by decide) h

theorem isNeutral_of_isCloser {marks : Markers} (hmarks : marks.IsUsual) {c : Char}
    (h : isCloser c ∨ c ∈ ("elsif" : Text)) : marks.isNeutral c :=
  hmarks.isNeutral c (notMem_of_isCloser (by decide) h)

/-- Mending the keyword leaves a line tidy. -/
theorem isTidy_mendElseIf {marks : Markers} (hmarks : marks.IsUsual)
    (h : Normalization.IsTidy marks line) (target : Language) :
    Normalization.IsTidy marks (mendElseIf target.profile line) := by
  rw [mendElseIf]
  split
  · rename_i reading hread
    obtain ⟨keyword, hbranch⟩ := exists_startsBranch_of_readStart hread
    have hmended := hbranch.mended target
    have hink : isInk 'f' := by decide
    rw [hbranch.line_eq] at h
    refine h.of_append (fun c hc ↦ isNeutral_of_isCloser hmarks (hbranch.isCloser_or_mem c hc)) ?_
      (fun c hc ↦ ⟨isNeutral_of_isCloser hmarks (hmended.isCloser_or_mem c hc),
        notMem_marks_of_isCloser (hmended.isCloser_or_mem c hc)⟩)
      ⟨'f', hmended.getLast?_eq, hink⟩ (.inl ⟨'f', hbranch.getLast?_eq, hink⟩)
    exact List.ne_nil_of_mem (List.mem_of_getLast? hbranch.getLast?_eq)
  · exact h

end Recast.Correction
