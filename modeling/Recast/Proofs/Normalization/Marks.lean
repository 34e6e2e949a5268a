import Recast.Proofs.Normalization.Swaps

/-!
# Counting what a correction writes

A correction writes and drops only blanks and a few characters of its own, so it leaves the number of
all others alone.  Some of its own characters, its signs, it always makes more or always makes fewer.
If their number has not changed, the correction has changed nothing; and no other correction touches
them.
-/

namespace Recast

open Text Logic

theorem isBlank_of_isSpacing {c : Char} (h : isSpacing c) : isBlank c := by
  rcases Bool.or_eq_true_iff.1 h with h | h <;> rw [eq_of_beq h] <;> rfl

section Counting

variable {p : Char → Bool} {u marks : Text}

theorem countP_eq_zero_of_isBlank (hblank : ∀ c, isBlank c → p c = false)
    (hu : ∀ c ∈ u, isBlank c) : u.countP p = 0 := by
  rw [List.countP_eq_zero]
  intro c hc
  simp [hblank c (hu c hc)]

theorem countP_eq_zero_of_all (hmarks : ∀ c ∈ marks, p c = false) (hu : u.all marks.contains) :
    u.countP p = 0 := by
  rw [List.countP_eq_zero]
  intro c hc
  have hmem : c ∈ marks := by simpa using List.all_eq_true.1 hu c hc
  simp [hmarks c hmem]

end Counting

/-! ## Foreign characters -/

namespace Normalization

theorem countP_tidyLine {p : Char → Bool} (hblank : ∀ c, isBlank c → p c = false)
    (profile? : Option Profile) (line : Text) :
    (tidyLine profile? line).countP p = line.countP p := by
  have hspacing {s : Text} (hs : ∀ c ∈ s, isSpacing c) : s.countP p = 0 :=
    countP_eq_zero_of_isBlank hblank fun c hc ↦ isBlank_of_isSpacing (hs c hc)
  have hspace : p ' ' = false := hblank ' ' rfl
  have hgap : (gap line).countP p = 0 :=
    countP_eq_zero_of_isBlank hblank fun _ ↦ isBlank_of_mem_gap
  calc (tidyLine profile? line).countP p
      = (trimEnd line).countP p := by
        apply (edits_tidyLine profile? line).countP_eq
        intro old new hswap
        cases hswap with
        | comma _ hs | colon _ hs => simp [hspacing hs]
        | wideComma hs => simp [List.countP_cons, hspacing hs, hspace]
        | wideBrace _ hs => simp [List.countP_cons, hspacing hs, hspace]
    _ = (trimEnd line ++ gap line).countP p := by rw [List.countP_append, hgap, Nat.add_zero]
    _ = line.countP p := by rw [trimEnd_append_gap]

end Normalization

namespace Correction

/-- The characters, apart from blanks, that a correction writes or drops. -/
def marks : Correction → Text
  | elseIfKeyword => "elsif"
  | printStatement => "()"
  | missingColon => ":"
  | missingBrace => ['{']
  | quotes => ['"', '\'', '\\']
  | duplicateTerminators => ";"
  | logicalOperators => "&|andor"

variable {correction : Correction} {source? target? : Option Profile} {source : Profile}
  {p : Char → Bool} {old new : Text} {lines : List Text}

theorem IsElseIf.countP_eq_zero {keyword : Text} (h : IsElseIf keyword)
    (hmarks : ∀ c ∈ elseIfKeyword.marks, p c = false) (hblank : ∀ c, isBlank c → p c = false) :
    keyword.countP p = 0 := by
  cases h with
  | elif | elsif | elseif => exact countP_eq_zero_of_all hmarks rfl
  | elseThenIf _ hb =>
    rw [List.countP_append, List.countP_append, countP_eq_zero_of_isBlank hblank hb,
      countP_eq_zero_of_all hmarks rfl, countP_eq_zero_of_all hmarks rfl]

theorem countP_operator {op : Operator} (hop : op = conjunction ∨ op = disjunction)
    (hmarks : ∀ c ∈ logicalOperators.marks, p c = false) :
    op.symbol.countP p = 0 ∧ op.word.countP p = 0 := by
  rcases hop with rfl | rfl <;>
    exact ⟨countP_eq_zero_of_all hmarks rfl, countP_eq_zero_of_all hmarks rfl⟩

/-- A swap of a correction leaves alone the number of characters that are foreign to it. -/
theorem Swap.countP_eq (h : Swap correction old new) (hmarks : ∀ c ∈ correction.marks, p c = false)
    (hblank : ∀ c, isBlank c → p c = false) : new.countP p = old.countP p := by
  have hspacing {s : Text} (hs : ∀ c ∈ s, isSpacing c) : s.countP p = 0 :=
    countP_eq_zero_of_isBlank hblank fun c hc ↦ isBlank_of_isSpacing (hs c hc)
  have hspace : (" " : Text).countP p = 0 := hspacing (by simp [isSpacing])
  cases h with
  | elseIfKeyword hold hnew =>
    rw [hold.countP_eq_zero hmarks hblank, hnew.countP_eq_zero hmarks hblank]
  | openParen hb => rw [countP_eq_zero_of_isBlank hblank hb, countP_eq_zero_of_all hmarks rfl]
  | closeParen => exact countP_eq_zero_of_all hmarks rfl
  | missingColon => exact countP_eq_zero_of_all hmarks rfl
  | missingBrace => simp [hblank ' ' rfl, hmarks '{' List.mem_cons_self]
  | quotes hinner =>
    have hsingle : p '\'' = false := hmarks '\'' (by decide)
    have hdouble : p '"' = false := hmarks '"' (by decide)
    have hescape : p '\\' = false := hmarks '\\' (by decide)
    rw [List.cons_append, List.cons_append, List.countP_cons, List.countP_cons,
      List.countP_append, List.countP_append, (edits_substitute (by simp) _).countP_eq]
    · simp [hsingle, hdouble]
    · rintro _ _ ⟨rfl, rfl⟩
      simp [hsingle, hescape]
  | @duplicateTerminators u _ hu =>
    have hmark : p ';' = false := hmarks ';' List.mem_cons_self
    have hzero : u.countP p = 0 := List.countP_eq_zero.2 fun c hc ↦ by simp [hu c hc, hmark]
    simp [hzero, hmark]
  | word h =>
    obtain ⟨hop, hbefore, hafter, hnew⟩ := h
    obtain ⟨hsymbol, hword⟩ := countP_operator hop hmarks
    simp only [List.countP_append, hspacing hbefore, hspacing hafter, hspacing hnew, hspace,
      hsymbol, hword]
  | symbol h =>
    obtain ⟨hop, hbefore, hafter, -, -⟩ := h
    obtain ⟨hsymbol, hword⟩ := countP_operator hop hmarks
    simp only [List.countP_append, hspacing hbefore, hspacing hafter, hspace, hsymbol, hword]

/-- A correction leaves alone the number of characters that are foreign to it. -/
theorem total_countP_apply (correction : Correction) (source? : Option Profile)
    (htarget : ∀ target ∈ target?, IsElseIf target.elseIfKeyword)
    (hmarks : ∀ c ∈ correction.marks, p c = false) (hblank : ∀ c, isBlank c → p c = false)
    (lines : List Text) :
    total (List.countP p) (correction.apply source? target? lines)
      = total (List.countP p) lines := by
  apply total_eq_of_forall₂
  refine (edits_apply correction source? htarget lines).imp fun line other hedits ↦ ?_
  exact hedits.countP_eq fun hswap ↦ hswap.countP_eq hmarks hblank

/-! ## Signs -/

/-- The characters whose number tells whether a correction has changed anything.  The keyword of a
branch leaves no such sign. -/
def signs : Correction → Text
  | elseIfKeyword => []
  | printStatement => "()"
  | missingColon => ":"
  | missingBrace => ['{']
  | quotes => ['"']
  | duplicateTerminators => ";"
  | logicalOperators => "&|"

/-- The number of signs of a correction in a line. -/
def countSigns (correction : Correction) (line : Text) : Nat :=
  line.countP correction.signs.contains

theorem countSigns_of_isBlank (hold : ∀ c ∈ old, isBlank c) : correction.countSigns old = 0 := by
  refine countP_eq_zero_of_isBlank (fun c hc ↦ ?_) hold
  have hsigns : correction.signs.all (!isBlank ·) := by cases correction <;> decide
  rw [← Bool.not_eq_true, List.contains_iff_mem]
  intro hmem
  simpa [hc] using List.all_eq_true.1 hsigns c hmem

/-- What is put in for a print statement, a colon, a brace or quotes brings in signs. -/
theorem Swap.countSigns_lt (h : Swap correction old new) (helse : correction ≠ .elseIfKeyword)
    (hterminators : correction ≠ .duplicateTerminators) (hlogic : correction ≠ .logicalOperators) :
    correction.countSigns old < correction.countSigns new := by
  cases h with
  | elseIfKeyword => exact absurd rfl helse
  | openParen hb =>
    rw [countSigns_of_isBlank hb]
    decide
  | closeParen | missingColon | missingBrace => decide
  | @quotes inner hinner =>
    have hold : Correction.quotes.countSigns ('\'' :: inner ++ ['\'']) = 0 := by
      rw [countSigns, List.countP_eq_zero]
      intro c hc
      have hne : c ≠ '"' := by
        rintro rfl
        simp_all
      simpa [signs] using hne
    rw [hold]
    simp [countSigns, signs]
  | duplicateTerminators => exact absurd rfl hterminators
  | word | symbol => exact absurd rfl hlogic

theorem countSigns_lt_of_terminators (h : Swap .duplicateTerminators old new) :
    duplicateTerminators.countSigns new < duplicateTerminators.countSigns old := by
  cases h with
  | @duplicateTerminators u hne hu =>
    have hcount : Correction.duplicateTerminators.countSigns u = u.length := by
      rw [countSigns, List.countP_eq_length]
      intro c hc
      simp [signs, hu c hc]
    have hpos : 0 < u.length := List.length_pos_iff.2 hne
    rw [countSigns] at hcount
    simp only [countSigns, List.countP_cons, hcount]
    simpa [signs] using hpos

theorem countSigns_operator {op : Operator} (hop : op = conjunction ∨ op = disjunction) :
    logicalOperators.countSigns op.symbol = 2 ∧ logicalOperators.countSigns op.word = 0 := by
  rcases hop with rfl | rfl <;> decide

theorem countSigns_append (t u : Text) :
    correction.countSigns (t ++ u) = correction.countSigns t + correction.countSigns u :=
  List.countP_append

theorem countSigns_of_isSpacing (hold : ∀ c ∈ old, isSpacing c) : correction.countSigns old = 0 :=
  countSigns_of_isBlank fun c hc ↦ isBlank_of_isSpacing (hold c hc)

theorem countSigns_lt_of_wordSwap (h : WordSwap old new) :
    logicalOperators.countSigns new < logicalOperators.countSigns old := by
  obtain ⟨hop, hbefore, hafter, hnew⟩ := h
  obtain ⟨hsymbol, hword⟩ := countSigns_operator hop
  have hspace : logicalOperators.countSigns " " = 0 := by decide
  simp only [countSigns_append, countSigns_of_isSpacing hbefore, countSigns_of_isSpacing hafter,
    countSigns_of_isSpacing hnew, hsymbol, hword, hspace]
  decide

theorem countSigns_lt_of_symbolSwap (h : SymbolSwap old new) :
    logicalOperators.countSigns old < logicalOperators.countSigns new := by
  obtain ⟨hop, hbefore, hafter, -, -⟩ := h
  obtain ⟨hsymbol, hword⟩ := countSigns_operator hop
  have hspace : logicalOperators.countSigns " " = 0 := by decide
  simp only [countSigns_append, countSigns_of_isSpacing hbefore, countSigns_of_isSpacing hafter,
    hsymbol, hword, hspace]
  decide

/-- Lines that an edit leaves with as many signs have not been edited, if every swap brings in
signs. -/
theorem eq_of_grows {swaps : Text → Text → Prop} {others : List Text}
    (hedits : List.Forall₂ (Edits swaps) lines others)
    (hswaps : ∀ {old new}, swaps old new → correction.countSigns old < correction.countSigns new)
    (htotal : total correction.countSigns others = total correction.countSigns lines) :
    others = lines :=
  eq_of_total_eq (hedits.imp fun _ _ h ↦ h.eq_or_countP_lt hswaps) htotal

theorem eq_of_shrinks {swaps : Text → Text → Prop} {others : List Text}
    (hedits : List.Forall₂ (Edits swaps) lines others)
    (hswaps : ∀ {old new}, swaps old new → correction.countSigns new < correction.countSigns old)
    (htotal : total correction.countSigns others = total correction.countSigns lines) :
    others = lines :=
  (eq_of_grows (hedits.flip.imp fun _ _ h ↦ h.symm) hswaps htotal.symm).symm

/-- A correction that leaves the number of its signs alone has changed nothing. -/
theorem apply_eq_self_of_total (helse : correction ≠ .elseIfKeyword)
    (htarget : ∀ target ∈ target?, IsElseIf target.elseIfKeyword)
    (htotal : total correction.countSigns (correction.apply source? target? lines)
      = total correction.countSigns lines) :
    correction.apply source? target? lines = lines := by
  have hedits := edits_apply correction source? htarget lines
  by_cases hterminators : correction = .duplicateTerminators
  · subst hterminators
    exact eq_of_shrinks hedits countSigns_lt_of_terminators htotal
  by_cases hlogic : correction = .logicalOperators
  · subst hlogic
    cases source? with
    | none => rfl
    | some source =>
      simp only [apply] at htotal ⊢
      cases hstyle : source.logicStyle with
      | word =>
        refine eq_of_shrinks ?_ countSigns_lt_of_wordSwap htotal
        rw [List.forall₂_map_right_iff, List.forall₂_same]
        exact fun line _ ↦ edits_mendLogic_of_word hstyle line
      | symbol =>
        refine eq_of_grows ?_ countSigns_lt_of_symbolSwap htotal
        rw [List.forall₂_map_right_iff, List.forall₂_same]
        exact fun line _ ↦ edits_mendLogic_of_symbol hstyle line
      | mixed => exact List.map_id'' (mendLogic_of_mixed hstyle) lines
  · exact eq_of_grows hedits (fun h ↦ h.countSigns_lt helse hterminators hlogic) htotal

end Correction

end Recast
