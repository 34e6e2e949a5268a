import Recast.Proofs.Pattern.Piecewise

/-!
# Searching for a pattern

A search goes from left to right, so a pattern occurs in a text exactly if it can be read somewhere
in it.  A mark at the end of the text is the case that the opening of blocks asks for.
-/

namespace Recast.Pattern

variable {p : Pattern} {before : Option Char} {t : Text} {accepts : Char → Bool}
  {captures : List Capture} {after : Reading}

theorem isSome_searchFrom_iff {offset : Nat} :
    (p.searchFrom offset before t).isSome
      ↔ ∃ u v, t = u ++ v ∧ (p.readAt ⟨endOf before u, v, []⟩).isSome := by
  fun_induction searchFrom p offset before t with
  | case1 offset before =>
    rw [Option.isSome_map]
    constructor
    · exact fun hread ↦ ⟨[], [], rfl, hread⟩
    · rintro ⟨u, v, hsplit, hread⟩
      obtain ⟨rfl, rfl⟩ := List.append_eq_nil_iff.1 hsplit.symm
      exact hread
  | case2 offset before c rest reading hreading =>
    have hread : (p.readAt ⟨endOf before [], c :: rest, []⟩).isSome :=
      Option.isSome_iff_exists.2 ⟨reading, hreading⟩
    exact ⟨fun _ ↦ ⟨[], c :: rest, rfl, hread⟩, fun _ ↦ rfl⟩
  | case3 offset before c rest hnone ih =>
    rw [ih]
    constructor
    · rintro ⟨u, v, rfl, hread⟩
      exact ⟨c :: u, v, rfl, by rwa [endOf_cons]⟩
    · rintro ⟨u, v, hsplit, hread⟩
      cases u with
      | nil =>
        rw [List.nil_append] at hsplit
        obtain ⟨reading, hreading⟩ := Option.isSome_iff_exists.1 hread
        rw [← hsplit] at hreading
        exact absurd (hnone.symm.trans hreading) (by simp)
      | cons d u =>
        obtain ⟨rfl, rfl⟩ := List.cons.inj hsplit
        exact ⟨u, v, rfl, by rwa [endOf_cons] at hread⟩

/-- A pattern occurs in a text exactly if it can be read somewhere in it. -/
theorem occurs_iff :
    p.occurs t ↔ ∃ u v, t = u ++ v ∧ (p.readAt ⟨u.getLast?, v, []⟩).isSome := by
  rw [occurs, search, isSome_searchFrom_iff]
  simp [endOf]

/-- What a run of a class reads is of the class. -/
theorem exists_of_mem_outcomes_most_char
    (h : after ∈ (most (char accepts)).outcomes ⟨before, t, captures⟩) :
    ∃ u, t = u ++ after.rest ∧ ∀ c ∈ u, accepts c := by
  induction t generalizing before with
  | nil =>
    have hafter : after = ⟨before, [], captures⟩ := List.mem_singleton.1 h
    exact ⟨[], by rw [hafter]; rfl, by simp⟩
  | cons c t ih =>
    rw [outcomes_most_char_cons, List.mem_append, List.mem_singleton] at h
    rcases h with h | rfl
    · split at h
      · rename_i hc
        obtain ⟨u, rfl, hu⟩ := ih h
        exact ⟨c :: u, rfl, List.forall_mem_cons.2 ⟨hc, hu⟩⟩
      · exact absurd h List.not_mem_nil
    · exact ⟨[], rfl, by simp⟩

/-- At the end of the text only a line end can be left. -/
theorem isBlank_of_mem_outcomes_textEnd {reading : Reading} {c : Char}
    (h : after ∈ textEnd.outcomes reading) (hc : c ∈ reading.rest) : isBlank c := by
  rcases Bool.or_eq_true_iff.1 (mem_outcomes_look.1 h).1 with hnil | hnewline
  · rw [List.isEmpty_iff.1 hnil] at hc
    exact absurd hc List.not_mem_nil
  · rw [eq_of_beq hnewline] at hc
    rw [List.mem_singleton.1 hc]
    rfl

/-- A mark that only blanks follow occurs at the end of a text. -/
theorem occurs_mark_end_iff {mark : Char} :
    (char (· == mark) ++ blanks ++ textEnd).occurs t
      ↔ ∃ u w, t = u ++ mark :: w ∧ ∀ c ∈ w, isBlank c := by
  rw [occurs_iff]
  constructor
  · rintro ⟨u, v, rfl, hread⟩
    obtain ⟨last, hlast⟩ := Option.isSome_iff_exists.1 hread
    obtain ⟨middle, hmiddle, hend⟩ := List.mem_flatMap.1 (mem_outcomes_of_readAt hlast)
    obtain ⟨first, hfirst, hblanks⟩ := List.mem_flatMap.1 hmiddle
    cases v with
    | nil => exact absurd hfirst List.not_mem_nil
    | cons c v =>
      rw [outcomes_char_cons] at hfirst
      split at hfirst
      · rename_i hc
        obtain rfl : c = mark := by simpa using hc
        rw [List.mem_singleton.1 hfirst] at hblanks
        obtain ⟨w, rfl, hw⟩ := exists_of_mem_outcomes_most_char hblanks
        exact ⟨u, w ++ middle.rest, rfl, List.forall_mem_append.2
          ⟨hw, fun d hd ↦ isBlank_of_mem_outcomes_textEnd hend hd⟩⟩
      · exact absurd hfirst List.not_mem_nil
  · rintro ⟨u, w, rfl, hw⟩
    have hmark : (char (· == mark)).readAt ⟨u.getLast?, mark :: w, []⟩
        = some ⟨some mark, w, []⟩ := if_pos (beq_self_eq_true mark)
    have hblanks : blanks.readAt ⟨some mark, w ++ [], []⟩ = some ⟨endOf (some mark) w, [], []⟩ :=
      readAt_most_char hw (by simp)
    rw [List.append_nil] at hblanks
    exact ⟨u, mark :: w, rfl,
      Option.isSome_iff_exists.2 ⟨_, readAt_append (readAt_append hmark hblanks) rfl⟩⟩

end Recast.Pattern
