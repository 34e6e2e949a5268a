import Recast.Proofs.Pattern.Replace

/-!
# Reading as little as possible

A lazy repetition gives up a place only when what follows cannot be read there, so it stops at the
first place where it can.  What follows is mostly the end of the line behind a few marks: it can be
read only where the marks describe all that is left.
-/

namespace Recast.Pattern

variable {p q r : Pattern} {reading after : Reading} {accepts : Char → Bool}
  {before : Option Char} {u t : Text} {captures : List Capture} {slot : Slot}

/-! ## What follows a choice -/

theorem readAt_append_eq_findSome? (p q : Pattern) (reading : Reading) :
    (p ++ q).readAt reading = (p.outcomes reading).findSome? q.readAt :=
  run_eq_findSome? p (q.run some) reading

theorem readAt_either_append (p q r : Pattern) (reading : Reading) :
    (either p q ++ r).readAt reading = ((p ++ r).readAt reading).or ((q ++ r).readAt reading) := by
  simp only [readAt_append_eq_findSome?, outcomes, List.findSome?_append, Option.or_eq_orElse]

theorem readAt_maybe_append (p q : Pattern) (reading : Reading) :
    (maybe p ++ q).readAt reading = ((p ++ q).readAt reading).or (q.readAt reading) :=
  readAt_either_append p .done q reading

/-- Where a run of a class cannot start, what follows it is read. -/
theorem readAt_most_char_append (ht : ∀ c ∈ t.head?, accepts c = false) :
    (most (char accepts) ++ q).readAt ⟨before, t, captures⟩
      = q.readAt ⟨before, t, captures⟩ := by
  have houtcomes : (most (char accepts)).outcomes ⟨before, t, captures⟩
      = [⟨before, t, captures⟩] := by
    cases t with
    | nil => rfl
    | cons c t => simp [outcomes_most_char_cons, ht c rfl]
  rw [readAt_append_eq_findSome?, houtcomes, List.findSome?_singleton]

theorem outcomes_text (before : Option Char) (u t : Text) (captures : List Capture) :
    (text u).outcomes ⟨before, u ++ t, captures⟩ = [⟨endOf before u, t, captures⟩] := by
  induction u generalizing before with
  | nil => rfl
  | cons c u ih =>
    have hstep : (text (c :: u)).outcomes ⟨before, c :: (u ++ t), captures⟩
        = ((char (· == c)).outcomes ⟨before, c :: (u ++ t), captures⟩).flatMap
            (text u).outcomes := rfl
    rw [List.cons_append, hstep, outcomes_char_cons, if_pos (beq_self_eq_true c),
      List.flatMap_singleton, ih, endOf_cons]

theorem readAt_text (before : Option Char) (u t : Text) (captures : List Capture) :
    (text u).readAt ⟨before, u ++ t, captures⟩ = some ⟨endOf before u, t, captures⟩ := by
  rw [readAt_eq_head?, outcomes_text]
  rfl

theorem readAt_text_append (q : Pattern) (before : Option Char) (u t : Text)
    (captures : List Capture) :
    (text u ++ q).readAt ⟨before, u ++ t, captures⟩
      = q.readAt ⟨endOf before u, t, captures⟩ := by
  rw [readAt_append_eq_findSome?, outcomes_text, List.findSome?_singleton]

/-- A sequence reads nothing where one of its parts cannot be found. -/
theorem readAt_append_append_eq_none {w : Text} (hr : ∀ v, r.Describes v → v = w)
    (h : ¬w <:+: reading.rest) (p q : Pattern) : (p ++ r ++ q).readAt reading = none := by
  rw [Option.eq_none_iff_forall_not_mem]
  intro after hafter
  obtain ⟨u, hu, hdescribes⟩ := exists_describes (mem_outcomes_of_readAt hafter)
  obtain ⟨pr, v, rfl, hpr, -⟩ := describes_append.1 hdescribes
  obtain ⟨u, middle, rfl, -, hmiddle⟩ := describes_append.1 hpr
  rw [hr middle hmiddle] at hu
  exact h ⟨u, v ++ after.rest, by simp [hu]⟩

/-! ## Lazy repetitions -/

/-- A lazy run of a class stops before it goes on. -/
theorem outcomes_fewest_char_cons (c : Char) :
    (fewest (char accepts)).outcomes ⟨before, c :: t, captures⟩
      = ⟨before, c :: t, captures⟩
        :: (if accepts c then (fewest (char accepts)).outcomes ⟨some c, t, captures⟩ else []) := by
  rw [outcomes, List.length_cons, fewestOutcomes, outcomes_char_cons]
  split
  · rw [List.flatMap_singleton]
    rfl
  · rfl

/-- A lazy run goes on through the places where the continuation fails. -/
theorem findSome?_outcomes_fewest_char {β : Type} {next : Reading → Option β} {found : β}
    (hu : ∀ c ∈ u, accepts c)
    (hstuck : ∀ v w, u = v ++ w → w ≠ [] → next ⟨endOf before v, w ++ t, captures⟩ = none)
    (hnext : next ⟨endOf before u, t, captures⟩ = some found) :
    ((fewest (char accepts)).outcomes ⟨before, u ++ t, captures⟩).findSome? next
      = some found := by
  induction u generalizing before with
  | nil =>
    obtain ⟨others, houtcomes⟩ :
        ∃ others, (fewest (char accepts)).outcomes ⟨before, t, captures⟩
          = ⟨before, t, captures⟩ :: others := by
      cases t with
      | nil => exact ⟨[], rfl⟩
      | cons c t => exact ⟨_, outcomes_fewest_char_cons c⟩
    have hhere : next ⟨before, t, captures⟩ = some found := hnext
    rw [List.nil_append, houtcomes, List.findSome?_cons, hhere]
  | cons c u ih =>
    have hfirst : next ⟨before, c :: (u ++ t), captures⟩ = none :=
      hstuck [] (c :: u) rfl (List.cons_ne_nil c u)
    rw [List.cons_append, outcomes_fewest_char_cons, if_pos (hu c List.mem_cons_self),
      List.findSome?_cons, hfirst]
    refine ih (fun d hd ↦ hu d (List.mem_cons_of_mem c hd)) (fun v w hvw hw ↦ ?_) ?_
    · rw [← endOf_cons]
      exact hstuck (c :: v) w (congrArg (c :: ·) hvw) hw
    · rwa [← endOf_cons]

/-- A kept lazy run reaches to the first place from where the rest can be read. -/
theorem readAt_keep_fewest_char (hu : ∀ c ∈ u, accepts c)
    (hstuck : ∀ v w captures, u = v ++ w → w ≠ [] →
      q.readAt ⟨endOf before v, w ++ t, captures⟩ = none)
    (hq : q.readAt ⟨endOf before u, t, ⟨slot, u ++ t, t⟩ :: captures⟩ = some after) :
    (keep slot (fewest (char accepts)) ++ q).readAt ⟨before, u ++ t, captures⟩ = some after := by
  rw [readAt_append_eq_findSome?, outcomes, List.findSome?_map]
  exact findSome?_outcomes_fewest_char hu (fun v w hvw hw ↦ hstuck v w _ hvw hw) hq

theorem readAt_keep_fewest1_char (hne : u ≠ []) (hu : ∀ c ∈ u, accepts c)
    (hstuck : ∀ v w captures, v ≠ [] → u = v ++ w → w ≠ [] →
      q.readAt ⟨endOf before v, w ++ t, captures⟩ = none)
    (hq : q.readAt ⟨endOf before u, t, ⟨slot, u ++ t, t⟩ :: captures⟩ = some after) :
    (keep slot (fewest1 (char accepts)) ++ q).readAt ⟨before, u ++ t, captures⟩ = some after := by
  obtain ⟨c, u, rfl⟩ := List.exists_cons_of_ne_nil hne
  have houtcomes : (keep slot (fewest1 (char accepts))).outcomes ⟨before, c :: u ++ t, captures⟩
      = ((if accepts c then [⟨some c, u ++ t, captures⟩] else []).flatMap
          (fewest (char accepts)).outcomes).map fun later ↦
        { later with captures := ⟨slot, c :: u ++ t, later.rest⟩ :: later.captures } := rfl
  rw [readAt_append_eq_findSome?, houtcomes, if_pos (hu c List.mem_cons_self),
    List.flatMap_singleton, List.findSome?_map]
  refine findSome?_outcomes_fewest_char (fun d hd ↦ hu d (List.mem_cons_of_mem c hd))
    (fun v w hvw hw ↦ ?_) ?_
  · rw [Function.comp_apply, ← endOf_cons before]
    exact hstuck (c :: v) w _ (List.cons_ne_nil c v) (congrArg (c :: ·) hvw) hw
  · rwa [Function.comp_apply, ← endOf_cons before]

/-! ## The end of the line -/

/-- At the end of a line nothing is left. -/
theorem rest_eq_nil_of_mem_outcomes_textEnd (hline : '\n' ∉ reading.rest)
    (h : after ∈ textEnd.outcomes reading) : reading.rest = [] := by
  rcases Bool.or_eq_true_iff.1 (mem_outcomes_look.1 h).1 with hnil | hnewline
  · exact List.isEmpty_iff.1 hnil
  · rw [eq_of_beq hnewline] at hline
    exact absurd List.mem_cons_self hline

/-- Before the end of a line stands only what the pattern describes, and nothing is left of the
line. -/
theorem describes_of_readAt_textEnd (hline : '\n' ∉ reading.rest)
    (h : (q ++ textEnd).readAt reading = some after) :
    q.Describes reading.rest ∧ after.rest = [] := by
  obtain ⟨middle, hmiddle, hafter⟩ := List.mem_flatMap.1 (mem_outcomes_of_readAt h)
  obtain ⟨u, hu, hdescribes⟩ := exists_describes hmiddle
  obtain rfl := eq_of_mem_outcomes_look hafter
  have hrest : after.rest = [] := by
    refine rest_eq_nil_of_mem_outcomes_textEnd (fun hc ↦ hline ?_) hafter
    rw [hu]
    exact List.mem_append_right u hc
  rw [hu, hrest, List.append_nil]
  exact ⟨hdescribes, rfl⟩

theorem readAt_textEnd_eq_none (hline : '\n' ∉ reading.rest) (h : ¬q.Describes reading.rest) :
    (q ++ textEnd).readAt reading = none := by
  rw [Option.eq_none_iff_forall_not_mem]
  exact fun after hafter ↦ h (describes_of_readAt_textEnd hline hafter).1

/-- What may stand behind blanks at the end of a line is not found before ink, unless it is longer
than what stands there. -/
theorem readAt_blanks_textEnd_eq_none {w : Text} {c : Char} (hw : c ∈ w) (hc : isBlank c = false)
    (hline : '\n' ∉ w ++ t) (hlength : ∀ v, q.Describes v → v.length ≤ t.length) :
    (blanks ++ q ++ textEnd).readAt ⟨before, w ++ t, captures⟩ = none := by
  refine readAt_textEnd_eq_none hline fun hdescribes ↦ ?_
  obtain ⟨u, v, huv, hu, hv⟩ := describes_append.1 hdescribes
  have hshort : w.length ≤ u.length := by
    have hsum := congrArg List.length huv
    have hbound := hlength v hv
    simp only [List.length_append] at hsum
    omega
  have hcu : c ∈ u := (List.prefix_of_prefix_length_le ⟨t, huv⟩ ⟨v, rfl⟩ hshort).subset hw
  have hblank := describes_most_char.1 hu c hcu
  rw [hc] at hblank
  exact absurd hblank Bool.false_ne_true

end Recast.Pattern
