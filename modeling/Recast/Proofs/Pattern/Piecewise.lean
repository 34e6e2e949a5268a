import Recast.Proofs.Pattern.Outcomes

/-!
# Reading piece by piece

A pattern that is a sequence reads a text as its pieces do, one after another, as long as each
piece is content with the first of its outcomes.  Here is what the common pieces read: a run of a
class of characters goes as far as the class does, an optional piece is left out where it cannot be
read, and a kept run in front of a mark reaches to the last such mark.
-/

namespace Recast.Pattern

variable {p q : Pattern} {reading middle after : Reading} {accepts : Char → Bool}
  {before : Option Char} {u t : Text} {captures : List Capture} {slot : Slot}

/-! ## Sequences and choices -/

theorem outcomes_of_readAt (h : p.readAt reading = some after) :
    ∃ others, p.outcomes reading = after :: others := by
  rw [readAt_eq_head?] at h
  exact List.head?_eq_some_iff.1 h

theorem outcomes_of_readAt_eq_none (h : p.readAt reading = none) : p.outcomes reading = [] := by
  rw [readAt_eq_head?] at h
  exact List.head?_eq_none_iff.1 h

theorem readAt_append (hp : p.readAt reading = some middle) (hq : q.readAt middle = some after) :
    (p ++ q).readAt reading = some after := by
  obtain ⟨others, hp⟩ := outcomes_of_readAt hp
  obtain ⟨further, hq⟩ := outcomes_of_readAt hq
  have houtcomes : (p ++ q).outcomes reading = (p.outcomes reading).flatMap q.outcomes := rfl
  rw [readAt_eq_head?, houtcomes, hp, List.flatMap_cons, hq]
  rfl

theorem readAt_append_eq_none (hp : p.readAt reading = none) (q : Pattern) :
    (p ++ q).readAt reading = none := by
  have houtcomes : (p ++ q).outcomes reading = (p.outcomes reading).flatMap q.outcomes := rfl
  rw [readAt_eq_head?, houtcomes, outcomes_of_readAt_eq_none hp]
  rfl

theorem readAt_append_assoc (p q r : Pattern) (reading : Reading) :
    (p ++ q ++ r).readAt reading = (p ++ (q ++ r)).readAt reading :=
  rfl

theorem readAt_either_left (h : p.readAt reading = some after) :
    (either p q).readAt reading = some after := by
  obtain ⟨others, h⟩ := outcomes_of_readAt h
  rw [readAt_eq_head?, outcomes, h]
  rfl

theorem readAt_either_right (h : p.readAt reading = none) :
    (either p q).readAt reading = q.readAt reading := by
  rw [readAt_eq_head?, outcomes, outcomes_of_readAt_eq_none h, readAt_eq_head?]
  rfl

theorem readAt_maybe (h : p.readAt reading = some after) :
    (maybe p).readAt reading = some after :=
  readAt_either_left h

theorem readAt_maybe_of_none (h : p.readAt reading = none) :
    (maybe p).readAt reading = some reading :=
  readAt_either_right h

theorem readAt_keep (h : p.readAt reading = some after) :
    (keep slot p).readAt reading
      = some { after with captures := ⟨slot, reading.rest, after.rest⟩ :: after.captures } := by
  obtain ⟨others, h⟩ := outcomes_of_readAt h
  rw [readAt_eq_head?, outcomes, h]
  rfl

/-! ## Runs of characters -/

/-- The character before what follows a stretch. -/
def endOf (before : Option Char) (u : Text) : Option Char :=
  u.getLast?.or before

theorem endOf_cons (before : Option Char) (c : Char) (u : Text) :
    endOf before (c :: u) = endOf (some c) u := by
  cases h : u.getLast? <;> simp [endOf, List.getLast?_cons, h]

theorem outcomes_char_cons (c : Char) :
    (char accepts).outcomes ⟨before, c :: t, captures⟩
      = if accepts c then [⟨some c, t, captures⟩] else [] :=
  rfl

theorem mem_outcomes_look {holds : Option Char → Text → Bool} :
    after ∈ (look holds).outcomes reading
      ↔ holds reading.before reading.rest ∧ after = reading := by
  simp only [outcomes]
  split <;> simp_all

theorem any_of_readAt_after (h : (Pattern.after accepts ++ q).readAt reading = some after) :
    reading.before.any accepts := by
  obtain ⟨middle, hmiddle, -⟩ := List.mem_flatMap.1 (mem_outcomes_of_readAt h)
  exact (mem_outcomes_look.1 hmiddle).1

/-- A run of a class goes on before it stops. -/
theorem outcomes_most_char_cons (c : Char) :
    (most (char accepts)).outcomes ⟨before, c :: t, captures⟩
      = (if accepts c then (most (char accepts)).outcomes ⟨some c, t, captures⟩ else [])
        ++ [⟨before, c :: t, captures⟩] := by
  rw [outcomes, List.length_cons, mostOutcomes, outcomes_char_cons]
  split
  · rw [List.flatMap_singleton]
    rfl
  · rfl

/-- The longest run of a class comes first. -/
theorem readAt_most_char (hu : ∀ c ∈ u, accepts c) (ht : ∀ c ∈ t.head?, accepts c = false) :
    (most (char accepts)).readAt ⟨before, u ++ t, captures⟩
      = some ⟨endOf before u, t, captures⟩ := by
  rw [readAt_eq_head?]
  induction u generalizing before with
  | nil =>
    cases t with
    | nil => rfl
    | cons c t =>
      rw [List.nil_append, outcomes_most_char_cons, ht c rfl, if_neg Bool.false_ne_true]
      rfl
  | cons c u ih =>
    rw [List.cons_append, outcomes_most_char_cons, if_pos (hu c List.mem_cons_self), endOf_cons,
      List.head?_append, ih fun d hd ↦ hu d (List.mem_cons_of_mem c hd)]
    rfl

theorem readAt_most1_char (hu : ∀ c ∈ u, accepts c) (hne : u ≠ [])
    (ht : ∀ c ∈ t.head?, accepts c = false) :
    (most1 (char accepts)).readAt ⟨before, u ++ t, captures⟩
      = some ⟨endOf before u, t, captures⟩ := by
  obtain ⟨c, u, rfl⟩ := List.exists_cons_of_ne_nil hne
  rw [endOf_cons]
  exact readAt_append (if_pos (hu c List.mem_cons_self))
    (readAt_most_char (fun d hd ↦ hu d (List.mem_cons_of_mem c hd)) ht)

/-- Nothing that has to read a character of a class reads a text without such characters. -/
theorem readAt_append_most1_char_eq_none (p : Pattern) (ht : ∀ c ∈ t, accepts c = false) :
    (p ++ most1 (char accepts)).readAt ⟨before, t, captures⟩ = none := by
  rw [Option.eq_none_iff_forall_not_mem]
  intro after hafter
  obtain ⟨⟨before, rest, captures⟩, hmiddle, hafter⟩ :=
    List.mem_flatMap.1 (mem_outcomes_of_readAt hafter)
  obtain ⟨later, hlater, -⟩ := List.mem_flatMap.1 hafter
  cases rest with
  | nil => exact List.not_mem_nil hlater
  | cons c rest =>
    have hc := ht c ((goesOn_of_mem_outcomes hmiddle).rest.subset List.mem_cons_self)
    rw [outcomes_char_cons, hc, if_neg Bool.false_ne_true] at hlater
    exact List.not_mem_nil hlater

/-! ## Marks -/

/-- A given text is read exactly where it stands. -/
theorem readAt_text_eq_none (h : ¬ u <+: t) : (text u).readAt ⟨before, t, captures⟩ = none := by
  induction u generalizing before t with
  | nil => exact absurd t.nil_prefix h
  | cons c u ih =>
    cases t with
    | nil => rfl
    | cons d t =>
      have hstep : (text (c :: u)).readAt ⟨before, d :: t, captures⟩
          = if d == c then (text u).readAt ⟨some d, t, captures⟩ else none := rfl
      rw [hstep]
      split
      · next hd =>
        obtain rfl : d = c := by simpa using hd
        exact ih fun hu ↦ h (List.cons_prefix_cons.2 ⟨rfl, hu⟩)
      · rfl

/-- A run of a class through a place stops beyond it before it stops there. -/
theorem outcomes_most_char_append (before : Option Char) (captures : List Capture)
    (hu : ∀ c ∈ u, accepts c) (t : Text) (c : Char) :
    ∃ far near, (most (char accepts)).outcomes ⟨before, u ++ c :: t, captures⟩
        = far ++ ⟨endOf before u, c :: t, captures⟩ :: near
      ∧ ∀ reading ∈ far, reading.rest <:+ t := by
  induction u generalizing before with
  | nil =>
    refine ⟨_, [], outcomes_most_char_cons c, fun reading hreading ↦ ?_⟩
    split at hreading
    · exact (goesOn_of_mem_outcomes hreading).rest
    · exact absurd hreading List.not_mem_nil
  | cons d u ih =>
    obtain ⟨far, near, houtcomes, hfar⟩ :=
      ih (some d) fun e he ↦ hu e (List.mem_cons_of_mem d he)
    refine ⟨far, near ++ [⟨before, d :: (u ++ c :: t), captures⟩], ?_, hfar⟩
    rw [List.cons_append, outcomes_most_char_cons, if_pos (hu d List.mem_cons_self), houtcomes,
      endOf_cons, List.append_assoc, List.cons_append]

/-- What is kept in front of a mark reaches to the last such mark. -/
theorem readAt_keep_mark {mark : Char} {far near : List Reading}
    (houtcomes : p.outcomes reading = far ++ ⟨before, mark :: t, captures⟩ :: near)
    (hfar : ∀ later ∈ far, later.rest <:+ t) (ht : mark ∉ t) :
    (keep slot p ++ char (· == mark)).readAt reading
      = some ⟨some mark, t, ⟨slot, reading.rest, mark :: t⟩ :: captures⟩ := by
  let kept (later : Reading) : Reading :=
    { later with captures := ⟨slot, reading.rest, later.rest⟩ :: later.captures }
  -- Beyond the mark no text starts with it, so the outcomes there lead nowhere.
  have hstuck : (far.map kept).flatMap (char (· == mark)).outcomes = [] := by
    simp only [List.flatMap_eq_nil_iff, List.forall_mem_map]
    rintro ⟨before, rest, captures⟩ hlater
    cases rest with
    | nil => rfl
    | cons c rest =>
      have hc : mark ≠ c := fun h ↦ ht (h ▸ (hfar _ hlater).subset List.mem_cons_self)
      exact if_neg (by simpa using hc.symm)
  have hkept : (keep slot p ++ char (· == mark)).outcomes reading
      = ((far ++ ⟨before, mark :: t, captures⟩ :: near).map kept).flatMap
          (char (· == mark)).outcomes := by
    rw [← houtcomes]
    rfl
  rw [readAt_eq_head?, hkept, List.map_append, List.flatMap_append, hstuck, List.map_cons,
    List.flatMap_cons, outcomes_char_cons, if_pos (by simp)]
  rfl

theorem readAt_keep_most_mark {mark : Char} (hu : ∀ c ∈ u, accepts c) (ht : mark ∉ t)
    (hp : p.readAt reading = some ⟨before, u ++ mark :: t, captures⟩) :
    (p ++ keep slot (most (char accepts)) ++ char (· == mark)).readAt reading
      = some ⟨some mark, t, ⟨slot, u ++ mark :: t, mark :: t⟩ :: captures⟩ := by
  rw [readAt_append_assoc]
  obtain ⟨far, near, houtcomes, hfar⟩ := outcomes_most_char_append before captures hu t mark
  exact readAt_append hp (readAt_keep_mark houtcomes hfar ht)

theorem readAt_keep_most1_mark (slot : Slot) (before : Option Char) (captures : List Capture)
    {mark : Char} (hu : ∀ c ∈ u, accepts c) (hne : u ≠ []) (ht : mark ∉ t) :
    (keep slot (most1 (char accepts)) ++ char (· == mark)).readAt
        ⟨before, u ++ mark :: t, captures⟩
      = some ⟨some mark, t, ⟨slot, u ++ mark :: t, mark :: t⟩ :: captures⟩ := by
  obtain ⟨c, u, rfl⟩ := List.exists_cons_of_ne_nil hne
  obtain ⟨hc, hu⟩ := List.forall_mem_cons.1 hu
  obtain ⟨far, near, houtcomes, hfar⟩ := outcomes_most_char_append (some c) captures hu t mark
  have hfirst : (most1 (char accepts)).outcomes ⟨before, c :: u ++ mark :: t, captures⟩
      = (most (char accepts)).outcomes ⟨some c, u ++ mark :: t, captures⟩ := by
    calc (most1 (char accepts)).outcomes ⟨before, c :: u ++ mark :: t, captures⟩
        = ((char accepts).outcomes ⟨before, c :: (u ++ mark :: t), captures⟩).flatMap
            (most (char accepts)).outcomes := rfl
      _ = (most (char accepts)).outcomes ⟨some c, u ++ mark :: t, captures⟩ := by
          rw [outcomes_char_cons, if_pos hc, List.flatMap_singleton]
  exact readAt_keep_mark (hfirst.trans houtcomes) hfar ht

end Recast.Pattern
