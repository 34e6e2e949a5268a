import Mathlib.Logic.Relation
import Recast.Proofs.Pattern.Piecewise
import Recast.Proofs.Text.Edit

/-!
# The stretches that a pattern describes

What a pattern reads also depends on the text around it, but only so far: the stretch itself is one
that the pattern describes.  To replace what a pattern reads is therefore to edit the text, and each
swap takes out a described stretch.
-/

namespace Recast.Pattern

variable {p q : Pattern} {reading after : Reading} {accepts : Char → Bool} {u : Text} {c : Char}

/-- The stretches that a pattern describes, whatever stands around them. -/
def Describes : Pattern → Text → Prop
  | done, u => u = []
  | char accepts, u => ∃ c, u = [c] ∧ accepts c
  | look _, u => u = []
  | seq first second, u => ∃ v w, u = v ++ w ∧ first.Describes v ∧ second.Describes w
  | either first second, u => first.Describes u ∨ second.Describes u
  | most round, u => ∃ pieces : List Text, u = pieces.flatten ∧ ∀ v ∈ pieces, round.Describes v
  | fewest round, u => ∃ pieces : List Text, u = pieces.flatten ∧ ∀ v ∈ pieces, round.Describes v
  | keep _ body, u => body.Describes u

/-! ## Single steps -/

theorem exists_of_mem_outcomes_char (h : after ∈ (char accepts).outcomes reading) :
    ∃ c rest, reading.rest = c :: rest ∧ accepts c ∧ after = ⟨some c, rest, reading.captures⟩ := by
  obtain ⟨before, rest, captures⟩ := reading
  cases rest with
  | nil => exact absurd h List.not_mem_nil
  | cons c rest =>
    by_cases hc : accepts c
    · exact ⟨c, rest, rfl, hc, by simpa [outcomes, hc] using h⟩
    · simp [outcomes, hc] at h

theorem eq_of_mem_outcomes_look {holds : Option Char → Text → Bool}
    (h : after ∈ (look holds).outcomes reading) : after = reading :=
  (mem_outcomes_look.1 h).2

/-! ## Rounds of a repetition -/

/-- One reading comes from another by rounds of a pattern. -/
def Rounds (round : Pattern) : Reading → Reading → Prop :=
  Relation.ReflTransGen fun reading after ↦ after ∈ round.outcomes reading

theorem rounds_of_mem_most (h : after ∈ (most p).outcomes reading) : Rounds p reading after := by
  simp only [outcomes] at h
  generalize reading.rest.length = bound at h
  induction bound generalizing reading with
  | zero =>
    rw [List.mem_singleton.1 h]
    exact .refl
  | succ bound ih =>
    rcases List.mem_append.1 h with h | h
    · obtain ⟨middle, hmiddle, hafter⟩ := List.mem_flatMap.1 h
      exact .head hmiddle (ih hafter)
    · rw [List.mem_singleton.1 h]
      exact .refl

theorem rounds_of_mem_fewest (h : after ∈ (fewest p).outcomes reading) :
    Rounds p reading after := by
  simp only [outcomes] at h
  generalize reading.rest.length = bound at h
  induction bound generalizing reading with
  | zero =>
    rw [List.mem_singleton.1 h]
    exact .refl
  | succ bound ih =>
    rcases List.mem_cons.1 h with rfl | h
    · exact .refl
    · obtain ⟨middle, hmiddle, hafter⟩ := List.mem_flatMap.1 h
      exact .head hmiddle (ih hafter)

theorem describes_of_rounds
    (hround : ∀ {reading after : Reading}, after ∈ p.outcomes reading →
      ∃ u, reading.rest = u ++ after.rest ∧ p.Describes u)
    (h : Rounds p reading after) :
    ∃ u, reading.rest = u ++ after.rest ∧
      ∃ pieces : List Text, u = pieces.flatten ∧ ∀ v ∈ pieces, p.Describes v := by
  induction h using Relation.ReflTransGen.head_induction_on with
  | refl => exact ⟨[], rfl, [], rfl, by simp⟩
  | head hfirst _ ih =>
    obtain ⟨v, hv, hdescribes⟩ := hround hfirst
    obtain ⟨w, hw, pieces, rfl, hpieces⟩ := ih
    exact ⟨v ++ pieces.flatten, by rw [hv, hw, List.append_assoc], v :: pieces, rfl,
      List.forall_mem_cons.2 ⟨hdescribes, hpieces⟩⟩

/-- What a pattern has read is a stretch that it describes. -/
theorem exists_describes (h : after ∈ p.outcomes reading) :
    ∃ u, reading.rest = u ++ after.rest ∧ p.Describes u := by
  induction p generalizing reading after with
  | done =>
    rw [List.mem_singleton.1 h]
    exact ⟨[], rfl, rfl⟩
  | char accepts =>
    obtain ⟨c, rest, hrest, hc, rfl⟩ := exists_of_mem_outcomes_char h
    exact ⟨[c], hrest, c, rfl, hc⟩
  | look holds =>
    rw [eq_of_mem_outcomes_look h]
    exact ⟨[], rfl, rfl⟩
  | seq first second ihFirst ihSecond =>
    obtain ⟨middle, hmiddle, hafter⟩ := List.mem_flatMap.1 h
    obtain ⟨v, hv, hfirst⟩ := ihFirst hmiddle
    obtain ⟨w, hw, hsecond⟩ := ihSecond hafter
    exact ⟨v ++ w, by rw [hv, hw, List.append_assoc], v, w, rfl, hfirst, hsecond⟩
  | either first second ihFirst ihSecond =>
    rcases List.mem_append.1 h with h | h
    · exact (ihFirst h).imp fun _ hu ↦ ⟨hu.1, .inl hu.2⟩
    · exact (ihSecond h).imp fun _ hu ↦ ⟨hu.1, .inr hu.2⟩
  | most round ih => exact describes_of_rounds ih (rounds_of_mem_most h)
  | fewest round ih => exact describes_of_rounds ih (rounds_of_mem_fewest h)
  | keep slot body ih =>
    obtain ⟨inner, hinner, rfl⟩ := List.mem_map.1 h
    obtain ⟨u, hu, hdescribes⟩ := ih hinner
    exact ⟨u, hu, hdescribes⟩

theorem endOf_append (before : Option Char) (u v : Text) :
    endOf before (u ++ v) = endOf (endOf before u) v := by
  simp [endOf, List.getLast?_append, Option.or_assoc]

/-- The character before the rest is the last one that was read. -/
theorem before_of_mem_outcomes (h : after ∈ p.outcomes reading) (hu : reading.rest = u ++ after.rest) :
    after.before = endOf reading.before u := by
  have hread : ∃ v, reading.rest = v ++ after.rest ∧ after.before = endOf reading.before v := by
    refine @rel_of_mem_outcomes
      (fun reading after ↦ ∃ v, reading.rest = v ++ after.rest
        ∧ after.before = endOf reading.before v) ?_ ?_ ?_ ?_ p reading after h
    · exact fun reading ↦ ⟨[], rfl, rfl⟩
    · rintro first second third ⟨v, hv, hsecond⟩ ⟨w, hw, hthird⟩
      exact ⟨v ++ w, by rw [hv, hw, List.append_assoc], by rw [hthird, hsecond, endOf_append]⟩
    · exact fun before c rest captures ↦ ⟨[c], rfl, rfl⟩
    · exact fun slot reading after hafter ↦ hafter
  obtain ⟨v, hv, hbefore⟩ := hread
  rw [hbefore, List.append_cancel_right (hv.symm.trans hu)]

/-! ## The common pieces -/

theorem describes_append : (p ++ q).Describes u ↔ ∃ v w, u = v ++ w ∧ p.Describes v ∧ q.Describes w :=
  Iff.rfl

theorem describes_mark {mark : Char} : (char (· == mark)).Describes u ↔ u = [mark] := by
  have hchar : (char (· == mark)).Describes u ↔ ∃ c, u = [c] ∧ (c == mark) = true := Iff.rfl
  simp [hchar]

theorem describes_text {w : Text} : (text w).Describes u ↔ u = w := by
  induction w generalizing u with
  | nil => exact Iff.rfl
  | cons c w ih =>
    have hstep : (text (c :: w)).Describes u
        ↔ ∃ v v', u = v ++ v' ∧ (char (· == c)).Describes v ∧ (text w).Describes v' := Iff.rfl
    simp [hstep, describes_mark, ih]

theorem describes_most_char : (most (char accepts)).Describes u ↔ ∀ c ∈ u, accepts c := by
  constructor
  · rintro ⟨pieces, rfl, hpieces⟩ c hc
    obtain ⟨v, hv, hc⟩ := List.mem_flatten.1 hc
    obtain ⟨d, rfl, hd⟩ := hpieces v hv
    rwa [List.mem_singleton.1 hc]
  · intro hu
    refine ⟨u.map ([·]), (List.flatMap_singleton' u).symm, fun v hv ↦ ?_⟩
    obtain ⟨c, hc, rfl⟩ := List.mem_map.1 hv
    exact ⟨c, rfl, hu c hc⟩

theorem describes_most1_char :
    (most1 (char accepts)).Describes u ↔ u ≠ [] ∧ ∀ c ∈ u, accepts c := by
  rw [most1, describes_append]
  constructor
  · rintro ⟨v, w, rfl, ⟨c, rfl, hc⟩, hw⟩
    exact ⟨by simp, List.forall_mem_cons.2 ⟨hc, describes_most_char.1 hw⟩⟩
  · rintro ⟨hne, hu⟩
    obtain ⟨c, u, rfl⟩ := List.exists_cons_of_ne_nil hne
    obtain ⟨hc, hu⟩ := List.forall_mem_cons.1 hu
    exact ⟨[c], u, rfl, ⟨c, rfl, hc⟩, describes_most_char.2 hu⟩

/-- Whether every character that the pattern can read is good. -/
def OnlyReads (good : Char → Prop) : Pattern → Prop
  | done | look _ => True
  | char accepts => ∀ c, accepts c → good c
  | seq first second | either first second => first.OnlyReads good ∧ second.OnlyReads good
  | most round | fewest round => round.OnlyReads good
  | keep _ body => body.OnlyReads good

theorem OnlyReads.of_describes {good : Char → Prop} (hp : p.OnlyReads good) (h : p.Describes u) :
    ∀ c ∈ u, good c := by
  have hflatten {p : Pattern} {u : Text}
      (ih : ∀ {u : Text}, p.Describes u → ∀ c ∈ u, good c)
      (h : ∃ pieces : List Text, u = pieces.flatten ∧ ∀ v ∈ pieces, p.Describes v) :
      ∀ c ∈ u, good c := by
    obtain ⟨pieces, rfl, hpieces⟩ := h
    intro c hc
    obtain ⟨v, hv, hc⟩ := List.mem_flatten.1 hc
    exact ih (hpieces v hv) c hc
  induction p generalizing u with
  | done | look holds =>
    obtain rfl : u = [] := h
    exact fun c hc ↦ absurd hc List.not_mem_nil
  | char accepts =>
    obtain ⟨c, rfl, hc⟩ := h
    exact List.forall_mem_singleton.2 (hp c hc)
  | seq first second ihFirst ihSecond =>
    obtain ⟨v, w, rfl, hv, hw⟩ := h
    exact List.forall_mem_append.2 ⟨ihFirst hp.1 hv, ihSecond hp.2 hw⟩
  | either first second ihFirst ihSecond =>
    rcases h with h | h
    · exact ihFirst hp.1 h
    · exact ihSecond hp.2 h
  | most round ih => exact hflatten (ih hp) h
  | fewest round ih => exact hflatten (ih hp) h
  | keep slot body ih => exact ih hp h

theorem onlyReads_text {good : Char → Prop} {w : Text} (h : ∀ c ∈ w, good c) :
    (text w).OnlyReads good := by
  induction w with
  | nil => trivial
  | cons c w ih =>
    obtain ⟨hc, hw⟩ := List.forall_mem_cons.1 h
    exact ⟨fun d hd ↦ eq_of_beq hd ▸ hc, ih hw⟩

theorem onlyReads_mark {good : Char → Prop} (h : good c) :
    (char (· == c)).OnlyReads good :=
  fun _ hd ↦ eq_of_beq hd ▸ h

/-- Whether the pattern cannot read the character. -/
def refuses (c : Char) : Pattern → Bool
  | done | look _ => true
  | char accepts => !accepts c
  | seq first second | either first second => first.refuses c && second.refuses c
  | most round | fewest round => round.refuses c
  | keep _ body => body.refuses c

theorem onlyReads_of_refuses (h : p.refuses c) : p.OnlyReads (· ≠ c) := by
  induction p with
  | done | look _ => trivial
  | char accepts =>
    rintro d hd rfl
    simp [refuses, hd] at h
  | seq first second ihFirst ihSecond | either first second ihFirst ihSecond =>
    obtain ⟨hfirst, hsecond⟩ := Bool.and_eq_true_iff.1 h
    exact ⟨ihFirst hfirst, ihSecond hsecond⟩
  | most round ih | fewest round ih | keep slot round ih => exact ih h

/-- Whether every way to read the pattern takes a character. -/
def takes : Pattern → Bool
  | done | look _ | most _ | fewest _ => false
  | char _ => true
  | seq first second => first.takes || second.takes
  | either first second => first.takes && second.takes
  | keep _ body => body.takes

theorem ne_nil_of_takes (hp : p.takes) (h : p.Describes u) : u ≠ [] := by
  induction p generalizing u with
  | done | look _ | most _ _ | fewest _ _ => exact absurd hp (by simp [takes])
  | char accepts =>
    obtain ⟨c, rfl, -⟩ := h
    simp
  | seq first second ihFirst ihSecond =>
    obtain ⟨v, w, rfl, hv, hw⟩ := h
    rcases Bool.or_eq_true_iff.1 hp with hp | hp
    · simp [ihFirst hp hv]
    · simp [ihSecond hp hw]
  | either first second ihFirst ihSecond =>
    obtain ⟨hfirst, hsecond⟩ := Bool.and_eq_true_iff.1 hp
    rcases h with h | h
    · exact ihFirst hfirst h
    · exact ihSecond hsecond h
  | keep slot body ih => exact ih hp h

/-! ## Kept parts -/

/-- Whether the pattern keeps no part. -/
def keepFree : Pattern → Bool
  | done | char _ | look _ => true
  | seq first second | either first second => first.keepFree && second.keepFree
  | most round | fewest round => round.keepFree
  | keep _ _ => false

theorem captures_eq_of_rounds
    (hround : ∀ {reading after : Reading}, after ∈ p.outcomes reading →
      after.captures = reading.captures)
    (h : Rounds p reading after) : after.captures = reading.captures := by
  induction h with
  | refl => rfl
  | tail _ hlast ih => rw [hround hlast, ih]

theorem captures_eq_of_keepFree (hp : p.keepFree) (h : after ∈ p.outcomes reading) :
    after.captures = reading.captures := by
  induction p generalizing reading after with
  | done => rw [List.mem_singleton.1 h]
  | char accepts =>
    obtain ⟨c, rest, -, -, rfl⟩ := exists_of_mem_outcomes_char h
    rfl
  | look holds => rw [eq_of_mem_outcomes_look h]
  | seq first second ihFirst ihSecond =>
    obtain ⟨hfirst, hsecond⟩ := Bool.and_eq_true_iff.1 hp
    obtain ⟨middle, hmiddle, hafter⟩ := List.mem_flatMap.1 h
    rw [ihSecond hsecond hafter, ihFirst hfirst hmiddle]
  | either first second ihFirst ihSecond =>
    obtain ⟨hfirst, hsecond⟩ := Bool.and_eq_true_iff.1 hp
    rcases List.mem_append.1 h with h | h
    · exact ihFirst hfirst h
    · exact ihSecond hsecond h
  | most round ih => exact captures_eq_of_rounds (ih hp) (rounds_of_mem_most h)
  | fewest round ih => exact captures_eq_of_rounds (ih hp) (rounds_of_mem_fewest h)
  | keep slot body ih => exact absurd hp (by simp [keepFree])

theorem keepFree_text (t : Text) : (text t).keepFree := by
  induction t with
  | nil => rfl
  | cons c t ih => exact ih

/-- Whether the pattern keeps no part under the name. -/
def avoids (slot : Slot) : Pattern → Bool
  | done | char _ | look _ => true
  | seq first second | either first second => first.avoids slot && second.avoids slot
  | most round | fewest round => round.avoids slot
  | keep kept body => kept ≠ slot && body.avoids slot

/-- What has been kept under a name is there until something else is kept under it. -/
theorem get?_eq_of_avoids {slot : Slot} (hp : p.avoids slot) (h : after ∈ p.outcomes reading) :
    after.get? slot = reading.get? slot := by
  have hrounds {p : Pattern} {reading after : Reading}
      (hround : ∀ {reading after : Reading}, after ∈ p.outcomes reading →
        after.get? slot = reading.get? slot)
      (h : Rounds p reading after) : after.get? slot = reading.get? slot := by
    induction h with
    | refl => rfl
    | tail _ hlast ih => rw [hround hlast, ih]
  induction p generalizing reading after with
  | done => rw [List.mem_singleton.1 h]
  | char accepts =>
    obtain ⟨c, rest, -, -, rfl⟩ := exists_of_mem_outcomes_char h
    rfl
  | look holds => rw [eq_of_mem_outcomes_look h]
  | seq first second ihFirst ihSecond =>
    obtain ⟨hfirst, hsecond⟩ := Bool.and_eq_true_iff.1 hp
    obtain ⟨middle, hmiddle, hafter⟩ := List.mem_flatMap.1 h
    rw [ihSecond hsecond hafter, ihFirst hfirst hmiddle]
  | either first second ihFirst ihSecond =>
    obtain ⟨hfirst, hsecond⟩ := Bool.and_eq_true_iff.1 hp
    rcases List.mem_append.1 h with h | h
    · exact ihFirst hfirst h
    · exact ihSecond hsecond h
  | most round ih => exact hrounds (ih hp) (rounds_of_mem_most h)
  | fewest round ih => exact hrounds (ih hp) (rounds_of_mem_fewest h)
  | keep kept body ih =>
    obtain ⟨hkept, hbody⟩ := Bool.and_eq_true_iff.1 hp
    obtain ⟨inner, hinner, rfl⟩ := List.mem_map.1 h
    rw [← ih hbody hinner, Reading.get?, Reading.get?]
    rw [List.find?_cons_of_neg (by simpa using hkept)]

/-- A part that is kept is what its body has read. -/
theorem exists_of_mem_keep {slot : Slot} {body : Pattern}
    (h : after ∈ (keep slot body).outcomes reading) :
    ∃ u, reading.rest = u ++ after.rest ∧ body.Describes u ∧ after.get? slot = some u := by
  obtain ⟨inner, hinner, rfl⟩ := List.mem_map.1 h
  obtain ⟨u, hu, hdescribes⟩ := exists_describes hinner
  refine ⟨u, hu, hdescribes, ?_⟩
  rw [Reading.get?, List.find?_cons_of_pos (by simp)]
  simp [Capture.text, hu]

/-- Whether no part that the pattern keeps under the name can hold the character. -/
def keepsOut (c : Char) (slot : Slot) : Pattern → Bool
  | done | char _ | look _ => true
  | seq first second | either first second => first.keepsOut c slot && second.keepsOut c slot
  | most round | fewest round => round.keepsOut c slot
  | keep kept body => (kept ≠ slot || body.refuses c) && body.keepsOut c slot

/-- A part that is kept later can hold the character no more than one that was kept before. -/
theorem notMem_of_keepsOut {slot : Slot} (hp : p.keepsOut c slot) (h : after ∈ p.outcomes reading)
    (hreading : ∀ part ∈ reading.get? slot, c ∉ part) : ∀ part ∈ after.get? slot, c ∉ part := by
  have hrounds {p : Pattern} {reading after : Reading}
      (hround : ∀ {reading after : Reading}, after ∈ p.outcomes reading →
        (∀ part ∈ reading.get? slot, c ∉ part) → ∀ part ∈ after.get? slot, c ∉ part)
      (h : Rounds p reading after) (hreading : ∀ part ∈ reading.get? slot, c ∉ part) :
      ∀ part ∈ after.get? slot, c ∉ part := by
    induction h with
    | refl => exact hreading
    | tail _ hlast ih => exact hround hlast ih
  induction p generalizing reading after with
  | done => rwa [List.mem_singleton.1 h]
  | char accepts =>
    obtain ⟨d, rest, -, -, rfl⟩ := exists_of_mem_outcomes_char h
    exact hreading
  | look holds => rwa [eq_of_mem_outcomes_look h]
  | seq first second ihFirst ihSecond =>
    obtain ⟨hfirst, hsecond⟩ := Bool.and_eq_true_iff.1 hp
    obtain ⟨middle, hmiddle, hafter⟩ := List.mem_flatMap.1 h
    exact ihSecond hsecond hafter (ihFirst hfirst hmiddle hreading)
  | either first second ihFirst ihSecond =>
    obtain ⟨hfirst, hsecond⟩ := Bool.and_eq_true_iff.1 hp
    rcases List.mem_append.1 h with h | h
    · exact ihFirst hfirst h hreading
    · exact ihSecond hsecond h hreading
  | most round ih => exact hrounds (ih hp) (rounds_of_mem_most h) hreading
  | fewest round ih => exact hrounds (ih hp) (rounds_of_mem_fewest h) hreading
  | keep kept body ih =>
    obtain ⟨hkept, hbody⟩ := Bool.and_eq_true_iff.1 hp
    by_cases heq : kept = slot
    · subst heq
      obtain ⟨u, -, hdescribes, hget⟩ := exists_of_mem_keep h
      have hrefuses : body.refuses c := by simpa using hkept
      intro part hpart hc
      obtain rfl := Option.some.inj (hget.symm.trans hpart)
      exact (onlyReads_of_refuses hrefuses).of_describes hdescribes c hc rfl
    · obtain ⟨inner, hinner, rfl⟩ := List.mem_map.1 h
      rw [Reading.get?, List.find?_cons_of_neg (by simpa using heq), ← Reading.get?]
      exact ih hbody hinner hreading

/-- What follows a part and keeps nothing under its name leaves the part as it is. -/
theorem exists_of_mem_append {slot : Slot} (hq : q.avoids slot)
    (h : after ∈ (p ++ q).outcomes reading) :
    ∃ middle ∈ p.outcomes reading, after.get? slot = middle.get? slot
      ∧ ∃ w, middle.rest = w ++ after.rest ∧ q.Describes w := by
  obtain ⟨middle, hmiddle, hafter⟩ := List.mem_flatMap.1 h
  exact ⟨middle, hmiddle, get?_eq_of_avoids hq hafter, exists_describes hafter⟩

/-- A part that a pattern keeps first, before anything else is kept, is what its body has read. -/
theorem exists_keep_append {slot : Slot} {body : Pattern} {before : Option Char} {t : Text}
    (hbody : body.keepFree) (hq : q.keepFree)
    (h : after ∈ (keep slot body ++ q).outcomes ⟨before, t, []⟩) :
    ∃ u v, t = u ++ v ++ after.rest ∧ body.Describes u ∧ q.Describes v
      ∧ after.get slot = u := by
  obtain ⟨middle, hmiddle, hafter⟩ := List.mem_flatMap.1 h
  obtain ⟨inner, hinner, rfl⟩ := List.mem_map.1 hmiddle
  obtain ⟨u, hu, hdescribes⟩ := exists_describes hinner
  obtain ⟨v, hv, hdescribes'⟩ := exists_describes hafter
  have hcaptures : after.captures = [⟨slot, t, inner.rest⟩] := by
    rw [captures_eq_of_keepFree hq hafter]
    simpa using captures_eq_of_keepFree hbody hinner
  simp only at hu hv
  refine ⟨u, v, by rw [hu, hv, List.append_assoc], hdescribes, hdescribes', ?_⟩
  rw [Reading.get, Reading.get?, hcaptures, hu]
  simp [Capture.text]

/-! ## Replacing -/

/-- Replacing what a pattern reads edits the text. -/
theorem edits_replace {new : Reading → Text} {swaps : Text → Text → Prop}
    (hswaps : ∀ {before t reading}, p.readAt ⟨before, t, []⟩ = some reading →
      ∃ old, t = old ++ reading.rest ∧ old ≠ [] ∧ swaps old (new reading)) (t : Text) :
    Text.Edits swaps t (p.replace new t) := by
  -- The characters to be skipped are those of the last stretch.
  have hfrom (skip : Nat) (before : Option Char) (t : Text) :
      Text.Edits swaps (t.drop skip) (p.replaceFrom new skip before t) := by
    fun_induction replaceFrom p new skip before t with
    | case1 => simpa using Text.Edits.nil
    | case2 skip before c rest ih => exact ih
    | case3 before c rest reading hread ih =>
      obtain ⟨old, ht, hne, hswap⟩ := hswaps hread
      obtain ⟨d, old, rfl⟩ := List.exists_cons_of_ne_nil hne
      obtain ⟨rfl, hrest⟩ := List.cons.inj ht
      have hskip : rest.drop (rest.length - reading.rest.length) = reading.rest := by
        simp [hrest]
      rw [hskip] at ih
      rw [List.drop_zero, ht]
      exact .swap hswap ih
    | case4 before c rest hnone ih => exact .keep c ih
  exact hfrom 0 none t

/-- What replacing brings in is what replaces the stretches. -/
theorem edits_replace_of_new {new : Reading → Text} {good : Text → Prop}
    (hnew : ∀ {before t reading}, p.readAt ⟨before, t, []⟩ = some reading → good (new reading))
    (t : Text) : Text.Edits (fun _ text ↦ good text) t (p.replace new t) := by
  have hfrom (skip : Nat) (before : Option Char) (t : Text) :
      Text.Edits (fun _ text ↦ good text) (t.drop skip) (p.replaceFrom new skip before t) := by
    fun_induction replaceFrom p new skip before t with
    | case1 => simpa using Text.Edits.nil
    | case2 skip before c rest ih => exact ih
    | case3 before c rest reading hread ih =>
      -- An empty stretch is replaced together with the character behind it.
      have hold : c :: rest = (c :: rest.take (rest.length - reading.rest.length))
          ++ rest.drop (rest.length - reading.rest.length) := by simp
      rw [List.drop_zero, hold]
      exact .swap (hnew hread) ih
    | case4 before c rest hnone ih => exact .keep c ih
  exact hfrom 0 none t

/-- Replacing by a fixed text swaps it for stretches that the pattern describes. -/
theorem edits_replace_const {new : Text} {swaps : Text → Text → Prop}
    (hswaps : ∀ u, p.Describes u → u ≠ [] ∧ swaps u new) (t : Text) :
    Text.Edits swaps t (p.replace (fun _ ↦ new) t) := by
  apply edits_replace
  intro before t reading hread
  obtain ⟨old, hold, hdescribes⟩ := exists_describes (mem_outcomes_of_readAt hread)
  exact ⟨old, hold, hswaps old hdescribes⟩

/-- The second text is the first with the stretches that the pattern reads replaced, from left to
right, when the given character stands before it. -/
inductive Replaces (p : Pattern) (new : Reading → Text) : Option Char → Text → Text → Prop where
  | nil {before : Option Char} : Replaces p new before [] []
  | keep {before : Option Char} {c : Char} {t u : Text}
      (hread : p.readAt ⟨before, c :: t, []⟩ = none) (h : Replaces p new (some c) t u) :
      Replaces p new before (c :: t) (c :: u)
  | swap {before : Option Char} {old u : Text} {reading : Reading} (hne : old ≠ [])
      (hread : p.readAt ⟨before, old ++ reading.rest, []⟩ = some reading)
      (h : Replaces p new (endOf before old) reading.rest u) :
      Replaces p new before (old ++ reading.rest) (new reading ++ u)

theorem Replaces.eq_nil {new : Reading → Text} {before : Option Char} {t : Text}
    (h : Replaces p new before t u) (ht : t = []) : u = [] := by
  cases h with
  | nil => rfl
  | keep => exact absurd ht (by simp)
  | swap hne => exact absurd (List.append_eq_nil_iff.1 ht).1 hne

/-- Replacing keeps the last character if no replacement at the end changes it. -/
theorem Replaces.getLast?_eq {new : Text} {before : Option Char} {t : Text}
    (h : Replaces p (fun _ ↦ new) before t u)
    (hlast : ∀ {before old reading}, p.readAt ⟨before, old ++ reading.rest, []⟩ = some reading →
      reading.rest = [] → new.getLast? = old.getLast?) : u.getLast? = t.getLast? := by
  induction h with
  | nil => rfl
  | keep _ _ ih => rw [List.getLast?_cons, List.getLast?_cons, ih]
  | @swap before old u reading _ hread _ ih =>
    rw [List.getLast?_append, List.getLast?_append, ih]
    cases hrest : reading.rest.getLast? with
    | none => rw [hlast hread (List.getLast?_eq_none_iff.1 hrest)]
    | some c => rfl

theorem replaces_replace {new : Reading → Text} (hp : ¬ p.Describes []) (t : Text) :
    Replaces p new none t (p.replace new t) := by
  have hfrom (skip : Nat) (before : Option Char) (t : Text) :
      Replaces p new (endOf before (t.take skip)) (t.drop skip)
        (p.replaceFrom new skip before t) := by
    fun_induction replaceFrom p new skip before t with
    | case1 => simpa using Replaces.nil
    | case2 skip before c rest ih =>
      rw [List.take_succ_cons, endOf_cons, List.drop_succ_cons]
      exact ih
    | case3 before c rest reading hread ih =>
      obtain ⟨old, hold, hdescribes⟩ := exists_describes (mem_outcomes_of_readAt hread)
      cases old with
      | nil => exact absurd hdescribes hp
      | cons d old =>
        obtain ⟨rfl, hrest⟩ := List.cons.inj hold
        have hskip : rest.length - reading.rest.length = old.length := by simp [hrest]
        have htake : rest.take old.length = old := by simp [hrest]
        have hdrop : rest.drop old.length = reading.rest := by simp [hrest]
        rw [hskip, htake, hdrop, ← endOf_cons before] at ih
        simp only at hold
        rw [hskip, List.drop_zero, hold]
        rw [hold] at hread
        exact .swap (by simp) hread ih
    | case4 before c rest hnone ih => exact .keep hnone ih
  exact hfrom 0 none t

theorem replaceFrom_append (p : Pattern) (new : Reading → Text) (before : Option Char)
    (s t : Text) :
    p.replaceFrom new s.length before (s ++ t) = p.replaceFrom new 0 (endOf before s) t := by
  induction s generalizing before with
  | nil => rfl
  | cons c s ih => rw [List.length_cons, List.cons_append, replaceFrom, ih, endOf_cons]

/-- There is one way to replace what a pattern reads. -/
theorem Replaces.eq_replaceFrom {new : Reading → Text} {before : Option Char} {t : Text}
    (h : Replaces p new before t u) : u = p.replaceFrom new 0 before t := by
  induction h with
  | nil => rw [replaceFrom]
  | keep hread _ ih => rw [replaceFrom, hread, ← ih]
  | @swap before old u reading hne hread _ ih =>
    obtain ⟨c, old, rfl⟩ := List.exists_cons_of_ne_nil hne
    have hlength : (old ++ reading.rest).length - reading.rest.length = old.length := by simp
    rw [List.cons_append] at hread ⊢
    rw [replaceFrom, hread]
    dsimp only
    rw [hlength, replaceFrom_append, ← endOf_cons before c, ← ih]

end Recast.Pattern
