import Mathlib.Data.List.Forall2
import Recast.Text.Basic

/-!
# Edits

One text is an edit of another if stretches of the other were swapped for new ones, in one round or
in several.  What is true of every swap, that it leaves the number of certain characters alone or
makes it grow, is then true of the whole text, and of all lines of a program.
-/

namespace Recast

namespace Text

/-- Whether the second text comes from the first by swapping stretches, each as `swaps` allows. -/
inductive Edits (swaps : Text → Text → Prop) : Text → Text → Prop where
  | nil : Edits swaps [] []
  | keep (c : Char) {t u : Text} : Edits swaps t u → Edits swaps (c :: t) (c :: u)
  | swap {old new t u : Text} :
      swaps old new → Edits swaps t u → Edits swaps (old ++ t) (new ++ u)
  | trans {t u v : Text} : Edits swaps t u → Edits swaps u v → Edits swaps t v

namespace Edits

variable {swaps : Text → Text → Prop} {t u : Text} {p : Char → Bool}

theorem refl (t : Text) : Edits swaps t t := by
  induction t with
  | nil => exact .nil
  | cons c t ih => exact .keep c ih

theorem append {v w : Text} (h : Edits swaps t u) (h' : Edits swaps v w) :
    Edits swaps (t ++ v) (u ++ w) := by
  induction h generalizing v w with
  | nil => exact h'
  | keep c _ ih => exact .keep c (ih h')
  | swap hswap _ ih =>
    rw [List.append_assoc, List.append_assoc]
    exact .swap hswap (ih h')
  | trans _ _ ih ih' => exact (ih h').trans (ih' (.refl w))

theorem single (h : swaps t u) : Edits swaps t u := by
  simpa using Edits.swap h .nil

theorem mono {others : Text → Text → Prop} (h : Edits swaps t u)
    (hswaps : ∀ {old new}, swaps old new → others old new) : Edits others t u := by
  induction h with
  | nil => exact .nil
  | keep c _ ih => exact .keep c ih
  | swap hswap _ ih => exact .swap (hswaps hswap) ih
  | trans _ _ ih ih' => exact .trans ih ih'

theorem symm (h : Edits swaps t u) : Edits (fun new old ↦ swaps old new) u t := by
  induction h with
  | nil => exact .nil
  | keep c _ ih => exact .keep c ih
  | swap hswap _ ih => exact .swap hswap ih
  | trans _ _ ih ih' => exact .trans ih' ih

/-! ## Counting -/

theorem countP_eq (h : Edits swaps t u)
    (hswaps : ∀ {old new}, swaps old new → new.countP p = old.countP p) :
    u.countP p = t.countP p := by
  induction h with
  | nil => rfl
  | keep c _ ih => rw [List.countP_cons, List.countP_cons, ih]
  | swap hswap _ ih => rw [List.countP_append, List.countP_append, hswaps hswap, ih]
  | trans _ _ ih ih' => rw [ih', ih]

/-- Swaps that all bring in more of some characters than they drop are seen in their number. -/
theorem eq_or_countP_lt (h : Edits swaps t u)
    (hswaps : ∀ {old new}, swaps old new → old.countP p < new.countP p) :
    u = t ∨ t.countP p < u.countP p := by
  induction h with
  | nil => exact .inl rfl
  | keep c _ ih =>
    rcases ih with rfl | ih
    · exact .inl rfl
    · rw [List.countP_cons, List.countP_cons]
      exact .inr (by omega)
  | swap hswap _ ih =>
    have hgrows := hswaps hswap
    rw [List.countP_append, List.countP_append]
    rcases ih with rfl | ih <;> exact .inr (by omega)
  | trans _ _ ih ih' =>
    rcases ih with rfl | ih
    · exact ih'
    · rcases ih' with rfl | ih'
      · exact .inr ih
      · exact .inr (by omega)

end Edits

/-- Substituting one text for another edits a text. -/
theorem edits_substitute {old new : Text} (hne : old ≠ []) (t : Text) :
    Edits (fun a b ↦ a = old ∧ b = new) t (substitute old new t) := by
  obtain ⟨d, old, rfl⟩ := List.exists_cons_of_ne_nil hne
  -- The characters to be skipped are those of the last occurrence.
  have hfrom (skip : Nat) (t : Text) : Edits (fun a b ↦ a = d :: old ∧ b = new) (t.drop skip)
      (replaceFrom (d :: old) new skip t) := by
    fun_induction replaceFrom (d :: old) new skip t with
    | case1 => simpa using Edits.nil
    | case2 skip c rest ih => exact ih
    | case3 c rest hmatch ih =>
      obtain ⟨after, hafter⟩ := List.isPrefixOf_iff_prefix.1 hmatch
      have hrest : rest = old ++ after := (List.cons.inj hafter).2.symm
      have hskip : rest.drop ((d :: old).length - 1) = after := by simp [hrest]
      rw [hskip] at ih
      rw [List.drop_zero, ← hafter]
      exact .swap ⟨rfl, rfl⟩ ih
    | case4 c rest hmatch ih => exact .keep c ih
  exact hfrom 0 t

end Text

/-! ## Lines -/

section Lines

variable {measure : Text → Nat} {lines others : List Text}

theorem total_eq_of_forall₂
    (h : List.Forall₂ (fun line other ↦ measure other = measure line) lines others) :
    total measure others = total measure lines := by
  induction h with
  | nil => rfl
  | cons hline _ ih => rw [total, total, hline, ih]

/-- Lines that only grow when they change have all stayed the same if their total size has. -/
theorem eq_of_total_eq
    (h : List.Forall₂ (fun line other ↦ other = line ∨ measure line < measure other) lines others)
    (htotal : total measure others = total measure lines) : others = lines := by
  have hle {lines others : List Text} (h : List.Forall₂
      (fun line other ↦ other = line ∨ measure line < measure other) lines others) :
      total measure lines ≤ total measure others := by
    induction h with
    | nil => exact Nat.le_refl _
    | cons hline _ ih =>
      rw [total, total]
      rcases hline with rfl | hline <;> omega
  induction h with
  | nil => rfl
  | cons hline hlines ih =>
    have hrest := hle hlines
    rw [total, total] at htotal
    rcases hline with rfl | hline
    · rw [ih (by omega)]
    · omega

end Lines

end Recast
