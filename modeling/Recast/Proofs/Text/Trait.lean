import Recast.Proofs.Text.Characters
import Recast.Proofs.Text.Edit

/-!
# Traits of texts

A line is recast by taking it apart, putting words between the parts and exchanging tokens.  A trait
is a property of texts that outlives this: the stretches of a text have it, and so has a text that
is joined from two at a character that is neither a line feed nor part of a comment marker.  To be
of one line is a trait, and so is to be of one line and without a certain marker.
-/

namespace Recast

/-- Whether a character is neither a line feed nor part of a comment marker. -/
def isPlain (c : Char) : Bool :=
  c != '\n' && c != '#' && c != '/'

theorem isPlain_iff {c : Char} : isPlain c ↔ c ≠ '\n' ∧ c ≠ '#' ∧ c ≠ '/' := by
  simp [isPlain, and_assoc]

theorem isPlain_of_isBlank {c : Char} (h : isBlank c) (hne : c ≠ '\n') : isPlain c := by
  refine isPlain_iff.2 ⟨hne, ?_, ?_⟩
  all_goals
    rintro rfl
    exact absurd h (by decide)

/-- A property of lines that is handed down to their stretches, and on to lines that are joined at a
plain character. -/
structure Trait where
  Holds : Text → Prop
  nil : Holds []
  of_infix : ∀ {t u : Text}, t <:+: u → Holds u → Holds t
  join : ∀ {t u : Text} {c : Char}, isPlain c → Holds t → Holds u → Holds (t ++ c :: u)
  newline_notMem : ∀ {t : Text}, Holds t → '\n' ∉ t

namespace Trait

variable {trait : Trait} {t u word : Text} {c : Char}

attribute [simp] nil

@[simp]
theorem holds_append_cons_iff (hc : isPlain c) :
    trait.Holds (t ++ c :: u) ↔ trait.Holds t ∧ trait.Holds u := by
  constructor
  · intro h
    have hbehind : u <:+ t ++ c :: u := (List.suffix_cons c u).trans (List.suffix_append _ _)
    exact ⟨trait.of_infix (List.prefix_append _ _).isInfix h, trait.of_infix hbehind.isInfix h⟩
  · exact fun ⟨ht, hu⟩ ↦ trait.join hc ht hu

@[simp]
theorem holds_cons_iff (hc : isPlain c) : trait.Holds (c :: t) ↔ trait.Holds t := by
  simpa using @holds_append_cons_iff trait [] t c hc

theorem holds_plain_append_iff (h : word.all isPlain) :
    trait.Holds (word ++ t) ↔ trait.Holds t := by
  induction word with
  | nil => rfl
  | cons c word ih =>
    obtain ⟨hc, hword⟩ := Bool.and_eq_true_iff.1 (List.all_cons ▸ h)
    rw [List.cons_append, holds_cons_iff hc, ih hword]

theorem holds_of_plain (h : word.all isPlain) : trait.Holds word := by
  simpa using (holds_plain_append_iff h).2 trait.nil

/-! ## Words between texts -/

/-- Whether the word can be put between any two texts. -/
def Joins (trait : Trait) (word : Text) : Prop :=
  ∀ ⦃t u : Text⦄, trait.Holds t → trait.Holds u → trait.Holds (t ++ word ++ u)

theorem Joins.holds (h : trait.Joins word) : trait.Holds word := by
  simpa using h trait.nil trait.nil

theorem Joins.append_right (h : trait.Joins word) (ht : trait.Holds t) :
    trait.Holds (t ++ word) := by
  simpa using h ht trait.nil

theorem joins_of_plain (h : word.all isPlain) (hne : word ≠ []) : trait.Joins word := by
  obtain ⟨c, word, rfl⟩ := List.exists_cons_of_ne_nil hne
  obtain ⟨hc, hword⟩ := Bool.and_eq_true_iff.1 (List.all_cons ▸ h)
  intro before after hbefore hafter
  simp [hc, hbefore, (holds_plain_append_iff hword).2 hafter]

theorem holds_joinWith {separator : Text} {pieces : List Text} (hseparator : trait.Joins separator)
    (hpieces : ∀ piece ∈ pieces, trait.Holds piece) :
    trait.Holds (Text.joinWith separator pieces) := by
  induction pieces with
  | nil => exact trait.nil
  | cons first others ih =>
    obtain ⟨hfirst, hothers⟩ := List.forall_mem_cons.1 hpieces
    cases others with
    | nil => simpa [Text.joinWith] using hfirst
    | cons second others =>
      rw [Text.joinWith, List.intercalate_cons_cons]
      exact hseparator hfirst (ih hothers)

/-- An edit that swaps in such words hands the trait on. -/
theorem holds_of_edits {swaps : Text → Text → Prop} (h : Text.Edits swaps t u)
    (hswaps : ∀ {old new}, swaps old new → trait.Joins new) :
    trait.Holds t → trait.Holds u := by
  -- What stands before the edited text goes along, as a kept character has to join on to it.
  suffices hbehind : ∀ before, trait.Holds (before ++ t) → trait.Holds (before ++ u) from hbehind []
  induction h with
  | nil => exact fun _ ht ↦ ht
  | keep c _ ih => exact fun before ht ↦ by simpa using ih (before ++ [c]) (by simpa using ht)
  | swap hswap _ ih =>
    intro before ht
    have hbefore := trait.of_infix (List.prefix_append _ _).isInfix ht
    have hrest := trait.of_infix
      ((List.suffix_append _ _).trans (List.suffix_append _ _)).isInfix ht
    rw [← List.append_assoc]
    exact hswaps hswap hbefore (ih [] hrest)
  | trans _ _ ih ih' => exact fun before ht ↦ ih' before (ih before ht)

/-! ## Lines -/

/-- To be of one line. -/
def oneLine : Trait where
  Holds t := '\n' ∉ t
  nil := List.not_mem_nil
  of_infix hstretch h hc := h (hstretch.subset hc)
  join hc ht hu := by simp [ht, hu, (isPlain_iff.1 hc).1.symm]
  newline_notMem h := h

theorem joins_oneLine (h : '\n' ∉ word) : oneLine.Joins word := by
  intro t u ht hu
  simp_all [oneLine]

/-! ## Markers -/

/-- A stretch that does not hold the character where two texts are joined lies in one of them. -/
theorem infix_of_infix_append_cons (hc : c ∉ word) (h : word <:+: t ++ c :: u) :
    word <:+: t ∨ word <:+: u := by
  obtain ⟨before, after, h⟩ := h
  rcases List.append_eq_append_iff.1 h with ⟨rest, ht, -⟩ | ⟨tail, hbefore, htail⟩
  · exact .inl ⟨before, rest, ht.symm⟩
  -- The stretch ends behind the start of the second text, so it starts behind the character too.
  cases tail with
  | nil => exact .inl ⟨before, [], by simpa using hbefore⟩
  | cons d tail =>
    obtain ⟨rfl, rfl⟩ := List.cons.inj htail
    rcases List.append_eq_append_iff.1 hbefore with ⟨rest, -, rfl⟩ | ⟨rest, -, hrest⟩
    · exact absurd (List.mem_append_right rest List.mem_cons_self) hc
    · cases rest with
      | nil =>
        obtain rfl : c :: tail = word := hrest
        exact absurd List.mem_cons_self hc
      | cons e rest => exact .inr ⟨rest, after, by simp [(List.cons.inj hrest).2]⟩

/-- Whether a text can be a comment marker: there is something in it, and no plain character. -/
def isMarker (t : Text) : Bool :=
  !t.isEmpty && t.all (!isPlain ·)

theorem ne_nil_of_isMarker (h : isMarker t) : t ≠ [] := by
  rintro rfl
  exact absurd h (by decide)

theorem notMem_of_isMarker (h : isMarker t) (hc : isPlain c) : c ∉ t := by
  intro hmem
  have hmarks := List.all_eq_true.1 (Bool.and_eq_true_iff.1 h).2 c hmem
  simp [hc] at hmarks

/-- To be of one line and not to hold the marker. -/
def without (marker : Text) (hmarker : isMarker marker) : Trait where
  Holds t := '\n' ∉ t ∧ ¬marker <:+: t
  nil := ⟨List.not_mem_nil, fun h ↦ ne_nil_of_isMarker hmarker (List.infix_nil.1 h)⟩
  of_infix hstretch h := ⟨fun hc ↦ h.1 (hstretch.subset hc), fun hin ↦ h.2 (hin.trans hstretch)⟩
  join hc ht hu := by
    refine ⟨oneLine.join hc ht.1 hu.1, fun hin ↦ ?_⟩
    exact (infix_of_infix_append_cons (notMem_of_isMarker hmarker hc) hin).elim ht.2 hu.2
  newline_notMem h := h.1

theorem holds_without_iff {marker : Text} (hmarker : isMarker marker) :
    (without marker hmarker).Holds t ↔ '\n' ∉ t ∧ ¬marker <:+: t :=
  Iff.rfl

end Trait

end Recast
