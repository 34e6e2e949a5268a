import Recast.Pattern.Basic

/-!
# The outcomes of a pattern

A pattern reads a text in several ways, and `Pattern.run` goes through them in a fixed order until
what follows succeeds.  Here these ways are a list, `Pattern.outcomes`, and the first of them that
suits the continuation is what `Pattern.run` gives.  Facts about a reading are then facts about the
members of a list: what a pattern reads is taken from the text and what it keeps stands in it, and
a part that every branch of a pattern keeps is there after every reading.
-/

namespace Recast.Pattern

/-! ## Outcomes in order -/

/-- The outcomes of up to `bound` rounds, the most first. -/
def mostOutcomes (round : Reading → List Reading) : (bound : Nat) → Reading → List Reading
  | 0, reading => [reading]
  | bound + 1, reading => (round reading).flatMap (mostOutcomes round bound) ++ [reading]

/-- The outcomes of up to `bound` rounds, the fewest first. -/
def fewestOutcomes (round : Reading → List Reading) : (bound : Nat) → Reading → List Reading
  | 0, reading => [reading]
  | bound + 1, reading => reading :: (round reading).flatMap (fewestOutcomes round bound)

/-- The readings that a pattern can end in, in the order in which they are tried. -/
def outcomes : Pattern → Reading → List Reading
  | done, reading => [reading]
  | char accepts, reading =>
    match reading.rest with
    | [] => []
    | c :: rest => if accepts c then [{ reading with before := some c, rest := rest }] else []
  | look holds, reading => if holds reading.before reading.rest then [reading] else []
  | seq first second, reading => (first.outcomes reading).flatMap second.outcomes
  | either first second, reading => first.outcomes reading ++ second.outcomes reading
  | most round, reading => mostOutcomes round.outcomes reading.rest.length reading
  | fewest round, reading => fewestOutcomes round.outcomes reading.rest.length reading
  | keep slot body, reading =>
    (body.outcomes reading).map fun after ↦
      { after with captures := ⟨slot, reading.rest, after.rest⟩ :: after.captures }

theorem findSome?_flatMap {α β γ : Type} (f : β → Option γ) (g : α → List β) (as : List α) :
    (as.flatMap g).findSome? f = as.findSome? fun a ↦ (g a).findSome? f := by
  induction as with
  | nil => rfl
  | cons a as ih =>
    rw [List.flatMap_cons, List.findSome?_append, List.findSome?_cons, ih]
    cases (g a).findSome? f <;> rfl

theorem mostRounds_eq_findSome? {β : Type} {round : (Reading → Option β) → Reading → Option β}
    {outcomes : Reading → List Reading}
    (hround : ∀ next reading, round next reading = (outcomes reading).findSome? next)
    (next : Reading → Option β) (bound : Nat) (reading : Reading) :
    mostRounds round next bound reading = (mostOutcomes outcomes bound reading).findSome? next := by
  induction bound generalizing reading with
  | zero => simp [mostRounds, mostOutcomes]
  | succ bound ih =>
    have hnext : mostRounds round next bound
        = fun reading ↦ (mostOutcomes outcomes bound reading).findSome? next := funext ih
    simp [mostRounds, mostOutcomes, hround, hnext, List.findSome?_append, findSome?_flatMap]

theorem fewestRounds_eq_findSome? {β : Type} {round : (Reading → Option β) → Reading → Option β}
    {outcomes : Reading → List Reading}
    (hround : ∀ next reading, round next reading = (outcomes reading).findSome? next)
    (next : Reading → Option β) (bound : Nat) (reading : Reading) :
    fewestRounds round next bound reading
      = (fewestOutcomes outcomes bound reading).findSome? next := by
  induction bound generalizing reading with
  | zero => simp [fewestRounds, fewestOutcomes]
  | succ bound ih =>
    have hnext : fewestRounds round next bound
        = fun reading ↦ (fewestOutcomes outcomes bound reading).findSome? next := funext ih
    cases hfirst : next reading <;>
      simp [fewestRounds, fewestOutcomes, hround, hnext, hfirst, findSome?_flatMap]

/-- Reading with a continuation gives the first outcome that the continuation accepts. -/
theorem run_eq_findSome? {β : Type} (p : Pattern) (next : Reading → Option β) (reading : Reading) :
    p.run next reading = (p.outcomes reading).findSome? next := by
  induction p generalizing next reading with
  | done => simp [run, outcomes]
  | char accepts =>
    obtain ⟨before, rest, captures⟩ := reading
    cases rest with
    | nil => rfl
    | cons c rest => by_cases hc : accepts c <;> simp [run, outcomes, hc]
  | look holds => by_cases h : holds reading.before reading.rest <;> simp [run, outcomes, h]
  | seq first second ihFirst ihSecond =>
    have hsecond : second.run next = fun reading ↦ (second.outcomes reading).findSome? next :=
      funext (ihSecond next)
    rw [run, hsecond, ihFirst, outcomes, findSome?_flatMap]
  | either first second ihFirst ihSecond =>
    simp [run, outcomes, ihFirst, ihSecond, List.findSome?_append]
  | most round ih => exact mostRounds_eq_findSome? ih next _ reading
  | fewest round ih => exact fewestRounds_eq_findSome? ih next _ reading
  | keep slot body ih => simp [run, outcomes, ih, List.findSome?_map, Function.comp_def]

theorem readAt_eq_head? (p : Pattern) (reading : Reading) :
    p.readAt reading = (p.outcomes reading).head? := by
  rw [readAt, run_eq_findSome?]
  cases p.outcomes reading <;> rfl

theorem mem_outcomes_of_readAt {p : Pattern} {reading after : Reading}
    (h : p.readAt reading = some after) : after ∈ p.outcomes reading := by
  rw [readAt_eq_head?] at h
  exact List.mem_of_head? h

theorem mem_outcomes_of_readStart {p : Pattern} {t : Text} {reading : Reading}
    (h : p.readStart t = some reading) : reading ∈ p.outcomes (.start t) :=
  mem_outcomes_of_readAt h

/-! ## What every reading respects -/

/-- What single characters and kept parts respect, every outcome of every pattern respects. -/
theorem rel_of_mem_outcomes {related : Reading → Reading → Prop}
    (hrefl : ∀ reading, related reading reading)
    (htrans : ∀ {a b c}, related a b → related b c → related a c)
    (hchar : ∀ before c rest captures,
      related ⟨before, c :: rest, captures⟩ ⟨some c, rest, captures⟩)
    (hkeep : ∀ slot reading after, related reading after →
      related reading
        { after with captures := ⟨slot, reading.rest, after.rest⟩ :: after.captures })
    {p : Pattern} {reading after : Reading} (h : after ∈ p.outcomes reading) :
    related reading after := by
  induction p generalizing reading after with
  | done => simp_all [outcomes]
  | char accepts =>
    obtain ⟨before, rest, captures⟩ := reading
    cases rest with
    | nil => simp [outcomes] at h
    | cons c rest =>
      by_cases hc : accepts c
      · have hafter : after = ⟨some c, rest, captures⟩ := by simpa [outcomes, hc] using h
        rw [hafter]
        exact hchar before c rest captures
      · simp [outcomes, hc] at h
  | look holds =>
    by_cases hlook : holds reading.before reading.rest
    · have hafter : after = reading := by simpa [outcomes, hlook] using h
      rw [hafter]
      exact hrefl reading
    · simp [outcomes, hlook] at h
  | seq first second ihFirst ihSecond =>
    obtain ⟨middle, hmiddle, hafter⟩ := List.mem_flatMap.1 h
    exact htrans (ihFirst hmiddle) (ihSecond hafter)
  | either first second ihFirst ihSecond =>
    rcases List.mem_append.1 h with h | h
    · exact ihFirst h
    · exact ihSecond h
  | most round ih =>
    simp only [outcomes] at h
    generalize reading.rest.length = bound at h
    induction bound generalizing reading with
    | zero => simp_all [mostOutcomes]
    | succ bound ihBound =>
      rcases List.mem_append.1 h with h | h
      · obtain ⟨middle, hmiddle, hafter⟩ := List.mem_flatMap.1 h
        exact htrans (ih hmiddle) (ihBound hafter)
      · rw [List.mem_singleton.1 h]
        exact hrefl reading
  | fewest round ih =>
    simp only [outcomes] at h
    generalize reading.rest.length = bound at h
    induction bound generalizing reading with
    | zero => simp_all [fewestOutcomes]
    | succ bound ihBound =>
      rcases List.mem_cons.1 h with h | h
      · rw [h]
        exact hrefl reading
      · obtain ⟨middle, hmiddle, hafter⟩ := List.mem_flatMap.1 h
        exact htrans (ih hmiddle) (ihBound hafter)
  | keep slot body ih =>
    obtain ⟨inner, hinner, rfl⟩ := List.mem_map.1 h
    exact hkeep slot reading inner (ih hinner)

/-- Whether a reading has gone on in the text of an earlier one: it has a later part of that text
left, and whatever it has kept in the meantime lies in that text. -/
structure GoesOn (earlier later : Reading) : Prop where
  rest : later.rest <:+ earlier.rest
  captures : ∃ new, later.captures = new ++ earlier.captures ∧
    ∀ capture ∈ new, capture.stop <:+ capture.start ∧ capture.start <:+ earlier.rest

theorem GoesOn.refl (reading : Reading) : GoesOn reading reading :=
  ⟨List.suffix_refl _, [], by simp⟩

theorem GoesOn.trans {a b c : Reading} (hab : GoesOn a b) (hbc : GoesOn b c) : GoesOn a c := by
  obtain ⟨newer, hnewer, hnewerIn⟩ := hbc.captures
  obtain ⟨new, hnew, hnewIn⟩ := hab.captures
  refine ⟨hbc.rest.trans hab.rest, newer ++ new, by rw [hnewer, hnew, List.append_assoc], ?_⟩
  intro capture hcapture
  rcases List.mem_append.1 hcapture with hcapture | hcapture
  · exact ⟨(hnewerIn capture hcapture).1, (hnewerIn capture hcapture).2.trans hab.rest⟩
  · exact hnewIn capture hcapture

theorem goesOn_of_mem_outcomes {p : Pattern} {reading after : Reading}
    (h : after ∈ p.outcomes reading) : GoesOn reading after := by
  refine rel_of_mem_outcomes GoesOn.refl GoesOn.trans ?_ ?_ h
  · intro before c rest captures
    exact ⟨List.suffix_cons c rest, [], by simp⟩
  · intro slot reading after hafter
    obtain ⟨new, hnew, hnewIn⟩ := hafter.captures
    refine ⟨hafter.rest, ⟨slot, reading.rest, after.rest⟩ :: new, by simp [hnew], ?_⟩
    intro capture hcapture
    rcases List.mem_cons.1 hcapture with rfl | hcapture
    · exact ⟨hafter.rest, List.suffix_refl _⟩
    · exact hnewIn capture hcapture

/-! ## Kept parts are stretches of the text -/

/-- A kept part is a stretch of the text that was read. -/
theorem infix_of_get? {p : Pattern} {before : Option Char} {t part : Text} {reading : Reading}
    {slot : Slot} (h : p.readAt ⟨before, t, []⟩ = some reading)
    (hpart : reading.get? slot = some part) : part <:+: t := by
  obtain ⟨new, hnew, hnewIn⟩ := (goesOn_of_mem_outcomes (mem_outcomes_of_readAt h)).captures
  obtain ⟨capture, hcapture, rfl⟩ := Option.map_eq_some_iff.1 hpart
  have hmem : capture ∈ new := by
    have := List.mem_of_find?_eq_some hcapture
    rwa [hnew, List.append_nil] at this
  exact (List.take_prefix _ _).isInfix.trans (hnewIn capture hmem).2.isInfix

theorem get_isInfix {p : Pattern} {before : Option Char} {t : Text} {reading : Reading}
    (h : p.readAt ⟨before, t, []⟩ = some reading) (slot : Slot) : reading.get slot <:+: t := by
  rw [Reading.get]
  cases hpart : reading.get? slot with
  | none => exact List.nil_infix
  | some part => exact infix_of_get? h hpart

theorem mem_of_mem_get {p : Pattern} {before : Option Char} {t : Text} {reading : Reading}
    {slot : Slot} {c : Char} (h : p.readAt ⟨before, t, []⟩ = some reading)
    (hc : c ∈ reading.get slot) : c ∈ t :=
  (get_isInfix h slot).subset hc

/-- What is left is the end of the text that was read. -/
theorem rest_suffix {p : Pattern} {before : Option Char} {t : Text} {reading : Reading}
    (h : p.readAt ⟨before, t, []⟩ = some reading) : reading.rest <:+ t :=
  (goesOn_of_mem_outcomes (mem_outcomes_of_readAt h)).rest

/-! ## Parts that are always kept -/

/-- Whether every way to read the pattern keeps a part under the name. -/
def keeps (slot : Slot) : Pattern → Bool
  | done | char _ | look _ | most _ | fewest _ => false
  | seq first second => first.keeps slot || second.keeps slot
  | either first second => first.keeps slot && second.keeps slot
  | keep kept body => kept = slot || body.keeps slot

theorem has_iff_exists_mem_captures {reading : Reading} {slot : Slot} :
    reading.has slot ↔ ∃ capture ∈ reading.captures, capture.slot = slot := by
  simp [Reading.has, Reading.get?]

/-- What has been kept once is not lost. -/
theorem GoesOn.has {earlier later : Reading} {slot : Slot} (h : GoesOn earlier later)
    (hslot : earlier.has slot) : later.has slot := by
  obtain ⟨new, hnew, -⟩ := h.captures
  obtain ⟨capture, hcapture, hname⟩ := has_iff_exists_mem_captures.1 hslot
  exact has_iff_exists_mem_captures.2 ⟨capture, by simp [hnew, hcapture], hname⟩

theorem has_of_keeps {p : Pattern} {slot : Slot} {reading after : Reading}
    (hkeeps : p.keeps slot) (h : after ∈ p.outcomes reading) : after.has slot := by
  induction p generalizing reading after with
  | done | char _ | look _ | most _ _ | fewest _ _ => simp [keeps] at hkeeps
  | seq first second ihFirst ihSecond =>
    obtain ⟨middle, hmiddle, hafter⟩ := List.mem_flatMap.1 h
    rcases Bool.or_eq_true_iff.1 hkeeps with hkeeps | hkeeps
    · exact (goesOn_of_mem_outcomes hafter).has (ihFirst hkeeps hmiddle)
    · exact ihSecond hkeeps hafter
  | either first second ihFirst ihSecond =>
    obtain ⟨hfirst, hsecond⟩ := Bool.and_eq_true_iff.1 hkeeps
    rcases List.mem_append.1 h with h | h
    · exact ihFirst hfirst h
    · exact ihSecond hsecond h
  | keep kept body ih =>
    obtain ⟨inner, hinner, rfl⟩ := List.mem_map.1 h
    rw [has_iff_exists_mem_captures]
    rcases Bool.or_eq_true_iff.1 hkeeps with hkeeps | hkeeps
    · exact ⟨_, List.mem_cons_self, of_decide_eq_true hkeeps⟩
    · obtain ⟨capture, hcapture, hname⟩ := has_iff_exists_mem_captures.1 (ih hkeeps hinner)
      exact ⟨capture, List.mem_cons_of_mem _ hcapture, hname⟩

/-! ## Searching, replacing and splitting -/

/-- A stretch that was found stands in the text and was read where it starts. -/
theorem readAt_of_searchFrom {p : Pattern} {offset : Nat} {before : Option Char} {t : Text}
    {found : Found} (h : p.searchFrom offset before t = some found) :
    found.start <:+ t ∧ ∃ before, p.readAt ⟨before, found.start, []⟩ = some found.reading := by
  fun_induction searchFrom p offset before t with
  | case1 offset before =>
    obtain ⟨reading, hreading, rfl⟩ := Option.map_eq_some_iff.1 h
    exact ⟨List.suffix_refl _, before, hreading⟩
  | case2 offset before c rest reading hreading =>
    obtain rfl := Option.some.inj h
    exact ⟨List.suffix_refl _, before, hreading⟩
  | case3 offset before c rest hnone ih =>
    obtain ⟨hstart, hread⟩ := ih h
    exact ⟨hstart.trans (List.suffix_cons c rest), hread⟩

/-- A character after replacing stood in the text before, or was put in for a stretch of it. -/
theorem mem_of_mem_replaceFrom {p : Pattern} {new : Reading → Text} {skip : Nat}
    {before : Option Char} {t : Text} {c : Char} (h : c ∈ p.replaceFrom new skip before t) :
    c ∈ t ∨ ∃ before stretch reading,
      stretch <:+ t ∧ p.readAt ⟨before, stretch, []⟩ = some reading ∧ c ∈ new reading := by
  -- A character that comes from the rest of a text comes from the text.
  have hcons {d : Char} {rest : Text} (h : c ∈ rest ∨ ∃ before stretch reading,
      stretch <:+ rest ∧ p.readAt ⟨before, stretch, []⟩ = some reading ∧ c ∈ new reading) :
      c ∈ d :: rest ∨ ∃ before stretch reading,
        stretch <:+ d :: rest ∧ p.readAt ⟨before, stretch, []⟩ = some reading
          ∧ c ∈ new reading := by
    rcases h with h | ⟨before, stretch, reading, hstretch, hread, hc⟩
    · exact .inl (List.mem_cons_of_mem d h)
    · exact .inr ⟨before, stretch, reading, hstretch.trans (List.suffix_cons d rest), hread, hc⟩
  fun_induction replaceFrom p new skip before t with
  | case1 => exact absurd h List.not_mem_nil
  | case2 skip before d rest ih => exact hcons (ih h)
  | case3 before d rest reading hread ih =>
    rcases List.mem_append.1 h with h | h
    · exact .inr ⟨before, d :: rest, reading, List.suffix_refl _, hread, h⟩
    · exact hcons (ih h)
  | case4 before d rest hnone ih =>
    rcases List.mem_cons.1 h with rfl | h
    · exact .inl List.mem_cons_self
    · exact hcons (ih h)

/-- Replacing brings in no character that neither the text nor a replacement holds. -/
theorem notMem_replace {p : Pattern} {new : Reading → Text} {t : Text} {c : Char} (ht : c ∉ t)
    (hnew : ∀ before stretch reading, c ∉ stretch →
      p.readAt ⟨before, stretch, []⟩ = some reading → c ∉ new reading) :
    c ∉ p.replace new t := by
  intro h
  rcases mem_of_mem_replaceFrom h with h | ⟨before, stretch, reading, hstretch, hread, hc⟩
  · exact ht h
  · exact hnew before stretch reading (fun h ↦ ht (hstretch.subset h)) hread hc

theorem notMem_replace_const {p : Pattern} {new t : Text} {c : Char} (ht : c ∉ t) (hnew : c ∉ new) :
    c ∉ p.replace (fun _ ↦ new) t :=
  notMem_replace ht fun _ _ _ _ _ ↦ hnew

/-- A piece is a stretch of what has been read of it and of what is still to be read.  While
characters are skipped nothing has been read of the next piece. -/
theorem infix_of_mem_splitFrom {p : Pattern} {piece : Text} {skip : Nat} {before : Option Char}
    {t part : Text} (h : part ∈ p.splitFrom piece skip before t) (hskip : skip = 0 ∨ piece = []) :
    part <:+: piece.reverse ++ t := by
  fun_induction splitFrom p piece skip before t with
  | case1 => simp_all
  | case2 piece skip before d rest ih =>
    obtain rfl := hskip.resolve_left (by simp)
    exact (ih h (.inr rfl)).trans (List.suffix_cons d rest).isInfix
  | case3 piece before d rest reading hread ih =>
    rcases List.mem_cons.1 h with rfl | h
    · exact (List.prefix_append _ _).isInfix
    · refine (ih h (.inr rfl)).trans (List.IsSuffix.isInfix ?_)
      exact (List.suffix_cons d rest).trans (List.suffix_append _ _)
  | case4 piece before d rest hnone ih => simpa using ih h (.inl rfl)

/-- A character at which the pattern can always be read is in no piece. -/
theorem notMem_of_mem_split {p : Pattern} {t part : Text} {c : Char}
    (hc : ∀ before rest, (p.readAt ⟨before, c :: rest, []⟩).isSome) (h : part ∈ p.split t) :
    c ∉ part := by
  have hfrom (piece : Text) (skip : Nat) (before : Option Char) (t : Text) (hpiece : c ∉ piece)
      (h : part ∈ p.splitFrom piece skip before t) : c ∉ part := by
    fun_induction splitFrom p piece skip before t with
    | case1 piece => simpa [List.mem_singleton.1 h] using hpiece
    | case2 piece skip before d rest ih => exact ih hpiece h
    | case3 piece before d rest reading hread ih =>
      rcases List.mem_cons.1 h with rfl | h
      · simpa using hpiece
      · exact ih List.not_mem_nil h
    | case4 piece before d rest hnone ih =>
      refine ih (fun hmem ↦ ?_) h
      rcases List.mem_cons.1 hmem with rfl | hmem
      · exact absurd (hc before rest) (by simp [hnone])
      · exact hpiece hmem
  exact hfrom [] 0 none t List.not_mem_nil h

/-- A piece is a stretch of the text that was split. -/
theorem infix_of_mem_split {p : Pattern} {t part : Text} (h : part ∈ p.split t) : part <:+: t :=
  infix_of_mem_splitFrom h (.inl rfl)

end Recast.Pattern
