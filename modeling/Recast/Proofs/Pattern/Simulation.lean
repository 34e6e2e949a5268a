import Recast.Proofs.Pattern.Lazy

/-!
# Carrying readings over

A pattern that does not look around can read every stretch that it describes.  And if one text is
related to another in such a way that each step of a pattern on the first can be followed on the
second, then the pattern is read on the second wherever it is read on the first.
-/

namespace Recast.Pattern

variable {p q : Pattern} {reading after : Reading} {accepts : Char → Bool} {u : Text} {c : Char}

/-! ## Rounds -/

theorem mem_mostOutcomes_self (round : Reading → List Reading) (bound : Nat) (reading : Reading) :
    reading ∈ mostOutcomes round bound reading := by
  cases bound <;> simp [mostOutcomes]

theorem mem_mostOutcomes_succ {round : Reading → List Reading} {bound : Nat} :
    after ∈ mostOutcomes round (bound + 1) reading
      ↔ (∃ middle ∈ round reading, after ∈ mostOutcomes round bound middle) ∨ after = reading := by
  rw [mostOutcomes, List.mem_append, List.mem_flatMap, List.mem_singleton]

/-- The order of the rounds makes no difference to what they can end in. -/
theorem mem_fewestOutcomes {round : Reading → List Reading} {bound : Nat} :
    after ∈ fewestOutcomes round bound reading ↔ after ∈ mostOutcomes round bound reading := by
  induction bound generalizing reading with
  | zero => exact Iff.rfl
  | succ bound ih =>
    rw [mem_mostOutcomes_succ, fewestOutcomes, List.mem_cons, List.mem_flatMap, or_comm]
    simp only [ih]

/-! ## Reading what is described -/

/-- Whether the pattern never looks at the text around it. -/
def lookFree : Pattern → Bool
  | done | char _ => true
  | look _ => false
  | seq first second | either first second => first.lookFree && second.lookFree
  | most round | fewest round | keep _ round => round.lookFree

/-- Whether the pattern reads the text off the start of any longer one. -/
def Reads (p : Pattern) (u : Text) : Prop :=
  ∀ before t captures, ∃ after ∈ p.outcomes ⟨before, u ++ t, captures⟩,
    after.rest = t ∧ after.before = endOf before u

theorem Reads.append {v : Text} (hp : p.Reads u) (hq : q.Reads v) : (p ++ q).Reads (u ++ v) := by
  intro before t captures
  obtain ⟨⟨_, _, middle⟩, hmiddle, rfl, rfl⟩ := hp before (v ++ t) captures
  obtain ⟨after, hafter, hrest, hbefore⟩ := hq (endOf before u) t middle
  refine ⟨after, List.mem_flatMap.2 ⟨_, by rwa [List.append_assoc], hafter⟩, hrest, ?_⟩
  rw [hbefore, endOf_append]

/-- The pieces of a repetition are read one after another. -/
theorem exists_mem_mostOutcomes {pieces : List Text} (hpieces : ∀ v ∈ pieces, p.Reads v)
    {bound : Nat} (hbound : pieces.length ≤ bound) (before : Option Char) (t : Text)
    (captures : List Capture) :
    ∃ after ∈ mostOutcomes p.outcomes bound ⟨before, pieces.flatten ++ t, captures⟩,
      after.rest = t ∧ after.before = endOf before pieces.flatten := by
  induction pieces generalizing bound before captures with
  | nil => exact ⟨_, mem_mostOutcomes_self _ _ _, rfl, rfl⟩
  | cons v pieces ih =>
    obtain ⟨hv, hpieces⟩ := List.forall_mem_cons.1 hpieces
    cases bound with
    | zero => exact absurd hbound (by simp)
    | succ bound =>
      obtain ⟨⟨_, _, middle⟩, hmiddle, rfl, rfl⟩ := hv before (pieces.flatten ++ t) captures
      obtain ⟨after, hafter, hrest, hbefore⟩ :=
        ih hpieces (Nat.le_of_succ_le_succ hbound) (endOf before v) middle
      rw [List.flatten_cons, List.append_assoc]
      exact ⟨after, mem_mostOutcomes_succ.2 (.inl ⟨_, hmiddle, hafter⟩), hrest,
        by rw [hbefore, endOf_append]⟩

theorem length_le_length_flatten {pieces : List Text} (h : ∀ v ∈ pieces, v ≠ []) :
    pieces.length ≤ pieces.flatten.length := by
  induction pieces with
  | nil => exact Nat.le_refl _
  | cons v pieces ih =>
    obtain ⟨hv, hpieces⟩ := List.forall_mem_cons.1 h
    have hlength := ih hpieces
    have hpos := List.length_pos_iff.2 hv
    rw [List.flatten_cons, List.length_append, List.length_cons]
    omega

/-- What a pattern describes it can read. -/
theorem reads_of_describes (hp : p.lookFree) (h : p.Describes u) : p.Reads u := by
  -- Rounds that read nothing are left out, so that there are no more rounds than characters.
  have hrounds {round : Pattern} {u : Text} (hround : ∀ {v}, round.Describes v → round.Reads v)
      (h : ∃ pieces : List Text, u = pieces.flatten ∧ ∀ v ∈ pieces, round.Describes v)
      (before : Option Char) (t : Text) (captures : List Capture) :
      ∃ after ∈ mostOutcomes round.outcomes (u ++ t).length ⟨before, u ++ t, captures⟩,
        after.rest = t ∧ after.before = endOf before u := by
    obtain ⟨pieces, rfl, hpieces⟩ := h
    have hflatten : (pieces.filter (!·.isEmpty)).flatten = pieces.flatten :=
      List.flatten_filter_not_isEmpty
    rw [← hflatten]
    refine exists_mem_mostOutcomes (fun v hv ↦ hround (hpieces v (List.mem_of_mem_filter hv))) ?_
      before t captures
    refine Nat.le_trans (length_le_length_flatten fun v hv ↦ ?_) (by simp)
    simpa using (List.mem_filter.1 hv).2
  induction p generalizing u with
  | done =>
    obtain rfl := h
    exact fun before t captures ↦ ⟨_, List.mem_singleton_self _, rfl, rfl⟩
  | char accepts =>
    obtain ⟨c, rfl, hc⟩ := h
    refine fun before t captures ↦ ⟨⟨some c, t, captures⟩, ?_, rfl, rfl⟩
    rw [List.singleton_append, outcomes_char_cons, if_pos hc]
    exact List.mem_singleton_self _
  | look holds => exact absurd hp (by simp [lookFree])
  | seq first second ihFirst ihSecond =>
    obtain ⟨hfirst, hsecond⟩ := Bool.and_eq_true_iff.1 hp
    obtain ⟨v, w, rfl, hv, hw⟩ := h
    exact (ihFirst hfirst hv).append (ihSecond hsecond hw)
  | either first second ihFirst ihSecond =>
    obtain ⟨hfirst, hsecond⟩ := Bool.and_eq_true_iff.1 hp
    intro before t captures
    rcases h with h | h
    · obtain ⟨after, hafter, hrest⟩ := ihFirst hfirst h before t captures
      exact ⟨after, List.mem_append_left _ hafter, hrest⟩
    · obtain ⟨after, hafter, hrest⟩ := ihSecond hsecond h before t captures
      exact ⟨after, List.mem_append_right _ hafter, hrest⟩
  | most round ih => exact hrounds (ih hp) h
  | fewest round ih =>
    intro before t captures
    obtain ⟨after, hafter, hrest⟩ := hrounds (ih hp) h before t captures
    exact ⟨after, mem_fewestOutcomes.2 hafter, hrest⟩
  | keep slot body ih =>
    intro before t captures
    obtain ⟨after, hafter, hrest, hbefore⟩ := ih hp h before t captures
    exact ⟨_, List.mem_map_of_mem hafter, hrest, hbefore⟩

/-! ## Following a reading on another text -/

/-- Whether each reading of the pattern can be followed on every text related to the one read. -/
def Follows (related : Text → Text → Prop) (p : Pattern) : Prop :=
  ∀ ⦃reading other after : Reading⦄, other.before = reading.before →
    related reading.rest other.rest → after ∈ p.outcomes reading →
      ∃ later ∈ p.outcomes other, later.before = after.before ∧ related after.rest later.rest

variable {related : Text → Text → Prop}

theorem follows_done : Follows related done := by
  intro reading other after hbefore hrest hafter
  rw [List.mem_singleton.1 hafter]
  exact ⟨other, List.mem_singleton_self _, hbefore, hrest⟩

theorem follows_char (h : ∀ {c t t'}, accepts c → related (c :: t) t' →
    ∃ t'', t' = c :: t'' ∧ related t t'') : Follows related (char accepts) := by
  rintro reading ⟨before, rest, captures⟩ after hbefore hrest hafter
  obtain ⟨c, t, hread, hc, rfl⟩ := exists_of_mem_outcomes_char hafter
  rw [hread] at hrest
  obtain ⟨t'', rfl, hlater⟩ := h hc hrest
  refine ⟨⟨some c, t'', captures⟩, ?_, rfl, hlater⟩
  rw [outcomes_char_cons, if_pos hc]
  exact List.mem_singleton_self _

theorem follows_look {holds : Option Char → Text → Bool}
    (h : ∀ {before t t'}, related t t' → holds before t → holds before t') :
    Follows related (look holds) := by
  intro reading other after hbefore hrest hafter
  obtain ⟨hholds, rfl⟩ := mem_outcomes_look.1 hafter
  refine ⟨other, mem_outcomes_look.2 ⟨?_, rfl⟩, hbefore, hrest⟩
  rw [hbefore]
  exact h hrest hholds

theorem Follows.append (hp : Follows related p) (hq : Follows related q) :
    Follows related (p ++ q) := by
  intro reading other after hbefore hrest hafter
  obtain ⟨middle, hmiddle, hafter⟩ := List.mem_flatMap.1 hafter
  obtain ⟨middle', hmiddle', hbefore, hrest⟩ := hp hbefore hrest hmiddle
  obtain ⟨later, hlater, hlast⟩ := hq hbefore hrest hafter
  exact ⟨later, List.mem_flatMap.2 ⟨middle', hmiddle', hlater⟩, hlast⟩

theorem Follows.either (hp : Follows related p) (hq : Follows related q) :
    Follows related (.either p q) := by
  intro reading other after hbefore hrest hafter
  rcases List.mem_append.1 hafter with hafter | hafter
  · obtain ⟨later, hlater, hlast⟩ := hp hbefore hrest hafter
    exact ⟨later, List.mem_append_left _ hlater, hlast⟩
  · obtain ⟨later, hlater, hlast⟩ := hq hbefore hrest hafter
    exact ⟨later, List.mem_append_right _ hlater, hlast⟩

theorem Follows.maybe (hp : Follows related p) : Follows related (maybe p) :=
  hp.either follows_done

theorem follows_anyOf {patterns : List Pattern} (h : ∀ p ∈ patterns, Follows related p) :
    Follows related (anyOf patterns) := by
  fun_induction anyOf patterns with
  | case1 => exact follows_char fun hc ↦ absurd hc (by decide)
  | case2 p => exact h p List.mem_cons_self
  | case3 p patterns _ ih =>
    exact (h p List.mem_cons_self).either (ih fun q hq ↦ h q (List.mem_cons_of_mem p hq))

theorem follows_append_assoc {r : Pattern} (h : Follows related (p ++ (q ++ r))) :
    Follows related (p ++ q ++ r) := by
  intro reading other after hbefore hrest hafter
  have hassoc (reading : Reading) : (p ++ q ++ r).outcomes reading = (p ++ (q ++ r)).outcomes reading :=
    List.flatMap_assoc
  rw [hassoc] at hafter ⊢
  exact h hbefore hrest hafter

theorem isSome_readAt_iff : (p.readAt reading).isSome ↔ ∃ after, after ∈ p.outcomes reading := by
  rw [readAt_eq_head?, List.isSome_head?]
  exact ⟨List.exists_mem_of_ne_nil _, fun ⟨_, h⟩ ↦ List.ne_nil_of_mem h⟩

theorem Follows.isSome_readAt {other : Reading} (hp : Follows related p)
    (hbefore : other.before = reading.before) (hrest : related reading.rest other.rest)
    (h : (p.readAt reading).isSome) : (p.readAt other).isSome := by
  obtain ⟨after, hafter⟩ := isSome_readAt_iff.1 h
  obtain ⟨later, hlater, -⟩ := hp hbefore hrest hafter
  exact isSome_readAt_iff.2 ⟨later, hlater⟩

end Recast.Pattern
