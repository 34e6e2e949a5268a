import Recast.Proofs.Normalization.Marks
import Recast.Proofs.Normalization.Opener
import Recast.Proofs.Text.Repeat

/-!
# Collapsing repeated terminators

Leaving one terminator of several in a row does not make work for the corrections before: a header
that is read in the collapsed code is also read in the code as it was, and so are a print statement
and the keyword of a branch.  Spacing and braces around the code are not touched.
-/

namespace Recast

open Text Pattern

/-! ## Reading over repeated marks -/

namespace Pattern

variable {mark : Char} {p q r : Pattern} {accepts : Char → Bool}

/-- Whether what the pattern describes does not depend on how often a mark is repeated. -/
def Stretches (mark : Char) (p : Pattern) : Prop :=
  ∀ ⦃u u'⦄, Repeats mark u u' → p.Describes u → p.Describes u'

/-- A stretch of the text that may be longer is read like the one that was. -/
theorem Stretches.follows (h : p.Stretches mark) (hp : p.lookFree) : Follows (Repeats mark) p := by
  rintro reading ⟨before, rest, captures⟩ after rfl hrest hafter
  obtain ⟨u, hu, hdescribes⟩ := exists_describes hafter
  rw [hu] at hrest
  obtain ⟨u', t', rfl, hu', ht'⟩ := hrest.exists_append
  obtain ⟨later, hlater, rfl, hbefore⟩ :=
    reads_of_describes hp (h hu' hdescribes) reading.before t' captures
  refine ⟨later, hlater, ?_, ht'⟩
  rw [hbefore, before_of_mem_outcomes hafter hu, endOf, endOf, hu'.getLast?_eq]

/-- Whether the pattern reads no such mark. -/
def rejects (mark : Char) : Pattern → Bool
  | done | look _ => true
  | char accepts => !accepts mark
  | seq first second | either first second => first.rejects mark && second.rejects mark
  | most round | fewest round | keep _ round => round.rejects mark

theorem notMem_of_rejects {u : Text} (hp : p.rejects mark) (h : p.Describes u) : mark ∉ u := by
  have hrounds {round : Pattern} {u : Text} (hround : ∀ {v}, round.Describes v → mark ∉ v)
      (h : ∃ pieces : List Text, u = pieces.flatten ∧ ∀ v ∈ pieces, round.Describes v) :
      mark ∉ u := by
    obtain ⟨pieces, rfl, hpieces⟩ := h
    intro hmem
    obtain ⟨v, hv, hmem⟩ := List.mem_flatten.1 hmem
    exact hround (hpieces v hv) hmem
  induction p generalizing u with
  | done | look =>
    obtain rfl := h
    exact List.not_mem_nil
  | char accepts =>
    obtain ⟨c, rfl, hc⟩ := h
    intro hmem
    rw [List.mem_singleton.1 hmem, rejects, hc] at hp
    exact absurd hp (by decide)
  | seq first second ihFirst ihSecond =>
    obtain ⟨hfirst, hsecond⟩ := Bool.and_eq_true_iff.1 hp
    obtain ⟨v, w, rfl, hv, hw⟩ := h
    exact fun hmem ↦ (List.mem_append.1 hmem).elim (ihFirst hfirst hv) (ihSecond hsecond hw)
  | either first second ihFirst ihSecond =>
    obtain ⟨hfirst, hsecond⟩ := Bool.and_eq_true_iff.1 hp
    exact h.elim (ihFirst hfirst) (ihSecond hsecond)
  | most round ih | fewest round ih => exact hrounds (ih hp) h
  | keep slot body ih => exact ih hp h

theorem follows_of_rejects (hmark : p.rejects mark) (hp : p.lookFree) :
    Follows (Repeats mark) p := by
  refine Stretches.follows (fun u u' hu h ↦ ?_) hp
  rwa [hu.eq_of_notMem (notMem_of_rejects hmark h)]

theorem follows_most_char : Follows (Repeats mark) (most (char accepts)) := by
  refine Stretches.follows (fun u u' hu h ↦ ?_) rfl
  rw [describes_most_char] at h ⊢
  exact fun c hc ↦ h c (hu.mem_iff.1 hc)

theorem follows_most1_char : Follows (Repeats mark) (most1 (char accepts)) := by
  refine Stretches.follows (fun u u' hu h ↦ ?_) rfl
  rw [describes_most1_char] at h ⊢
  refine ⟨?_, fun c hc ↦ h.2 c (hu.mem_iff.1 hc)⟩
  rintro rfl
  cases hu
  exact h.1 rfl

/-- A character and what may follow it, the mark included. -/
theorem follows_char_most {others : Char → Bool} (hmark : others mark) :
    Follows (Repeats mark) (char accepts ++ most (char others)) := by
  refine Stretches.follows (fun u u' hu h ↦ ?_) rfl
  obtain ⟨-, w, rfl, ⟨c, rfl, hc⟩, hw⟩ := h
  obtain ⟨n, u, rfl, hrest⟩ := hu.exists_replicate
  refine ⟨[c], _, rfl, ⟨c, rfl, hc⟩, describes_most_char.2 (List.forall_mem_append.2 ⟨?_, ?_⟩)⟩
  · intro d hd
    rw [List.eq_of_mem_replicate hd]
    exact hmark
  · exact fun d hd ↦ describes_most_char.1 hw d (hrest.mem_iff.1 hd)

theorem follows_edge : Follows (Repeats mark) edge :=
  follows_look fun hrest hholds ↦ by rwa [hrest.head?_eq]

theorem follows_textEnd (hmark : mark ≠ '\n') : Follows (Repeats mark) textEnd := by
  refine follows_look fun {_ t _} hrest hholds ↦ ?_
  have ht : mark ∉ t := by
    rcases Bool.or_eq_true_iff.1 hholds with hnil | hnewline
    · rw [List.isEmpty_iff.1 hnil]
      exact List.not_mem_nil
    · rw [eq_of_beq hnewline, List.mem_singleton]
      exact hmark
  rwa [hrest.eq_of_notMem ht]

theorem follows_notAhead_char : Follows (Repeats mark) (notAhead (char accepts)) := by
  refine follows_look fun {before t t'} hrest hholds ↦ ?_
  have hhead := hrest.head?_eq
  cases t with
  | nil =>
    cases hrest
    rfl
  | cons c t =>
    obtain ⟨u, rfl⟩ := List.head?_eq_some_iff.1 hhead
    simpa [readAt, run] using hholds

end Pattern

/-! ## Headers -/

namespace Normalization

theorem follows_indentHeader : Follows (Repeats ';') indentHeader := by
  refine (follows_of_rejects rfl rfl).append (follows_anyOf fun p hp ↦ ?_)
  simp only [List.mem_cons, List.not_mem_nil, or_false] at hp
  rcases hp with rfl | rfl | rfl | rfl | rfl | rfl | rfl | rfl | rfl | rfl | rfl | rfl | rfl <;>
    first
    | exact follows_of_rejects rfl rfl
    | exact (follows_of_rejects rfl rfl).append follows_edge

theorem follows_colonOnlyHeaders : ∀ p ∈ colonOnlyHeaders, Follows (Repeats ';') p := by
  intro p hp
  simp only [colonOnlyHeaders, List.mem_cons, List.not_mem_nil, or_false] at hp
  rcases hp with rfl | rfl | rfl | rfl | rfl
  · exact (((((follows_of_rejects rfl rfl).append follows_most_char).append
      (follows_of_rejects rfl rfl)).append (follows_of_rejects rfl rfl)).append
        (((follows_of_rejects rfl rfl).append follows_most1_char).maybe)).append
          (follows_textEnd (by decide))
  · exact (follows_of_rejects rfl rfl).append follows_edge
  · exact follows_of_rejects rfl rfl
  · exact (follows_of_rejects rfl rfl).append follows_edge
  · exact (follows_of_rejects rfl rfl).append follows_notAhead_char

theorem follows_functionHeader : Follows (Repeats ';') functionHeader :=
  ((((follows_of_rejects rfl rfl).append follows_edge).append (follows_of_rejects rfl rfl)).append
    (follows_of_rejects rfl rfl)).append (follows_textEnd (by decide))

theorem follows_bareHeader : Follows (Repeats ';') bareHeader :=
  (follows_of_rejects rfl rfl).append (follows_textEnd (by decide))

theorem follows_classHeader : Follows (Repeats ';') classHeader :=
  (follows_of_rejects rfl rfl).append (follows_textEnd (by decide))

theorem follows_methodHeader : Follows (Repeats ';') methodHeader :=
  (follows_of_rejects rfl rfl).append (follows_textEnd (by decide))

theorem follows_parenlessHeader : Follows (Repeats ';') parenlessHeader := by
  refine ((follows_of_rejects rfl rfl).append (follows_anyOf fun p hp ↦ ?_)).append
    (follows_textEnd (by decide))
  simp only [List.mem_cons, List.not_mem_nil, or_false] at hp
  rcases hp with rfl | rfl | rfl | rfl | rfl | rfl | rfl | rfl
  · exact follows_append_assoc ((follows_of_rejects rfl rfl).append (follows_char_most rfl))
  · exact ((follows_of_rejects rfl rfl).append follows_edge).append follows_most_char
  · exact follows_of_rejects rfl rfl
  · exact follows_append_assoc ((follows_of_rejects rfl rfl).append (follows_char_most rfl))
  · exact ((follows_of_rejects rfl rfl).append follows_edge).append follows_most_char
  · exact (follows_of_rejects rfl rfl).append follows_most_char
  · exact (((follows_of_rejects rfl rfl).append follows_most_char).append
      (follows_of_rejects rfl rfl)).append (follows_of_rejects rfl rfl)
  · exact (((follows_of_rejects rfl rfl).append follows_most_char).append
      (follows_of_rejects rfl rfl)).append ((follows_of_rejects rfl rfl).append follows_most1_char).maybe

/-- What stands before the parenthesis of a condition. -/
def parenOpening : Pattern :=
  blanks ++ closer? ++ maybe (modifier ["else"])
    ++ anyOf ["if", "for", "while", "switch", "catch"] ++ blanks

variable {t u v : Text} {reading : Reading}

theorem exists_of_readStart_parenHeader (h : parenHeader.readStart t = some reading) :
    ∃ v, t = v ++ reading.rest ∧ parenOpening.Describes v ∧ reading.rest.head? = some '(' := by
  obtain ⟨middle, hmiddle, hlook⟩ := List.mem_flatMap.1 (mem_outcomes_of_readAt h)
  obtain ⟨hholds, rfl⟩ := mem_outcomes_look.1 hlook
  obtain ⟨v, hv, hdescribes⟩ := exists_describes hmiddle
  refine ⟨v, hv, hdescribes, ?_⟩
  cases hrest : reading.rest with
  | nil => simp [hrest, readAt, run] at hholds
  | cons c rest => simpa [hrest, readAt, run] using hholds

theorem isSome_readStart_parenHeader (hv : parenOpening.Describes v) (ht : t.head? = some '(') :
    (parenHeader.readStart (v ++ t)).isSome := by
  have hreads : parenOpening.Reads v := reads_of_describes rfl hv
  obtain ⟨after, hafter, rfl, -⟩ := hreads none t []
  refine isSome_readAt_iff.2 ⟨after, List.mem_flatMap.2 ⟨after, hafter, mem_outcomes_look.2 ⟨?_, rfl⟩⟩⟩
  obtain ⟨rest, hrest⟩ := List.head?_eq_some_iff.1 ht
  simp [hrest, readAt, run]

/-- The condition starts at the first parenthesis. -/
theorem dropWhile_of_readStart_parenHeader (h : parenHeader.readStart t = some reading) :
    t.dropWhile (· != '(') = reading.rest := by
  obtain ⟨v, rfl, hv, hhead⟩ := exists_of_readStart_parenHeader h
  have hbefore : '(' ∉ v := notMem_of_rejects rfl hv
  obtain ⟨rest, hrest⟩ := List.head?_eq_some_iff.1 hhead
  rw [List.dropWhile_append_of_pos fun c hc ↦ by simpa using ne_of_mem_of_not_mem hc hbefore, hrest]
  exact List.dropWhile_cons_of_neg (by decide)

theorem isSome_readStart_parenHeader_iff (h : Repeats ';' t u) :
    (parenHeader.readStart u).isSome ↔ (parenHeader.readStart t).isSome := by
  constructor
  · intro hsome
    obtain ⟨reading, hread⟩ := Option.isSome_iff_exists.1 hsome
    obtain ⟨v, rfl, hv, hhead⟩ := exists_of_readStart_parenHeader hread
    obtain ⟨t, rfl, hrest⟩ := h.exists_append_right (notMem_of_rejects rfl hv)
    exact isSome_readStart_parenHeader hv (hrest.head?_eq ▸ hhead)
  · intro hsome
    obtain ⟨reading, hread⟩ := Option.isSome_iff_exists.1 hsome
    obtain ⟨v, rfl, hv, hhead⟩ := exists_of_readStart_parenHeader hread
    obtain ⟨u, rfl, hrest⟩ := h.exists_append_of_notMem (notMem_of_rejects rfl hv)
    exact isSome_readStart_parenHeader hv (hrest.head?_eq ▸ hhead)

end Normalization

namespace Correction

open Normalization

variable {source? : Option Profile} {t u : Text}

theorem accepts_of_follows {p : Pattern} (hp : Follows (Repeats ';') p) (h : Repeats ';' t u)
    (haccepts : p.accepts t) : p.accepts u := by
  have hbefore : (Reading.start u).before = (Reading.start t).before := rfl
  exact hp.isSome_readAt hbefore h haccepts

/-- Code that is the header of a block in braces is one with repeated terminators. -/
theorem isBraceHeader_of_repeats (h : Repeats ';' t u) (hlast : ∀ c ∈ t.getLast?, isBlank c = false)
    (hheader : isBraceHeader source? t) : isBraceHeader source? u := by
  unfold isBraceHeader at hheader ⊢
  split at hheader
  · rename_i reading hread
    have hsome := (isSome_readStart_parenHeader_iff h).2 (Option.isSome_iff_exists.2 ⟨reading, hread⟩)
    obtain ⟨later, hlater⟩ := Option.isSome_iff_exists.1 hsome
    have hrest : Repeats ';' reading.rest later.rest := by
      rw [← dropWhile_of_readStart_parenHeader hread, ← dropWhile_of_readStart_parenHeader hlater]
      exact h.dropWhile _
    obtain ⟨v, rfl, -, hhead⟩ := exists_of_readStart_parenHeader hread
    have hend : ∀ c ∈ reading.rest.getLast?, isBlank c = false := by
      intro c hc
      refine hlast c ?_
      rw [List.getLast?_append, Option.mem_def.1 hc]
      rfl
    have hunwrapped := hrest.unwrapParens_ne hhead hend (by simpa using hheader)
    rw [hlater]
    simpa using hunwrapped
  · rename_i hnone
    have hsome := mt (isSome_readStart_parenHeader_iff h).1 (by simp [hnone])
    rw [Option.not_isSome_iff_eq_none.1 hsome]
    simp only [Bool.or_eq_true] at hheader ⊢
    refine hheader.imp (accepts_of_follows follows_functionHeader h) fun hothers ↦ ?_
    cases source? with
    | none => exact hothers
    | some source =>
      simp only [Bool.or_eq_true, Bool.and_eq_true] at hothers ⊢
      exact hothers.imp (Or.imp (Or.imp (accepts_of_follows follows_bareHeader h)
        (accepts_of_follows follows_classHeader h)) (accepts_of_follows follows_methodHeader h))
          (And.imp_right (accepts_of_follows follows_parenlessHeader h))

theorem endsWithAny_eq_of_repeats (chars : Text) (h : Repeats ';' t u) :
    endsWithAny u (chars.map ([·])) = endsWithAny t (chars.map ([·])) := by
  simp only [endsWithAny, List.any_map, Function.comp_def, endsWith_singleton, h.getLast?_eq]

theorem needsColon_of_repeats (h : Repeats ';' t u) (hneeds : needsColon source? t) :
    needsColon source? u := by
  have hends : endsWithAny u [":", ['{'], "\\", ",", "(", ";", "["]
      = endsWithAny t [":", ['{'], "\\", ",", "(", ";", "["] :=
    endsWithAny_eq_of_repeats [':', '{', '\\', ',', '(', ';', '['] h
  have hempty : u.isEmpty = t.isEmpty := by cases h <;> rfl
  simp only [needsColon, hends, hempty, h.hasTopLevelColon_eq, Bool.and_eq_true] at hneeds ⊢
  refine ⟨⟨hneeds.1.1, ?_⟩, hneeds.2⟩
  cases source? with
  | none =>
    obtain ⟨p, hp, haccepts⟩ := List.any_eq_true.1 hneeds.1.2
    exact List.any_eq_true.2 ⟨p, hp, accepts_of_follows (follows_colonOnlyHeaders p hp) h haccepts⟩
  | some source => exact accepts_of_follows follows_indentHeader h hneeds.1.2

end Correction

/-! ## Collapsing -/

namespace Normalization

variable {t u : Text} {before : Option Char} {reading : Reading}

/-- Code with one terminator of several in a row. -/
def collapse (code : Text) : Text :=
  terminatorRun.replace (fun _ ↦ ";") code

theorem not_describes_terminatorRun : ¬ terminatorRun.Describes [] := by
  rintro ⟨v, w, hnil, hv, -⟩
  rw [describes_mark.1 hv] at hnil
  simp at hnil

/-- A row of terminators is read to its end. -/
theorem readAt_terminatorRun (n : Nat) (ht : ∀ c ∈ t.head?, c ≠ ';') (before : Option Char) :
    terminatorRun.readAt ⟨before, List.replicate (n + 2) ';' ++ t, []⟩ = some ⟨some ';', t, []⟩ := by
  have hrun : (most1 (char (· == ';'))).readAt ⟨some ';', List.replicate (n + 1) ';' ++ t, []⟩
      = some ⟨endOf (some ';') (List.replicate (n + 1) ';'), t, []⟩ :=
    readAt_most1_char (by simp) (by simp) (by simpa using ht)
  have hlast : endOf (some ';') (List.replicate (n + 1) ';') = some ';' := by
    rw [endOf, List.replicate_succ', List.getLast?_concat]
    rfl
  rw [hlast] at hrun
  exact readAt_append rfl hrun

theorem exists_replicate_append (t : Text) :
    ∃ n rest, t = List.replicate n ';' ++ rest ∧ ∀ c ∈ rest.head?, c ≠ ';' := by
  induction t with
  | nil => exact ⟨0, [], rfl, by simp⟩
  | cons c t ih =>
    by_cases hc : c = ';'
    · obtain ⟨n, rest, rfl, hrest⟩ := ih
      exact ⟨n + 1, rest, by rw [hc]; rfl, hrest⟩
    · exact ⟨0, c :: t, rfl, by simpa using hc⟩

/-- Where a row of terminators is read, all of it is read. -/
theorem exists_of_readAt_terminatorRun (h : terminatorRun.readAt ⟨before, t, []⟩ = some reading) :
    ∃ n, t = List.replicate (n + 2) ';' ++ reading.rest ∧ ∀ c ∈ reading.rest.head?, c ≠ ';' := by
  obtain ⟨n, rest, rfl, hrest⟩ := exists_replicate_append t
  obtain ⟨old, hold, v, w, rfl, hv, hw⟩ := exists_describes (mem_outcomes_of_readAt h)
  obtain ⟨hne, hw⟩ := describes_most1_char.1 hw
  obtain ⟨c, w, rfl⟩ := List.exists_cons_of_ne_nil hne
  rw [describes_mark.1 hv, eq_of_beq (hw c List.mem_cons_self)] at hold
  match n, hold with
  | 0, hold =>
    have hhead : rest.head? = some ';' := congrArg List.head? hold
    exact absurd rfl (hrest ';' hhead)
  | 1, hold =>
    have hhead : rest.head? = some ';' := congrArg (fun t ↦ t.tail.head?) hold
    exact absurd rfl (hrest ';' hhead)
  | n + 2, _ =>
    rw [readAt_terminatorRun n hrest] at h
    obtain rfl := Option.some.inj h
    exact ⟨n, rfl, hrest⟩

theorem repeats_of_replaces (h : Replaces terminatorRun (fun _ ↦ ";") before t u) :
    Repeats ';' u t := by
  induction h with
  | nil => exact .nil
  | @keep before c t u _ _ ih => exact .keep c ih
  | @swap before old u reading _ hread _ ih =>
    obtain ⟨n, hn, -⟩ := exists_of_readAt_terminatorRun hread
    rw [hn]
    exact Repeats.append (.replicate (n + 1)) ih

theorem repeats_collapse (code : Text) : Repeats ';' (collapse code) code :=
  repeats_of_replaces (replaces_replace not_describes_terminatorRun code)

/-- Whether no terminator follows another. -/
def IsCollapsed (t : Text) : Prop :=
  t.IsChain fun c d ↦ c = ';' → d ≠ ';'

theorem isCollapsed_of_replaces (h : Replaces terminatorRun (fun _ ↦ ";") before t u) :
    IsCollapsed u := by
  induction h with
  | nil => exact .nil
  | @keep before c t u hread h ih =>
    refine List.isChain_cons.2 ⟨?_, ih⟩
    rintro d hd rfl rfl
    rw [← (repeats_of_replaces h).head?_eq] at hd
    obtain ⟨t, rfl⟩ := List.head?_eq_some_iff.1 hd
    obtain ⟨n, rest, rfl, hrest⟩ := exists_replicate_append t
    exact absurd (hread.symm.trans (readAt_terminatorRun n hrest before)) (by simp)
  | @swap before old u reading _ hread h ih =>
    obtain ⟨n, -, hrest⟩ := exists_of_readAt_terminatorRun hread
    refine List.isChain_cons.2 ⟨fun d hd _ ↦ hrest d ?_, ih⟩
    rwa [(repeats_of_replaces h).head?_eq]

theorem IsCollapsed.eq_of_replaces (ht : IsCollapsed t)
    (h : Replaces terminatorRun (fun _ ↦ ";") before t u) : u = t := by
  induction h with
  | nil => rfl
  | keep _ _ ih => rw [ih ht.tail]
  | @swap before old u reading _ hread _ _ =>
    obtain ⟨n, hn, -⟩ := exists_of_readAt_terminatorRun hread
    rw [hn] at ht
    exact absurd rfl ((List.isChain_cons.1 ht).1 ';' rfl rfl)

theorem collapse_collapse (code : Text) : collapse (collapse code) = collapse code :=
  (isCollapsed_of_replaces (replaces_replace not_describes_terminatorRun code)).eq_of_replaces
    (replaces_replace not_describes_terminatorRun _)

end Normalization

/-! ## Tight code -/

namespace Normalization

variable {least : Nat} {mark : Char} {last : Bool} {t u : Text} {segments : List Segment}

theorem isWide_eq_of_repeats (h : Repeats ';' t u) : isWide least u = isWide least t := by
  rw [isWide, isWide, h.takeWhile_eq (by decide), (h.dropWhile isSpacing).head?_eq]

theorem CommasFollowInk.of_repeats (hu : CommasFollowInk u) (h : Repeats ';' t u) :
    CommasFollowInk t := by
  induction h with
  | nil => exact .nil
  | keep c h ih =>
    obtain ⟨hc, hu⟩ := List.isChain_cons.1 hu
    exact List.isChain_cons.2 ⟨h.head?_eq ▸ hc, ih hu⟩
  | again _ ih => exact ih hu.tail

theorem CommasPrecedeInk.of_repeats (hu : CommasPrecedeInk u) (h : Repeats ';' t u) :
    CommasPrecedeInk t := by
  induction h with
  | nil => exact hu
  | keep c h ih =>
    obtain ⟨hc, hu⟩ := commasPrecedeInk_cons.1 hu
    rw [isWide_eq_of_repeats h] at hc
    exact commasPrecedeInk_cons.2 ⟨hc, ih hu⟩
  | again _ ih => exact ih (commasPrecedeInk_cons.1 hu).2

theorem EndsTight.of_repeats (hu : EndsTight least mark u) (hmark : mark ≠ ';') (h : Repeats ';' t u) :
    EndsTight least mark t := by
  rintro x s rfl hs hlength
  obtain ⟨xs, m, rfl, hxs, hm⟩ := h.exists_append
  obtain ⟨x', s', rfl, hx, hs'⟩ := hxs.exists_append
  have hspacing : ';' ∉ s := fun hc ↦ absurd (hs ';' hc) (by decide)
  rw [hm.eq_of_notMem (by simpa using hmark.symm), hs'.eq_of_notMem hspacing] at hu
  rw [← hx.getLast?_eq]
  exact hu x' s rfl hs hlength

theorem IsTight.of_repeats (hu : IsTight last u) (h : Repeats ';' t u) : IsTight last t :=
  ⟨hu.followInk.of_repeats h, hu.precedeInk.of_repeats h,
    fun hlast ↦ (hu.colon hlast).of_repeats (by decide) h,
    fun hlast ↦ (hu.brace hlast).of_repeats (by decide) h⟩

theorem AllTight.collapse (h : AllTight segments) :
    AllTight (segments.map (Segment.mapCode collapse)) := by
  induction segments with
  | nil => trivial
  | cons segment segments ih =>
    refine ⟨fun hkind ↦ ?_, ih h.2⟩
    rw [List.isEmpty_map]
    obtain ⟨kind, t⟩ := segment
    cases kind with
    | code => exact (h.1 rfl).of_repeats (repeats_collapse t)
    | string | comment => exact absurd hkind (by simp [Segment.mapCode])

theorem repeats_spellCode (segments : List Segment) :
    Repeats ';' (Markers.spellCode (segments.map (Segment.mapCode collapse)))
      (Markers.spellCode segments) := by
  induction segments with
  | nil => exact .nil
  | cons segment segments ih =>
    obtain ⟨kind, t⟩ := segment
    cases kind with
    | code =>
      rw [List.map_cons, Markers.spellCode_cons (by simp [Segment.mapCode]),
        Markers.spellCode_cons (by simp)]
      exact (repeats_collapse t).append ih
    | string =>
      rw [List.map_cons, Markers.spellCode_cons (by simp [Segment.mapCode]),
        Markers.spellCode_cons (by simp)]
      exact (Repeats.refl t).append ih
    | comment =>
      cases segments with
      | nil => exact .nil
      | cons => exact (Repeats.refl t).append ih

theorem repeats_textOf (segments : List Segment) :
    Repeats ';' (Segment.textOf (segments.map (Segment.mapCode collapse)))
      (Segment.textOf segments) := by
  induction segments with
  | nil => exact .nil
  | cons segment segments ih =>
    rw [List.map_cons, Segment.textOf_cons, Segment.textOf_cons]
    refine Repeats.append ?_ ih
    rw [Segment.mapCode]
    split
    · exact repeats_collapse _
    · exact .refl _

end Normalization

/-! ## Lines -/

namespace Correction

open Normalization

variable {source? : Option Profile} {source : Profile} {marks : Markers} {line other : Text}
  {target : Language}

theorem segments_mapCode_collapse (hmarks : marks.IsUsual) (line : Text) :
    marks.segments (marks.mapCode collapse line) = (marks.segments line).map (Segment.mapCode collapse) := by
  refine Segment.segments_mapCode hmarks.isApart (fun t ↦ (edits_terminatorRun t).mono fun h ↦ ?_) line
  cases h
  exact ⟨by simp, hmarks.isNeutral_of_mem (by decide)⟩

theorem mapCode_collapse_mapCode (hmarks : marks.IsUsual) (line : Text) :
    marks.mapCode collapse (marks.mapCode collapse line) = marks.mapCode collapse line := by
  have htwice : Segment.mapCode collapse ∘ Segment.mapCode collapse = Segment.mapCode collapse := by
    funext ⟨kind, t⟩
    cases kind with
    | code => simp [Segment.mapCode, collapse_collapse]
    | string | comment => rfl
  calc
    marks.mapCode collapse (marks.mapCode collapse line)
        = Segment.textOf (((marks.segments line).map (Segment.mapCode collapse)).map
            (Segment.mapCode collapse)) := by
      rw [← Segment.textOf_map_mapCode, segments_mapCode_collapse hmarks]
    _ = marks.mapCode collapse line := by rw [List.map_map, htwice, Segment.textOf_map_mapCode]

theorem mendTerminators_cases (source? : Option Profile) (line : Text) :
    mendTerminators source? line = line
      ∨ mendTerminators source? line = (markersOf source?).mapCode collapse line := by
  rw [mendTerminators]
  split
  · exact .inl rfl
  · exact .inr rfl

/-- Mending terminators leaves none to be mended. -/
theorem mendTerminators_mendTerminators (hmarks : (markersOf source?).IsUsual) (line : Text) :
    mendTerminators source? (mendTerminators source? line) = mendTerminators source? line := by
  rcases mendTerminators_cases source? line with heq | heq
  · rw [heq, heq]
  · rw [heq]
    rcases mendTerminators_cases source? ((markersOf source?).mapCode collapse line) with h | h
    · exact h
    · rw [h, mapCode_collapse_mapCode hmarks]

theorem isTidy_mendTerminators (hmarks : (markersOf source?).IsUsual)
    (h : IsTidy (markersOf source?) line) :
    IsTidy (markersOf source?) (mendTerminators source? line) := by
  rcases mendTerminators_cases source? line with heq | heq
  · rwa [heq]
  · rw [heq]
    constructor
    · rw [← Segment.textOf_map_mapCode, ← (repeats_textOf _).getLast?_eq, Markers.textOf_segments]
      exact h.trimmed
    · rw [segments_mapCode_collapse hmarks]
      exact h.allTight.collapse

theorem repeats_mendTerminators (source? : Option Profile) (line : Text) :
    Repeats ';' (mendTerminators source? line) line := by
  rcases mendTerminators_cases source? line with heq | heq
  · rw [heq]
    exact .refl line
  · have h := repeats_textOf ((markersOf source?).segments line)
    rwa [Segment.textOf_map_mapCode, Markers.textOf_segments, ← heq] at h

theorem repeats_bareCode (hmarks : (markersOf source?).IsUsual) (line : Text) :
    Repeats ';' (bareCode (markersOf source?) (mendTerminators source? line))
      (bareCode (markersOf source?) line) := by
  rcases mendTerminators_cases source? line with heq | heq
  · rw [heq]
    exact .refl _
  · rw [heq, bareCode, bareCode, Markers.splitComment_fst_eq_spellCode,
      Markers.splitComment_fst_eq_spellCode, segments_mapCode_collapse hmarks]
    exact (repeats_spellCode _).trimEnd

/-! ## What collapsing leaves alone -/

theorem startsWith_eq_of_repeats {t u w : Text} (h : Repeats ';' t u) (hw : ';' ∉ w) :
    startsWith u w = startsWith t w := by
  rw [Bool.eq_iff_iff, startsWith, startsWith, List.isPrefixOf_iff_prefix, List.isPrefixOf_iff_prefix]
  constructor
  · rintro ⟨rest, rfl⟩
    obtain ⟨t', rfl, -⟩ := h.exists_append_right hw
    exact List.prefix_append w t'
  · rintro ⟨rest, rfl⟩
    obtain ⟨u', rfl, -⟩ := h.exists_append_of_notMem hw
    exact List.prefix_append w u'

theorem startsWithAny_eq_of_repeats {t u : Text} {words : List Text} (h : Repeats ';' t u)
    (hwords : ∀ w ∈ words, ';' ∉ w) : startsWithAny u words = startsWithAny t words := by
  rw [startsWithAny, startsWithAny, Bool.eq_iff_iff, List.any_eq_true, List.any_eq_true]
  exact exists_congr fun w ↦ and_congr_right fun hw ↦ by
    rw [startsWith_eq_of_repeats h (hwords w hw)]

theorem isCommentLine_eq_of_repeats {t u : Text} (hmarks : (markersOf source?).IsUsual)
    (h : Repeats ';' t u) : isCommentLine source? u = isCommentLine source? t := by
  cases source? with
  | none => exact startsWithAny_eq_of_repeats h (by decide)
  | some source =>
    have hneutral : source.markers.isNeutral ';' := hmarks.isNeutral ';' (by decide)
    have hcomments := startsWithAny_eq_of_repeats h (Markers.isNeutral_iff.1 hneutral).2.2
    have hblock : startsWithAny u ["/*", "*/", "* "] = startsWithAny t ["/*", "*/", "* "] :=
      startsWithAny_eq_of_repeats h (by decide)
    have hstar : (u == ("*" : Text)) = (t == ("*" : Text)) := by
      rw [Bool.eq_iff_iff, beq_iff_eq, beq_iff_eq]
      constructor
      · rintro rfl
        obtain ⟨t', rfl, hnil⟩ := h.exists_append_right (v := ['*']) (u := []) (by decide)
        cases hnil
        rfl
      · rintro rfl
        exact h.eq_of_notMem (by decide)
    simp only [isCommentLine, Profile.isComment, hcomments, hblock, hstar]

theorem isCodeLine_mendTerminators (hmarks : (markersOf source?).IsUsual) (line : Text) :
    isCodeLine source? (mendTerminators source? line) = isCodeLine source? line := by
  have htrim := (repeats_mendTerminators source? line).trim
  have hempty : (trim line).isEmpty = (trim (mendTerminators source? line)).isEmpty := by
    generalize trim line = u at htrim
    generalize trim (mendTerminators source? line) = t at htrim
    cases htrim <;> rfl
  rw [isCodeLine, isCodeLine, hempty, isCommentLine_eq_of_repeats hmarks htrim]

theorem lacksColon_mendTerminators (hmarks : (markersOf source?).IsUsual)
    (h : lacksColon source? line = false) :
    lacksColon source? (mendTerminators source? line) = false := by
  rw [← Bool.not_eq_true] at h ⊢
  refine mt (fun hlacks ↦ ?_) h
  rw [lacksColon, isCodeLine_mendTerminators hmarks, Bool.and_eq_true_iff] at hlacks
  exact Bool.and_eq_true_iff.2
    ⟨hlacks.1, needsColon_of_repeats (repeats_bareCode hmarks line) hlacks.2⟩

theorem lacksBrace_of_mendTerminators (hmarks : (markersOf source?).IsUsual)
    (h : lacksBrace source? (mendTerminators source? line)) : lacksBrace source? line := by
  have hcode := repeats_bareCode hmarks line
  have hends : endsWithAny (bareCode (markersOf source?) line) [['{'], ";", ['}'], ","]
      = endsWithAny (bareCode (markersOf source?) (mendTerminators source? line))
          [['{'], ";", ['}'], ","] :=
    endsWithAny_eq_of_repeats ['{', ';', '}', ','] hcode
  simp only [lacksBrace, isCodeLine_mendTerminators hmarks, Bool.and_eq_true, ← hends] at h ⊢
  exact ⟨h.1, h.2.1, isBraceHeader_of_repeats hcode (fun c ↦ isBlank_of_getLast?_bareCode) h.2.2⟩

theorem BracesStand.mendTerminators (hmarks : (markersOf source?).IsUsual) {lines : List Text}
    (h : BracesStand source? lines) : BracesStand source? (lines.map (mendTerminators source?)) := by
  induction lines with
  | nil => trivial
  | cons line following ih =>
    have hnext : opensNext (following.map (Correction.mendTerminators source?)) = opensNext following := by
      apply opensNext_eq_of_forall₂
      rw [List.forall₂_map_right_iff, List.forall₂_same]
      exact fun line _ ↦ (repeats_mendTerminators source? line).find?_eq.symm
    refine ⟨?_, ih h.2⟩
    have hstands := h.1
    rw [hnext]
    rw [← Bool.not_eq_true, Bool.and_eq_true_iff] at hstands ⊢
    exact mt (And.imp_left (lacksBrace_of_mendTerminators hmarks)) hstands

theorem PrintsByCall.mendTerminators (hmarks : (markersOf (some source)).IsUsual) (hline : '\n' ∉ line)
    (h : PrintsByCall source line) : PrintsByCall source (mendTerminators (some source) line) := by
  have hmended : '\n' ∉ Correction.mendTerminators (some source) line :=
    newline_notMem_mendTerminators hline
  have hcode : Repeats ';' (bareCode source.markers (Correction.mendTerminators (some source) line))
      (bareCode source.markers line) := repeats_bareCode hmarks line
  rw [printsByCall_iff hline] at h
  rw [printsByCall_iff hmended]
  intro indent b c args hprints
  have hopening : ';' ∉ indent ++ ("print" : Text) ++ b := by
    simp only [List.mem_append, not_or]
    exact ⟨⟨fun hc ↦ absurd (hprints.indent _ hc) (by decide), by decide⟩,
      fun hc ↦ absurd (hprints.gap.2 _ hc) (by decide)⟩
  rw [hprints.code_eq] at hcode
  obtain ⟨u, hu, hrest⟩ := hcode.exists_append_of_notMem hopening
  obtain ⟨args, rfl⟩ := List.head?_eq_some_iff.1 hrest.head?_eq
  exact h indent b c args ⟨hu, hprints.indent, hprints.gap, hprints.ink, hprints.mark⟩

theorem KeepsBranch.mendTerminators (h : KeepsBranch target line) :
    KeepsBranch target (mendTerminators source? line) := by
  intro indent keyword rest hbranch
  have hrepeats := repeats_mendTerminators source? line
  have hopening : ';' ∉ indent ++ keyword := fun hc ↦
    have hnot : ';' ∉ [';'] := notMem_of_isCloser (by decide) (hbranch.isCloser_or_mem _ hc)
    hnot (by decide)
  rw [hbranch.line_eq] at hrepeats
  obtain ⟨u, hu, hrest⟩ := hrepeats.exists_append_of_notMem hopening
  exact h ⟨hu, hbranch.indent, hbranch.keyword, hrest.head?_eq ▸ hbranch.edge⟩

/-! ## Quotes -/

/-- The text of a segment with its quotes mended. -/
def mendQuote (segment : Segment) : Text :=
  if segment.kind = .string then unifyQuotes segment.text else segment.text

theorem edits_mendQuote (segment : Segment) :
    Edits (Swap .quotes) segment.text (mendQuote segment) := by
  rw [mendQuote]
  split
  · exact edits_unifyQuotes segment.text
  · exact .refl _

theorem mendQuote_mapCode (f : Text → Text) (segment : Segment) (h : mendQuote segment = segment.text) :
    mendQuote (segment.mapCode f) = (segment.mapCode f).text := by
  obtain ⟨kind, t⟩ := segment
  cases kind with
  | code | comment => rfl
  | string => exact h

theorem total_countSigns_map {correction : Correction} (f : Segment → Text) (segments : List Segment) :
    total correction.countSigns (segments.map f) = correction.countSigns (segments.flatMap f) := by
  induction segments with
  | nil => rfl
  | cons segment segments ih =>
    rw [List.map_cons, total, ih, List.flatMap_cons, countSigns_append]

/-- Segments whose mended text is their text have all stayed the same. -/
theorem mendQuote_eq_of_flatMap {segments : List Segment}
    (h : segments.flatMap mendQuote = Segment.textOf segments) :
    ∀ segment ∈ segments, mendQuote segment = segment.text := by
  have hedits : List.Forall₂ (Edits (Swap .quotes)) (segments.map Segment.text)
      (segments.map mendQuote) := by
    rw [List.forall₂_map_left_iff, List.forall₂_map_right_iff, List.forall₂_same]
    exact fun segment _ ↦ edits_mendQuote segment
  have heq := eq_of_grows hedits (fun hswap ↦ hswap.countSigns_lt (by decide) (by decide) (by decide))
    (by rw [total_countSigns_map, total_countSigns_map, h]; rfl)
  exact List.map_inj_left.1 heq

theorem mendQuotes_mendTerminators (hmarks : (markersOf source?).IsUsual)
    (h : mendQuotes source? line = line) :
    mendQuotes source? (mendTerminators source? line) = mendTerminators source? line := by
  have hrepeats := repeats_mendTerminators source? line
  have hskip : (!(mendTerminators source? line).contains '\''
      || isCommentLine source? (trim (mendTerminators source? line)))
        = (!line.contains '\'' || isCommentLine source? (trim line)) := by
    have hquote : line.contains '\'' = (mendTerminators source? line).contains '\'' := by
      rw [Bool.eq_iff_iff, List.contains_iff_mem, List.contains_iff_mem]
      exact hrepeats.mem_iff
    rw [hquote, isCommentLine_eq_of_repeats hmarks hrepeats.trim]
  rw [mendQuotes] at h ⊢
  rw [hskip]
  split at h
  · rename_i hcomment
    rw [if_pos hcomment]
  · rename_i hcomment
    rw [if_neg hcomment]
    have hsegments : ((markersOf source?).segments line).flatMap mendQuote
        = Segment.textOf ((markersOf source?).segments line) := by
      rw [Markers.textOf_segments]
      exact h
    have hsame := mendQuote_eq_of_flatMap hsegments
    rcases mendTerminators_cases source? line with heq | heq
    · rw [heq]
      exact h
    · have hmapped : ((markersOf source?).segments line).map (mendQuote ∘ Segment.mapCode collapse)
          = ((markersOf source?).segments line).map (Segment.text ∘ Segment.mapCode collapse) :=
        List.map_inj_left.2 fun segment hsegment ↦ mendQuote_mapCode collapse segment (hsame segment hsegment)
      rw [heq, segments_mapCode_collapse hmarks, ← Segment.textOf_map_mapCode, Segment.textOf,
        List.flatMap_map, List.flatMap_map]
      exact congrArg List.flatten hmapped

end Correction

end Recast
