import Mathlib.Data.List.Chain
import Recast.Proofs.Normalization.Swaps
import Recast.Proofs.Pattern.Lazy

/-!
# Tight code

Tidying a stretch of code leaves no spacing before a comma, not much after one, none before a colon
at the end and one space before a brace there.  Code of this form is tight, and tidying leaves tight
code alone.
-/

namespace Recast.Normalization

open Text Pattern Logic

/-! ## Wide spacing -/

/-- Whether a text starts with at least `least` characters of spacing and then ink. -/
def isWide (least : Nat) (t : Text) : Bool :=
  least ≤ (t.takeWhile isSpacing).length && (t.dropWhile isSpacing).head?.any isInk

variable {least : Nat} {c : Char} {s t u v x : Text} {before : Option Char} {reading : Reading}

theorem isSpacing_of_isInk (hc : isInk c) : isSpacing c = false := by
  rw [← Bool.not_eq_true]
  intro hspacing
  rcases Bool.or_eq_true_iff.1 hspacing with h | h <;> rw [eq_of_beq h] at hc <;>
    exact absurd hc (by decide)

theorem isWide_append (hs : ∀ d ∈ s, isSpacing d) (hc : isInk c) :
    isWide least (s ++ c :: v) = decide (least ≤ s.length) := by
  have hnot : ¬ isSpacing c := by simp [isSpacing_of_isInk hc]
  rw [isWide, List.takeWhile_append_of_pos hs, List.dropWhile_append_of_pos hs,
    List.takeWhile_cons_of_neg hnot, List.dropWhile_cons_of_neg hnot]
  simp [hc]

theorem exists_of_isWide (h : isWide least t) :
    ∃ s c v, t = s ++ c :: v ∧ (∀ d ∈ s, isSpacing d) ∧ least ≤ s.length ∧ isInk c := by
  obtain ⟨hlength, hink⟩ := Bool.and_eq_true_iff.1 h
  cases hrest : t.dropWhile isSpacing with
  | nil => simp [hrest] at hink
  | cons c v =>
    refine ⟨t.takeWhile isSpacing, c, v, ?_, fun d ↦ List.mem_takeWhile_imp, ?_, ?_⟩
    · rw [← hrest, List.takeWhile_append_dropWhile]
    · simpa using hlength
    · simpa [hrest] using hink

theorem isWide_cons_of_isSpacing (hc : isSpacing c) (least : Nat) (t : Text) :
    isWide least (c :: t) = isWide (least - 1) t := by
  rw [isWide, isWide, List.takeWhile_cons_of_pos hc, List.dropWhile_cons_of_pos hc, List.length_cons]
  congr 2
  simp only [eq_iff_iff]
  omega

/-- Only the first character counts if it is no spacing. -/
theorem isWide_cons_of_not (hc : isSpacing c = false) (least : Nat) (t u : Text) :
    isWide least (c :: t) = isWide least (c :: u) := by
  simp [isWide, hc]

theorem isWide_eq_false_of_head (hc : ∀ c ∈ t.head?, isSpacing c = false) (hleast : 0 < least) :
    isWide least t = false := by
  cases t with
  | nil => simp [isWide]
  | cons c t => simp [isWide, hc c rfl, Nat.ne_of_gt hleast]

/-- What follows a text does not count if the text holds more than spacing. -/
theorem isWide_append_left (hc : c ∈ t) (hnot : isSpacing c = false) (u v : Text) :
    isWide least (t ++ u) = isWide least (t ++ v) := by
  induction t generalizing least with
  | nil => exact absurd hc List.not_mem_nil
  | cons d t ih =>
    cases hd : isSpacing d with
    | false => exact isWide_cons_of_not hd least _ _
    | true =>
      have hmem : c ∈ t := by
        refine (List.mem_cons.1 hc).resolve_left ?_
        rintro rfl
        exact Bool.false_ne_true (hnot.symm.trans hd)
      rw [List.cons_append, List.cons_append, isWide_cons_of_isSpacing hd,
        isWide_cons_of_isSpacing hd, ih hmem]

/-! ## Reading spacing -/

theorem readAt_spacedComma (hne : s ≠ []) (hs : ∀ d ∈ s, isSpacing d) (before : Option Char) :
    spacedComma.readAt ⟨before, s ++ ',' :: v, []⟩ = some ⟨some ',', v, []⟩ :=
  readAt_append (readAt_most1_char hs hne (by simp [isSpacing])) rfl

theorem exists_of_readAt_spacedComma (h : spacedComma.readAt ⟨before, t, []⟩ = some reading) :
    ∃ s, t = s ++ ',' :: reading.rest ∧ s ≠ [] ∧ ∀ d ∈ s, isSpacing d := by
  obtain ⟨old, hold, s, w, rfl, hs, hw⟩ := exists_describes (mem_outcomes_of_readAt h)
  obtain ⟨hne, hs⟩ := describes_spacing1.1 hs
  rw [describes_mark.1 hw] at hold
  exact ⟨s, by simpa using hold, hne, hs⟩

theorem isSome_readAt_wideComma (h : isWide 2 v) (before : Option Char) :
    (wideComma.readAt ⟨before, ',' :: v, []⟩).isSome := by
  obtain ⟨s, c, v, rfl, hs, hlength, hc⟩ := exists_of_isWide h
  match s, hlength with
  | d :: s, hlength =>
    obtain ⟨hd, hs⟩ := List.forall_mem_cons.1 hs
    have hne : s ≠ [] := by
      rintro rfl
      exact absurd hlength (by simp)
    have hmark : (char (· == ',') ++ char isSpacing).readAt ⟨before, ',' :: (d :: s ++ c :: v), []⟩
        = some ⟨some d, s ++ c :: v, []⟩ := readAt_append rfl (if_pos hd)
    have hrun := readAt_append hmark
      (readAt_most1_char hs hne (by simpa using isSpacing_of_isInk hc))
    have hlook : (ahead (char isInk)).readAt ⟨endOf (some d) s, c :: v, []⟩
        = some ⟨endOf (some d) s, c :: v, []⟩ := by
      simp [ahead, readAt, run, hc]
    exact Option.isSome_iff_exists.2 ⟨_, readAt_append hrun hlook⟩

theorem exists_of_readAt_wideComma (h : wideComma.readAt ⟨before, t, []⟩ = some reading) :
    ∃ s c v, t = ',' :: s ++ reading.rest ∧ reading.rest = c :: v ∧ isInk c
      ∧ (∀ d ∈ s, isSpacing d) ∧ 2 ≤ s.length := by
  obtain ⟨middle, hmiddle, hlook⟩ := List.mem_flatMap.1 (mem_outcomes_of_readAt h)
  obtain rfl := eq_of_mem_outcomes_look hlook
  obtain ⟨old, hold, -, s, rfl, ⟨v, -, rfl, hv, d, rfl, hd⟩, hs⟩ := exists_describes hmiddle
  have hink : ∃ c v, reading.rest = c :: v ∧ isInk c := by
    have hread := (mem_outcomes_look.1 hlook).1
    cases hrest : reading.rest with
    | nil => simp [hrest, readAt, run] at hread
    | cons c v =>
      refine ⟨c, v, rfl, ?_⟩
      by_contra hc
      simp [hrest, readAt, run, hc] at hread
  obtain ⟨c, w, hrest, hc⟩ := hink
  obtain ⟨hne, hs⟩ := describes_spacing1.1 hs
  refine ⟨d :: s, c, w, ?_, hrest, hc, List.forall_mem_cons.2 ⟨hd, hs⟩,
    Nat.succ_le_succ (List.length_pos_iff.2 hne)⟩
  rw [describes_mark.1 hv] at hold
  simpa using hold

/-! ## Commas -/

/-- Whether no spacing stands before a comma. -/
def CommasFollowInk (t : Text) : Prop :=
  t.IsChain fun c d ↦ d = ',' → isSpacing c = false

theorem commasFollowInk_of_replaces (h : Replaces spacedComma (fun _ ↦ ",") before t u) :
    CommasFollowInk u
      ∧ ∀ v, u = ',' :: v → ∃ s w, t = s ++ ',' :: w ∧ ∀ d ∈ s, isSpacing d := by
  induction h with
  | nil => exact ⟨.nil, fun v hv ↦ absurd hv (by simp)⟩
  | @keep before c t u hread h ih =>
    obtain ⟨hchain, hhead⟩ := ih
    refine ⟨List.isChain_cons.2 ⟨?_, hchain⟩, ?_⟩
    · rintro d hd rfl
      obtain ⟨v, rfl⟩ := List.head?_eq_some_iff.1 hd
      obtain ⟨s, w, rfl, hs⟩ := hhead v rfl
      rw [← Bool.not_eq_true]
      intro hc
      have hread' := readAt_spacedComma (s := c :: s) (v := w) (by simp)
        (List.forall_mem_cons.2 ⟨hc, hs⟩) before
      exact absurd (hread.symm.trans hread') (by simp)
    · intro v hv
      obtain ⟨rfl, -⟩ := List.cons.inj hv
      exact ⟨[], t, rfl, by simp⟩
  | @swap before old u reading hne hread h ih =>
    obtain ⟨s, hold, -, hs⟩ := exists_of_readAt_spacedComma hread
    refine ⟨List.isChain_cons.2 ⟨fun d _ _ ↦ by decide, ih.1⟩, fun v _ ↦ ?_⟩
    exact ⟨s, reading.rest, hold, hs⟩

/-- Whether what follows a comma does not stand far behind it. -/
def CommasPrecedeInk (t : Text) : Prop :=
  ∀ x v, t = x ++ ',' :: v → isWide 2 v = false

theorem commasPrecedeInk_cons :
    CommasPrecedeInk (c :: t) ↔ (c = ',' → isWide 2 t = false) ∧ CommasPrecedeInk t := by
  constructor
  · refine fun h ↦ ⟨?_, fun x v hv ↦ h (c :: x) v (by rw [hv, List.cons_append])⟩
    rintro rfl
    exact h [] t rfl
  · rintro ⟨hfirst, h⟩ x v hv
    cases x with
    | nil =>
      obtain ⟨rfl, rfl⟩ := List.cons.inj hv
      exact hfirst rfl
    | cons d x => exact h x v (List.cons.inj hv).2

theorem commas_of_replaces (h : Replaces wideComma (fun _ ↦ ", ") before t u)
    (ht : CommasFollowInk t) :
    CommasFollowInk u ∧ CommasPrecedeInk u ∧ u.head? = t.head?
      ∧ ∀ least, isWide least u = isWide least t := by
  induction h with
  | nil => exact ⟨.nil, fun x v hv ↦ absurd hv (by simp), rfl, fun _ ↦ rfl⟩
  | @keep before c t u hread h ih =>
    obtain ⟨hc, ht⟩ := List.isChain_cons.1 ht
    obtain ⟨hchain, hink, hhead, hwide⟩ := ih ht
    refine ⟨List.isChain_cons.2 ⟨hhead ▸ hc, hchain⟩, commasPrecedeInk_cons.2 ⟨?_, hink⟩, rfl, ?_⟩
    · rintro rfl
      rw [hwide, ← Bool.not_eq_true]
      intro hw
      have hsome := isSome_readAt_wideComma hw before
      rw [hread] at hsome
      exact Bool.false_ne_true hsome
    · intro least
      cases hspacing : isSpacing c with
      | false => exact isWide_cons_of_not hspacing least u t
      | true => rw [isWide_cons_of_isSpacing hspacing, isWide_cons_of_isSpacing hspacing, hwide]
  | @swap before old u reading hne hread h ih =>
    obtain ⟨s, c, v, hold, hrest, hc, hs, hlength⟩ := exists_of_readAt_wideComma hread
    have hne' : s ≠ [] := List.length_pos_iff.1 (by omega)
    rw [hold] at ht ⊢
    obtain ⟨-, hrestChain, hjoin⟩ := List.isChain_append.1 ht
    obtain ⟨hchain, hink, hhead, hwide⟩ := ih hrestChain
    have hblank : isSpacing c = false := isSpacing_of_isInk hc
    -- The first character after the spacing is no comma, or the spacing would stand before it.
    have hcomma : c ≠ ',' := by
      rintro rfl
      have hlast : s.getLast hne' ∈ (',' :: s).getLast? := by
        rw [List.getLast?_cons, List.getLast?_eq_some_getLast hne']
        rfl
      have hfalse := hjoin _ hlast ',' (by rw [hrest]; rfl) rfl
      rw [hs _ (List.getLast_mem hne')] at hfalse
      exact Bool.noConfusion hfalse
    have hheadU : u.head? = some c := by rw [hhead, hrest]; rfl
    change CommasFollowInk (',' :: ' ' :: u) ∧ CommasPrecedeInk (',' :: ' ' :: u)
      ∧ (',' :: ' ' :: u).head? = (',' :: s ++ reading.rest).head?
      ∧ ∀ least, isWide least (',' :: ' ' :: u) = isWide least (',' :: s ++ reading.rest)
    refine ⟨?_, ?_, rfl, fun least ↦ isWide_cons_of_not (by decide) least _ _⟩
    · refine List.isChain_cons.2 ⟨fun d _ _ ↦ by decide, List.isChain_cons.2 ⟨?_, hchain⟩⟩
      rintro d hd rfl
      rw [hheadU] at hd
      exact absurd (Option.some.inj hd) hcomma
    · refine commasPrecedeInk_cons.2 ⟨fun _ ↦ ?_, commasPrecedeInk_cons.2 ⟨fun h ↦ ?_, hink⟩⟩
      · rw [isWide_cons_of_isSpacing (by decide)]
        exact isWide_eq_false_of_head (by rw [hheadU]; simpa using hblank) (by decide)
      · exact absurd h (by decide)

/-! ## Marks at the end -/

/-- Whether the pattern reads spacing after ink and then the mark, at the end of a line. -/
structure ReadsEnd (p : Pattern) (least : Nat) (mark : Char) : Prop where
  shape : ∀ {before t reading}, '\n' ∉ t → p.readAt ⟨before, t, []⟩ = some reading →
    before.any isInk ∧ reading.rest = []
      ∧ ∃ s, t = s ++ [mark] ∧ (∀ d ∈ s, isSpacing d) ∧ least ≤ s.length
  reads : ∀ {before s}, before.any isInk → (∀ d ∈ s, isSpacing d) → least ≤ s.length →
    (p.readAt ⟨before, s ++ [mark], []⟩).isSome
  not_describes : ¬ p.Describes []

theorem readsEnd_spacedColon : ReadsEnd spacedColon 1 ':' where
  shape {before t reading} ht h := by
    obtain ⟨⟨-, w, rfl, ⟨-, s, rfl, rfl, hs⟩, hw⟩, hrest⟩ := describes_of_readAt_textEnd ht h
    obtain ⟨hne, hs⟩ := describes_spacing1.1 hs
    rw [describes_mark.1 hw]
    simp only [spacedColon, readAt_append_assoc] at h
    exact ⟨any_of_readAt_after h, hrest, s, rfl, hs, List.length_pos_iff.2 hne⟩
  reads {before s} hbefore hs hlength := by
    have hafter : (Pattern.after isInk).readAt ⟨before, s ++ [':'], []⟩
        = some ⟨before, s ++ [':'], []⟩ := if_pos hbefore
    have hrun := readAt_append hafter
      (readAt_most1_char hs (List.length_pos_iff.1 hlength) (by simp [isSpacing]))
    have hmark := readAt_append hrun (q := char (· == ':')) rfl
    exact Option.isSome_iff_exists.2 ⟨_, readAt_append hmark rfl⟩
  not_describes h := ne_nil_of_takes (by decide) h rfl

theorem readsEnd_wideBrace : ReadsEnd wideBrace 2 '{' where
  shape {before t reading} ht h := by
    obtain ⟨⟨-, w, rfl, ⟨-, s, rfl, ⟨-, -, rfl, rfl, c, rfl, hc⟩, hs⟩, hw⟩, hrest⟩ :=
      describes_of_readAt_textEnd ht h
    obtain ⟨hne, hs⟩ := describes_spacing1.1 hs
    rw [describes_mark.1 hw]
    simp only [wideBrace, readAt_append_assoc] at h
    exact ⟨any_of_readAt_after h, hrest, c :: s, rfl, List.forall_mem_cons.2 ⟨hc, hs⟩,
      Nat.succ_le_succ (List.length_pos_iff.2 hne)⟩
  reads {before s} hbefore hs hlength := by
    match s, hlength with
    | d :: s, hlength =>
      obtain ⟨hd, hs⟩ := List.forall_mem_cons.1 hs
      have hne : s ≠ [] := List.length_pos_iff.1 (Nat.le_of_succ_le_succ hlength)
      have hafter : (Pattern.after isInk).readAt ⟨before, d :: s ++ ['{'], []⟩
          = some ⟨before, d :: s ++ ['{'], []⟩ := if_pos hbefore
      have hfirst := readAt_append hafter (q := char isSpacing) (if_pos hd)
      have hrun := readAt_append hfirst (readAt_most1_char hs hne (by simp [isSpacing]))
      have hmark := readAt_append hrun (q := char (· == '{')) rfl
      exact Option.isSome_iff_exists.2 ⟨_, readAt_append hmark rfl⟩
  not_describes h := ne_nil_of_takes (by decide) h rfl

/-- Whether the mark, if the text ends in it, does not stand far behind the ink before it. -/
def EndsTight (least : Nat) (mark : Char) (t : Text) : Prop :=
  ∀ x s, t = x ++ s ++ [mark] → (∀ d ∈ s, isSpacing d) → least ≤ s.length →
    x.getLast?.any isInk = false

/-- Replacing at the end changes nothing, or it replaces the spacing and the mark. -/
theorem eq_or_of_replaces_end {p : Pattern} {mark : Char} {new : Text} (hp : ReadsEnd p least mark)
    (h : Replaces p (fun _ ↦ new) before t u) (ht : '\n' ∉ t) :
    (u = t ∧ ∀ x s, t = x ++ s ++ [mark] → (∀ d ∈ s, isSpacing d) → least ≤ s.length →
        (endOf before x).any isInk = false)
      ∨ ∃ x s, t = x ++ s ++ [mark] ∧ u = x ++ new ∧ (∀ d ∈ s, isSpacing d) ∧ least ≤ s.length
        ∧ (endOf before x).any isInk := by
  induction h with
  | nil => exact .inl ⟨rfl, fun x s hx ↦ absurd hx (by simp)⟩
  | @keep before c t u hread h ih =>
    rcases ih fun hc ↦ ht (List.mem_cons_of_mem c hc) with ⟨rfl, htight⟩ | ⟨x, s, rfl, rfl, hs, hlength, hink⟩
    · refine .inl ⟨rfl, fun x s hx hs hlength ↦ ?_⟩
      cases x with
      | nil =>
        rw [← Bool.not_eq_true]
        intro hbefore
        have hink : before.any isInk := by simpa [endOf] using hbefore
        have hsome := hp.reads hink hs hlength
        rw [List.nil_append] at hx
        rw [← hx, hread] at hsome
        exact Bool.false_ne_true hsome
      | cons d x =>
        obtain ⟨rfl, rfl⟩ := List.cons.inj hx
        rw [endOf_cons]
        exact htight x s rfl hs hlength
    · exact .inr ⟨c :: x, s, rfl, rfl, hs, hlength, by rwa [endOf_cons]⟩
  | @swap before old u reading hne hread h ih =>
    obtain ⟨hink, hrest, s, hs, hspacing, hlength⟩ := hp.shape ht hread
    rw [h.eq_nil hrest]
    exact .inr ⟨[], s, hs, by simp, hspacing, hlength, by simpa [endOf] using hink⟩

theorem endsTight_of_getLast? {mark : Char} (h : t.getLast? ≠ some mark) :
    EndsTight least mark t := by
  rintro x s rfl
  exact absurd (by simp) h

/-- Spacing that is not enough does not become enough behind ink. -/
theorem endsTight_append {mark : Char} (hx : ∀ c ∈ x.getLast?, isInk c) (hs : s.length < least) :
    EndsTight least mark (x ++ s ++ [mark]) := by
  intro y r heq hr hlength
  have hsplit : x ++ s = y ++ r := List.append_cancel_right heq
  rcases List.append_eq_append_iff.1 hsplit with ⟨a, rfl, rfl⟩ | ⟨a, rfl, rfl⟩
  · simp only [List.length_append] at hs
    omega
  · cases hlast : a.getLast? with
    | none =>
      rw [List.getLast?_eq_none_iff.1 hlast, List.nil_append] at hlength
      omega
    | some c =>
      have hink := hx c (by rw [List.getLast?_append, hlast]; rfl)
      have hspacing := hr c (List.mem_append_left s (List.mem_of_getLast? hlast))
      rw [isSpacing_of_isInk hink] at hspacing
      exact absurd hspacing Bool.false_ne_true

/-! ## Tight code -/

/-- Whether tidying leaves a stretch of code alone; `last` says that it ends the line. -/
structure IsTight (last : Bool) (t : Text) : Prop where
  followInk : CommasFollowInk t
  precedeInk : CommasPrecedeInk t
  colon : last → EndsTight 1 ':' t
  brace : last → EndsTight 2 '{' t

variable {last other : Bool} {w b mark new : Text}

theorem commasFollowInk_of_notMem (h : ',' ∉ t) : CommasFollowInk t := by
  induction t with
  | nil => exact .nil
  | cons c t ih =>
    obtain ⟨-, ht⟩ := not_or.1 (mt List.mem_cons.2 h)
    refine List.isChain_cons.2 ⟨?_, ih ht⟩
    rintro d hd rfl
    exact absurd (List.mem_of_head? hd) ht

theorem CommasFollowInk.append_of_notMem (h : CommasFollowInk (x ++ w)) (hnew : ',' ∉ new) :
    CommasFollowInk (x ++ new) := by
  refine List.isChain_append.2 ⟨(List.isChain_append.1 h).1, commasFollowInk_of_notMem hnew, ?_⟩
  rintro c - d hd rfl
  exact absurd (List.mem_of_head? hd) hnew

theorem CommasPrecedeInk.append_of_notMem (h : CommasPrecedeInk (x ++ w))
    (hx : ∀ c ∈ x.getLast?, isInk c) (hnew : ',' ∉ new) (hwide : isWide 2 new = false) :
    CommasPrecedeInk (x ++ new) := by
  intro y v heq
  rcases List.append_eq_append_iff.1 heq with ⟨a, rfl, ha⟩ | ⟨a, rfl, ha⟩
  · rw [ha] at hnew
    exact absurd (List.mem_append_right a List.mem_cons_self) hnew
  · cases a with
    | nil =>
      rw [List.nil_append] at ha
      rw [← ha] at hnew
      exact absurd List.mem_cons_self hnew
    | cons c a =>
      rw [List.cons_append] at ha
      obtain ⟨rfl, rfl⟩ := List.cons.inj ha
      cases hlast : a.getLast? with
      | none =>
        rw [List.getLast?_eq_none_iff.1 hlast, List.nil_append]
        exact hwide
      | some d =>
        have hd : isInk d := hx d (by rw [List.getLast?_append, List.getLast?_cons, hlast]; rfl)
        rw [isWide_append_left (List.mem_of_getLast? hlast) (isSpacing_of_isInk hd) new w]
        exact h y (a ++ w) (by simp)

/-- The marks that a correction puts behind the code of a line. -/
def endMarks : List Text :=
  [")", ":", [' ', '{']]

/-- A mark behind the ink of tight code leaves it tight. -/
theorem IsTight.append_mark (h : IsTight other (x ++ w)) (hx : ∀ c ∈ x.getLast?, isInk c)
    (hmark : mark ∈ endMarks) (hb : ∀ c ∈ b, isBlank c) (hlast : last → b = []) :
    IsTight last (x ++ mark ++ b) := by
  have hcomma : ',' ∉ mark ++ b := by
    have hmarks : endMarks.all (!·.contains ',') := by decide
    have hnot := List.all_eq_true.1 hmarks mark hmark
    refine fun hc ↦ (List.mem_append.1 hc).elim (by simpa using hnot) fun hc ↦ ?_
    exact absurd (hb ',' hc) (by decide)
  rw [List.append_assoc]
  refine ⟨h.followInk.append_of_notMem hcomma,
    h.precedeInk.append_of_notMem hx hcomma ?_, fun hend ↦ ?_, fun hend ↦ ?_⟩
  · simp only [endMarks, List.mem_cons, List.not_mem_nil, or_false] at hmark
    rcases hmark with rfl | rfl | rfl
    · exact isWide_eq_false_of_head (by simp [isSpacing]) (by decide)
    · exact isWide_eq_false_of_head (by simp [isSpacing]) (by decide)
    · rw [List.cons_append, isWide_cons_of_isSpacing (by decide)]
      exact isWide_eq_false_of_head (by simp [isSpacing]) (by decide)
  all_goals
    rw [hlast hend, List.append_nil]
    simp only [endMarks, List.mem_cons, List.not_mem_nil, or_false] at hmark
    rcases hmark with rfl | rfl | rfl
  · exact endsTight_of_getLast? (by simp)
  · have hend : EndsTight 1 ':' (x ++ [] ++ [':']) := endsTight_append hx (by decide)
    simpa using hend
  · exact endsTight_of_getLast? (by simp)
  · exact endsTight_of_getLast? (by simp)
  · exact endsTight_of_getLast? (by simp)
  · have hend : EndsTight 2 '{' (x ++ [' '] ++ ['{']) := endsTight_append hx (by decide)
    simpa using hend

/-- Another beginning that ends in ink and holds no mark brings in no spacing before the mark. -/
theorem EndsTight.of_append {mark : Char} (h : EndsTight least mark (u ++ t)) (hleast : 0 < least)
    (hmark : mark ∉ v) (hlast : ∀ c ∈ v.getLast?, isInk c)
    (hjoin : (∃ c ∈ u.getLast?, isInk c) ∨ ∀ c ∈ t.head?, isSpacing c = false) :
    EndsTight least mark (v ++ t) := by
  intro x s heq hs hlength
  -- The spacing does not start where the two beginnings end.
  have hstart : t ≠ s ++ [mark] := by
    rintro rfl
    rcases hjoin with ⟨c, hc, hink⟩ | hhead
    · have hspacing := h u s (by simp) hs hlength
      rw [Option.mem_def.1 hc, Option.any_some, hink] at hspacing
      exact absurd hspacing (by decide)
    · obtain ⟨d, s, rfl⟩ :=
        List.exists_cons_of_ne_nil (List.length_pos_iff.1 (hleast.trans_le hlength))
      have hspacing := hhead d rfl
      rw [hs d List.mem_cons_self] at hspacing
      exact absurd hspacing (by decide)
  rw [List.append_assoc] at heq
  rcases List.append_eq_append_iff.1 heq with ⟨a, rfl, rfl⟩ | ⟨a, rfl, ha⟩
  · cases hnil : a.getLast? with
    | some c =>
      have hspacing := h (u ++ a) s (by simp) hs hlength
      rw [List.getLast?_append, hnil] at hspacing ⊢
      exact hspacing
    | none => exact absurd (by rw [List.getLast?_eq_none_iff.1 hnil, List.nil_append]) hstart
  · exfalso
    cases hnil : a.getLast? with
    | none => exact hstart (by rw [ha, List.getLast?_eq_none_iff.1 hnil, List.nil_append])
    | some c =>
      have hink := hlast c (by rw [List.getLast?_append, hnil]; rfl)
      have hmem : c ∈ s ++ [mark] := by
        rw [ha]
        exact List.mem_append_left t (List.mem_of_getLast? hnil)
      rcases List.mem_append.1 hmem with hc | hc
      · have hspacing := hs c hc
        rw [isSpacing_of_isInk hink] at hspacing
        exact absurd hspacing (by decide)
      · rw [List.mem_singleton.1 hc] at hnil
        exact hmark (List.mem_append_right x (List.mem_of_getLast? hnil))

/-- Another beginning, if it holds no mark and ends in ink, leaves tight code tight. -/
theorem IsTight.of_append (h : IsTight last (u ++ t)) (hv : ∀ c ∈ v, c ∉ [',', ':', '{'])
    (hlast : ∀ c ∈ v.getLast?, isInk c)
    (hjoin : (∃ c ∈ u.getLast?, isInk c) ∨ ∀ c ∈ t.head?, isSpacing c = false) :
    IsTight last (v ++ t) := by
  have hcomma : ',' ∉ v := fun hc ↦ hv ',' hc (by decide)
  have hcolon : ':' ∉ v := fun hc ↦ hv ':' hc (by decide)
  have hbrace : '{' ∉ v := fun hc ↦ hv '{' hc (by decide)
  refine ⟨?_, ?_, fun hend ↦ (h.colon hend).of_append (by decide) hcolon hlast hjoin,
    fun hend ↦ (h.brace hend).of_append (by decide) hbrace hlast hjoin⟩
  · refine List.isChain_append.2 ⟨commasFollowInk_of_notMem hcomma,
      (List.isChain_append.1 h.followInk).2.1, ?_⟩
    rintro c hc d - -
    exact isSpacing_of_isInk (hlast c hc)
  · intro x w heq
    rcases List.append_eq_append_iff.1 heq with ⟨a, rfl, rfl⟩ | ⟨a, rfl, ha⟩
    · exact h.precedeInk (u ++ a) w (by simp)
    · cases a with
      | nil => exact h.precedeInk u w (by simpa using ha.symm)
      | cons c a =>
        rw [List.cons_append] at ha
        obtain ⟨rfl, -⟩ := List.cons.inj ha
        exact absurd (List.mem_append_right x List.mem_cons_self) hcomma

/-! ## Tidying code -/

theorem CommasFollowInk.eq_of_replaces (ht : CommasFollowInk t)
    (h : Replaces spacedComma (fun _ ↦ ",") before t u) : u = t := by
  induction h with
  | nil => rfl
  | keep _ _ ih => rw [ih ht.tail]
  | @swap before old u reading _ hread _ _ =>
    obtain ⟨s, hold, hne, hs⟩ := exists_of_readAt_spacedComma hread
    rw [hold] at ht
    have hfalse := (List.isChain_append.1 ht).2.2 _ (List.getLast?_eq_some_getLast hne) ',' rfl rfl
    rw [hs _ (List.getLast_mem hne)] at hfalse
    exact absurd hfalse (by decide)

theorem CommasPrecedeInk.eq_of_replaces (ht : CommasPrecedeInk t)
    (h : Replaces wideComma (fun _ ↦ ", ") before t u) : u = t := by
  induction h with
  | nil => rfl
  | keep _ _ ih => rw [ih (commasPrecedeInk_cons.1 ht).2]
  | @swap before old u reading _ hread _ _ =>
    obtain ⟨s, c, v, hold, hrest, hc, hs, hlength⟩ := exists_of_readAt_wideComma hread
    have hwide := ht [] (s ++ c :: v) (by rw [hold, hrest]; rfl)
    rw [isWide_append hs hc, decide_eq_false_iff_not] at hwide
    exact absurd hlength hwide

theorem endOf_none (x : Text) : endOf none x = x.getLast? := by
  simp [endOf]

theorem EndsTight.eq_of_replaces {p : Pattern} {mark : Char} (ht : EndsTight least mark t)
    (hp : ReadsEnd p least mark) (hline : '\n' ∉ t) (h : Replaces p (fun _ ↦ new) none t u) :
    u = t := by
  rcases eq_or_of_replaces_end hp h hline with ⟨heq, -⟩ | ⟨x, s, heq, -, hs, hlength, hink⟩
  · exact heq
  · rw [endOf_none, ht x s heq hs hlength] at hink
    exact absurd hink (by decide)

/-- Replacing spacing and a mark at the end of tight code leaves the mark behind the ink. -/
theorem IsTight.replace_end {p : Pattern} {mark : Char} (h : IsTight false t)
    (hp : ReadsEnd p least mark) (hline : '\n' ∉ t) (new : Text) (hnew : new ∈ endMarks) :
    (p.replace (fun _ ↦ new) t = t ∧ EndsTight least mark t)
      ∨ IsTight true (p.replace (fun _ ↦ new) t) := by
  have hreplaces : Replaces p (fun _ ↦ new) none t (p.replace (fun _ ↦ new) t) :=
    replaces_replace hp.not_describes t
  rcases eq_or_of_replaces_end hp hreplaces hline with
    ⟨heq, htight⟩ | ⟨x, s, rfl, heq, -, -, hink⟩
  · simp only [endOf_none] at htight
    exact .inl ⟨heq, htight⟩
  · rw [endOf_none] at hink
    rw [heq, ← List.append_nil (x ++ new)]
    rw [List.append_assoc] at h
    refine .inr (h.append_mark (fun c hc ↦ ?_) hnew (by simp) fun _ ↦ rfl)
    rwa [Option.mem_def.1 hc, Option.any_some] at hink

theorem not_describes_spacedComma : ¬ spacedComma.Describes [] := by
  rintro ⟨v, w, hnil, -, hw⟩
  rw [describes_mark.1 hw] at hnil
  simp at hnil

theorem not_describes_wideComma : ¬ wideComma.Describes [] := by
  rintro ⟨_, _, hnil, ⟨_, _, rfl, ⟨w, _, rfl, hw, -⟩, -⟩, -⟩
  rw [describes_mark.1 hw] at hnil
  simp at hnil

/-- The first half of tidying, which sees to the commas. -/
theorem isTight_commas (code : Text) :
    IsTight false (wideComma.replace (fun _ ↦ ", ") (spacedComma.replace (fun _ ↦ ",") code)) := by
  obtain ⟨hfollow, -⟩ := commasFollowInk_of_replaces (replaces_replace not_describes_spacedComma code)
  obtain ⟨hfollow, hprecede, -, -⟩ :=
    commas_of_replaces (replaces_replace not_describes_wideComma _) hfollow
  exact ⟨hfollow, hprecede, fun h ↦ absurd h (by decide), fun h ↦ absurd h (by decide)⟩

theorem IsTight.commas_eq (h : IsTight last t) :
    wideComma.replace (fun _ ↦ ", ") (spacedComma.replace (fun _ ↦ ",") t) = t := by
  rw [h.followInk.eq_of_replaces (replaces_replace not_describes_spacedComma t),
    h.precedeInk.eq_of_replaces (replaces_replace not_describes_wideComma t)]

/-- Tidied code is tight. -/
theorem isTight_tidyCode (last : Bool) {code : Text} (hline : '\n' ∉ code) :
    IsTight last (tidyCode last code) := by
  have hcommas := isTight_commas code
  have hline : '\n' ∉ wideComma.replace (fun _ ↦ ", ") (spacedComma.replace (fun _ ↦ ",") code) :=
    notMem_replace_const (notMem_replace_const hline (by decide)) (by decide)
  rw [tidyCode]
  generalize wideComma.replace (fun _ ↦ ", ") (spacedComma.replace (fun _ ↦ ",") code) = commas at *
  cases last with
  | false => exact hcommas
  | true =>
    have hcolons : IsTight false (spacedColon.replace (fun _ ↦ ":") commas)
        ∧ EndsTight 1 ':' (spacedColon.replace (fun _ ↦ ":") commas) := by
      rcases hcommas.replace_end readsEnd_spacedColon hline ":" (by decide) with ⟨heq, hend⟩ | htight
      · rw [heq]
        exact ⟨hcommas, hend⟩
      · exact ⟨⟨htight.followInk, htight.precedeInk, fun h ↦ absurd h (by decide),
          fun h ↦ absurd h (by decide)⟩, htight.colon rfl⟩
    have hline : '\n' ∉ spacedColon.replace (fun _ ↦ ":") commas :=
      notMem_replace_const hline (by decide)
    rcases hcolons.1.replace_end readsEnd_wideBrace hline [' ', '{'] (by decide) with ⟨heq, hend⟩ | htight
    · rw [if_pos rfl, heq]
      exact ⟨hcolons.1.followInk, hcolons.1.precedeInk, fun _ ↦ hcolons.2, fun _ ↦ hend⟩
    · exact htight

theorem IsTight.tidyCode_eq (h : IsTight last t) (hline : '\n' ∉ t) : tidyCode last t = t := by
  rw [tidyCode, h.commas_eq]
  cases last with
  | false => rfl
  | true =>
    have hcolon : spacedColon.replace (fun _ ↦ ":") t = t := (h.colon rfl).eq_of_replaces readsEnd_spacedColon hline
      (replaces_replace readsEnd_spacedColon.not_describes t)
    have hbrace : wideBrace.replace (fun _ ↦ [' ', '{']) t = t := (h.brace rfl).eq_of_replaces readsEnd_wideBrace hline
      (replaces_replace readsEnd_wideBrace.not_describes t)
    rw [if_pos rfl, hcolon, hbrace]

end Recast.Normalization
