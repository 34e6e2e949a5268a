import Recast.Layout.Basic
import Recast.Proofs.Language.Profile
import Recast.Proofs.Text.Trim

/-!
# The line before its comment

The part of a line before its comment is a recursion on the line, like the code of the line.  Blanks
around a line do not move its comment, so they change neither the code of the line nor what the code
starts with.
-/

namespace Recast

namespace Markers

variable {marks : Markers} {quote? : Option Char} {c : Char} {t u : Text}

/-- The text before its comment; `quote?` is the quote of the string that the text starts in. -/
def untilComment (marks : Markers) : (quote? : Option Char) → Text → Text
  | _, [] => []
  | none, c :: rest =>
    if marks.startsComment (c :: rest) then []
    else c :: untilComment marks (if marks.quotes.contains c then some c else none) rest
  | some quote, c :: rest =>
    if c == '\\' then
      match rest with
      | [] => [c]
      | d :: rest => c :: d :: untilComment marks (some quote) rest
    else c :: untilComment marks (if c == quote then none else some quote) rest

theorem untilComment_none_cons (c : Char) (rest : Text) :
    marks.untilComment none (c :: rest) =
      if marks.startsComment (c :: rest) then []
      else c :: marks.untilComment (if marks.quotes.contains c then some c else none) rest := by
  rw [untilComment]

/-- In a string a backslash takes the next character with it. -/
theorem untilComment_some_cons (quote c : Char) (rest : Text) :
    marks.untilComment (some quote) (c :: rest) =
      if c == '\\' then c :: (rest.take 1 ++ marks.untilComment (some quote) (rest.drop 1))
      else c :: marks.untilComment (if c == quote then none else some quote) rest := by
  cases rest <;> simp [untilComment]

/-- A comment at the end of a list of segments is left out. -/
def spellCode : List Segment → Text
  | [] => []
  | [⟨.comment, _⟩] => []
  | segment :: others => segment.text ++ spellCode others

theorem spellCode_cons {segment : Segment} (hkind : segment.kind ≠ .comment)
    (others : List Segment) :
    spellCode (segment :: others) = segment.text ++ spellCode others := by
  rw [spellCode]
  rintro comment rfl
  exact absurd rfl hkind

theorem spellCode_flush_append {kind : SegmentKind} (hkind : kind ≠ .comment) (read : Text)
    (others : List Segment) :
    spellCode (Segment.flush kind read ++ others) = read.reverse ++ spellCode others := by
  cases read with
  | nil => rfl
  | cons c read => exact spellCode_cons hkind others

theorem spellCode_scan (marks : Markers) (quote? : Option Char) (read t : Text) :
    spellCode (Segment.scan marks quote? read t)
      = read.reverse ++ marks.untilComment quote? t := by
  have hflush {kind : SegmentKind} (hkind : kind ≠ .comment) (read : Text) :
      spellCode (Segment.flush kind read) = read.reverse := by
    simpa [spellCode] using spellCode_flush_append hkind read []
  fun_induction Segment.scan marks quote? read t <;>
    simp_all [untilComment, untilComment_some_cons, spellCode_flush_append, spellCode]

theorem spellCode_of_getLast? (segments : List Segment) :
    spellCode segments = match segments.getLast? with
      | some ⟨.comment, _⟩ => Segment.textOf segments.dropLast
      | _ => Segment.textOf segments := by
  fun_induction spellCode segments with
  | case1 => rfl
  | case2 comment => rfl
  | case3 segment others hnot ih =>
    cases others with
    | nil =>
      obtain ⟨kind, text⟩ := segment
      cases kind with
      | code => rfl
      | string => rfl
      | comment => exact absurd rfl (hnot text rfl)
    | cons next others =>
      rw [ih, List.getLast?_cons_cons]
      split <;> rfl

theorem splitComment_fst_eq_spellCode (marks : Markers) (line : Text) :
    (marks.splitComment line).1 = spellCode (marks.segments line) := by
  simp only [splitComment]
  rw [spellCode_of_getLast?, textOf_segments]
  generalize (marks.segments line).getLast? = last?
  rcases last? with _ | ⟨_ | _ | _, _⟩ <;> rfl

/-- The part of a line before its comment. -/
theorem splitComment_fst (marks : Markers) (line : Text) :
    (marks.splitComment line).1 = marks.untilComment none line := by
  rw [splitComment_fst_eq_spellCode, segments, spellCode_scan]
  rfl

/-! ## Neutral characters around a text -/

theorem untilComment_neutral_append (hu : ∀ d ∈ u, marks.isNeutral d) (t : Text) :
    marks.untilComment none (u ++ t) = u ++ marks.untilComment none t := by
  induction u with
  | nil => rfl
  | cons d u ih =>
    have hd := hu d List.mem_cons_self
    rw [List.cons_append, untilComment_none_cons, startsComment_cons_of_neutral hd,
      (isNeutral_iff.1 hd).2.1]
    simpa using ih fun e he ↦ hu e (List.mem_cons_of_mem d he)

theorem untilComment_eq_self (quote? : Option Char) (hu : ∀ d ∈ u, marks.isNeutral d) :
    marks.untilComment quote? u = u := by
  induction u generalizing quote? with
  | nil => cases quote? <;> rfl
  | cons d u ih =>
    have hd := hu d List.mem_cons_self
    have hrest := fun quote? ↦ ih quote? fun e he ↦ hu e (List.mem_cons_of_mem d he)
    cases quote? with
    | none => simp [untilComment_none_cons, startsComment_cons_of_neutral hd, hrest]
    | some quote => simp [untilComment_some_cons, (isNeutral_iff.1 hd).1, hrest]

/-- Neutral characters behind a text belong to its comment, if it has one. -/
theorem untilComment_append_neutral (quote? : Option Char) (t : Text)
    (hu : ∀ d ∈ u, marks.isNeutral d) :
    marks.untilComment quote? (t ++ u)
      = if marks.untilComment quote? t = t then t ++ u else marks.untilComment quote? t := by
  have hhead : ∀ d ∈ u.head?, marks.isNeutral d := fun d hd ↦ hu d (List.mem_of_head? hd)
  fun_induction untilComment marks quote? t with
  | case1 quote? => simpa using untilComment_eq_self quote? hu
  | case2 c rest hcomment =>
    have hsplit := startsComment_append_of_neutral (c :: rest) hhead
    rw [List.cons_append] at hsplit ⊢
    rw [untilComment_none_cons, hsplit, if_pos hcomment]
    simp
  | case3 c rest hcomment ih =>
    have hsplit := startsComment_append_of_neutral (c :: rest) hhead
    rw [List.cons_append] at hsplit ⊢
    rw [untilComment_none_cons, hsplit, if_neg hcomment, ih]
    simp [apply_ite (c :: ·)]
  | case4 quote c hescape =>
    have hrest := untilComment_eq_self (some quote) (u := u.drop 1)
      fun e he ↦ hu e (List.mem_of_mem_drop he)
    rw [List.cons_append, List.nil_append, untilComment_some_cons, if_pos hescape, hrest,
      List.take_append_drop]
    simp
  | case5 quote c hescape d rest ih =>
    rw [List.cons_append, List.cons_append, untilComment_some_cons, if_pos hescape]
    simp [ih, apply_ite (c :: d :: ·)]
  | case6 quote c rest hescape ih =>
    rw [List.cons_append, untilComment_some_cons, if_neg hescape, ih]
    simp [apply_ite (c :: ·)]

/-- A text whose beginning ends in code has its comment behind that. -/
theorem untilComment_append_of_endsInCode (hend : marks.endsInCode quote? t)
    (hhead : ∀ d ∈ u.head?, marks.isNeutral d) :
    marks.untilComment quote? (t ++ u) = t ++ marks.untilComment none u := by
  fun_induction endsInCode marks quote? t with
  | case1 => rfl
  | case2 quote | case3 c rest hcomment | case6 quote c hescape => exact absurd hend (by simp)
  | case4 c rest hcomment hquote ih | case5 c rest hcomment hquote ih =>
    have hsplit := startsComment_append_of_neutral (c :: rest) hhead
    rw [List.cons_append] at hsplit ⊢
    rw [untilComment_none_cons, hsplit]
    simp only [hcomment, hquote]
    simpa using ih hend
  | case7 quote c hescape d rest ih =>
    rw [List.cons_append, untilComment_some_cons]
    simpa [hescape] using ih hend
  | case8 quote c rest hescape hclose ih | case9 quote c rest hescape hclose ih =>
    rw [List.cons_append, untilComment_some_cons]
    simpa [hescape, hclose] using ih hend

theorem untilComment_of_startsComment (h : marks.startsComment t) :
    marks.untilComment none t = [] := by
  cases t with
  | nil => rfl
  | cons c t => rw [untilComment_none_cons, if_pos h]

/-- The beginning of a text without a comment has none. -/
theorem untilComment_of_append (h : marks.untilComment quote? (t ++ u) = t ++ u) :
    marks.untilComment quote? t = t := by
  fun_induction untilComment marks quote? t with
  | case1 quote? => rfl
  | case2 c rest hcomment =>
    have hlonger := startsComment_append hcomment u
    rw [untilComment_of_startsComment hlonger] at h
    exact absurd h (by simp)
  | case3 c rest hcomment ih =>
    rw [List.cons_append, untilComment_none_cons] at h
    split at h
    · exact absurd h (by simp)
    · rw [ih (List.cons.inj h).2]
  | case4 quote c hescape => rfl
  | case5 quote c hescape d rest ih =>
    rw [List.cons_append, untilComment_some_cons, if_pos hescape] at h
    simp only [List.cons_append, List.take_succ_cons, List.take_zero, List.nil_append,
      List.drop_succ_cons, List.drop_zero, List.cons.injEq, true_and] at h
    rw [ih h]
  | case6 quote c rest hescape ih =>
    rw [List.cons_append, untilComment_some_cons, if_neg hescape] at h
    rw [ih (List.cons.inj h).2]

/-! ## Texts without a comment -/

theorem splitComment_snd_eq_nil_iff :
    (marks.splitComment t).2 = [] ↔ marks.untilComment none t = t := by
  have hsplit := splitComment_append marks t
  rw [← splitComment_fst]
  constructor
  · intro hnil
    rwa [hnil, List.append_nil] at hsplit
  · intro hself
    rw [hself] at hsplit
    exact List.append_right_eq_self.1 hsplit

theorem untilComment_append_neutral_eq_self_iff (hu : ∀ d ∈ u, marks.isNeutral d) :
    marks.untilComment quote? (t ++ u) = t ++ u ↔ marks.untilComment quote? t = t := by
  constructor
  · exact untilComment_of_append
  · intro hself
    rw [untilComment_append_neutral quote? t hu, if_pos hself]

/-- Neutral characters leave the scan in the string or the code that it is in. -/
theorem untilComment_neutral_append_of_quote
    (hquote : ∀ quote ∈ quote?, marks.quotes.contains quote) (hu : ∀ d ∈ u, marks.isNeutral d)
    (t : Text) :
    marks.untilComment quote? (u ++ t) = u ++ marks.untilComment quote? t := by
  cases quote? with
  | none => exact untilComment_neutral_append hu t
  | some quote =>
    induction u with
    | nil => rfl
    | cons d u ih =>
      obtain ⟨hescape, hnoquote, -⟩ := isNeutral_iff.1 (hu d List.mem_cons_self)
      have hne : d ≠ quote := by
        rintro rfl
        exact Bool.false_ne_true (hnoquote.symm.trans (hquote d rfl))
      rw [List.cons_append, untilComment_some_cons]
      simpa [hescape, hne] using ih fun e he ↦ hu e (List.mem_cons_of_mem d he)

/-- Whether there is something in the text, and nothing but neutral characters. -/
def IsNeutralStretch (marks : Markers) (t : Text) : Prop :=
  t ≠ [] ∧ ∀ d ∈ t, marks.isNeutral d

/-- Whether a text has a comment does not depend on which neutral stretch stands at a place in
it. -/
theorem untilComment_swap_eq_self_iff {old new : Text}
    (hquote : ∀ quote ∈ quote?, marks.quotes.contains quote)
    (hold : marks.IsNeutralStretch old) (hnew : marks.IsNeutralStretch new) (before after : Text) :
    marks.untilComment quote? (before ++ (old ++ after)) = before ++ (old ++ after)
      ↔ marks.untilComment quote? (before ++ (new ++ after)) = before ++ (new ++ after) := by
  have hhead {u : Text} (hu : marks.IsNeutralStretch u) :
      ∀ d ∈ (u ++ after).head?, marks.isNeutral d := by
    obtain ⟨hne, hneutral⟩ := hu
    intro d hd
    rw [List.head?_append_of_ne_nil u hne] at hd
    exact hneutral d (List.mem_of_head? hd)
  fun_induction untilComment marks quote? before with
  | case1 quote? =>
    rw [List.nil_append, List.nil_append, untilComment_neutral_append_of_quote hquote hold.2,
      untilComment_neutral_append_of_quote hquote hnew.2, List.append_right_inj,
      List.append_right_inj]
  | case2 c rest hcomment =>
    rw [untilComment_of_startsComment (startsComment_append hcomment _),
      untilComment_of_startsComment (startsComment_append hcomment _)]
    simp
  | case3 c rest hcomment ih =>
    have hsplit {u : Text} (hu : marks.IsNeutralStretch u) :
        ¬marks.startsComment (c :: (rest ++ (u ++ after))) := by
      rw [← List.cons_append, startsComment_append_of_neutral (c :: rest) (hhead hu)]
      exact hcomment
    rw [List.cons_append, List.cons_append, untilComment_none_cons, untilComment_none_cons,
      if_neg (hsplit hold), if_neg (hsplit hnew), List.cons_inj_right, List.cons_inj_right]
    exact ih (by intro quote hmem; split at hmem <;> simp_all)
  | case4 quote c hescape =>
    -- The escape takes the first neutral character with it.
    have hrest {u : Text} (hu : marks.IsNeutralStretch u) :
        marks.untilComment (some quote) (c :: (u ++ after)) = c :: (u ++ after)
          ↔ marks.untilComment (some quote) after = after := by
      obtain ⟨hne, hneutral⟩ := hu
      obtain ⟨d, u, rfl⟩ := List.exists_cons_of_ne_nil hne
      rw [untilComment_some_cons, if_pos hescape]
      simp [untilComment_neutral_append_of_quote hquote
        fun e he ↦ hneutral e (List.mem_cons_of_mem d he)]
    rw [List.cons_append, List.cons_append, List.nil_append, List.nil_append, hrest hold,
      hrest hnew]
  | case5 quote c hescape d rest ih =>
    simpa [untilComment_some_cons, hescape] using ih hquote
  | case6 quote c rest hescape ih =>
    rw [List.cons_append, List.cons_append, untilComment_some_cons, untilComment_some_cons,
      if_neg hescape, if_neg hescape, List.cons_inj_right, List.cons_inj_right]
    exact ih (by intro other hmem; split at hmem <;> simp_all)

/-- A marker that a text does not hold starts no comment in it. -/
theorem untilComment_eq_self_of_not_infix (h : ∀ marker ∈ marks.comments, ¬marker <:+: t) :
    marks.untilComment quote? t = t := by
  have hrest {c : Char} {rest : Text} (h : ∀ marker ∈ marks.comments, ¬marker <:+: c :: rest) :
      ∀ marker ∈ marks.comments, ¬marker <:+: rest :=
    fun marker hmarker hin ↦ h marker hmarker (hin.trans (List.suffix_cons c rest).isInfix)
  fun_induction untilComment marks quote? t with
  | case1 quote? => rfl
  | case2 c rest hcomment =>
    rw [startsComment] at hcomment
    split at hcomment
    · rename_i marker hfind
      obtain ⟨hstart, -⟩ := List.find?_eq_some_iff_append.1 hfind
      exact absurd (List.isPrefixOf_iff_prefix.1 hstart).isInfix
        (h marker (List.mem_of_find?_eq_some hfind))
    · exact absurd hcomment (by simp)
  | case3 c rest hcomment ih => rw [ih (hrest h)]
  | case4 quote c hescape => rfl
  | case5 quote c hescape d rest ih => rw [ih (hrest (hrest h))]
  | case6 quote c rest hescape ih => rw [ih (hrest h)]

end Markers

/-! ## Blanks around a line -/

variable {target : Language} {line : Text}

/-- Blanks around a line are no part of its code. -/
theorem Language.codeOf_trim (target : Language) (line : Text) :
    target.profile.codeOf (Text.trim line) = target.profile.codeOf line := by
  have hneutral {blanks : Text} (h : ∀ c ∈ blanks, isBlank c) :
      ∀ c ∈ blanks, target.profile.markers.isNeutral c :=
    fun c hc ↦ target.isNeutral_of_isBlank (h c hc)
  have hindent : ∀ c ∈ Text.indentation line, isBlank c :=
    fun c hc ↦ Text.isBlank_of_mem_indentation hc
  have hgap : ∀ c ∈ Text.gap (Text.trimStart line), isBlank c :=
    fun c hc ↦ Text.isBlank_of_mem_gap hc
  rw [Profile.codeOf, Profile.codeOf, Markers.splitComment_fst, Markers.splitComment_fst]
  calc
    Text.trim (target.profile.markers.untilComment none (Text.trim line))
      = Text.trim (target.profile.markers.untilComment none
          (Text.trim line ++ Text.gap (Text.trimStart line))) := by
        rw [Markers.untilComment_append_neutral none (Text.trim line) (hneutral hgap)]
        split
        · rename_i hself
          rw [hself, Text.trim_append_blank _ hgap]
        · rfl
    _ = Text.trim (Text.indentation line ++ target.profile.markers.untilComment none
          (Text.trim line ++ Text.gap (Text.trimStart line))) := by
        rw [Text.trim_append_of_blank hindent]
    _ = Text.trim (target.profile.markers.untilComment none line) := by
        rw [← Markers.untilComment_neutral_append (hneutral hindent), Text.indentation_append_trim]

/-- A neutral character that a line starts with is one that its code starts with. -/
theorem Language.startsWith_trim_of_codeOf (target : Language) {c : Char}
    (hc : target.profile.markers.isNeutral c) (hblank : isBlank c = false)
    (h : Text.startsWith (target.profile.codeOf line) [c] = false) :
    Text.startsWith (Text.trim line) [c] = false := by
  rw [← target.codeOf_trim] at h
  cases hline : Text.trim line with
  | nil => rfl
  | cons d t =>
    by_cases hne : c = d
    · subst hne
      have hcode : target.profile.codeOf (c :: t)
          = c :: Text.trimEnd (target.profile.markers.untilComment none t) := by
        have hcons := Markers.untilComment_neutral_append (u := [c]) (by simpa using hc) t
        rw [List.singleton_append, List.singleton_append] at hcons
        rw [Profile.codeOf, Markers.splitComment_fst, hcons, Text.trim_cons hblank]
      rw [hline, hcode] at h
      exact absurd h (by simp [Text.startsWith])
    · simp [Text.startsWith, List.isPrefixOf, hne]

end Recast
