import Recast.Proofs.Recasting.Progress
import Recast.Proofs.Text.Comment

/-!
# Code that becomes a comment

The comment marker of one language may be an operator or part of a name in another, and what is
quoted in one may be code in another.  So a line that is all code can be recast into a line in which
the target finds a comment, and this module says when.

A line that holds no marker of the target comes by none.  A line in which nothing is recognized has
a comment exactly if the target finds one in the line as it was written.  If the one thing that is
recognized is an assignment, or a branch or a loop under a condition, it is the value or the
condition that decides.
-/

namespace Recast

variable {language source target : Language} {trait : Trait} {marker line part t u : Text}

/-- The comment that a language finds in a line. -/
def Language.commentIn (language : Language) (line : Text) : Text :=
  (language.profile.markers.splitComment line).2

theorem Language.commentIn_eq_nil_iff :
    language.commentIn t = [] ↔ language.profile.markers.untilComment none t = t :=
  Markers.splitComment_snd_eq_nil_iff

/-! ## Lines without a marker -/

theorem Language.isMarker_of_mem_comments (h : marker ∈ language.profile.markers.comments) :
    Trait.isMarker marker := by
  have hmarkers : language.profile.markers.comments.all Trait.isMarker := by
    cases language <;> decide
  exact List.all_eq_true.1 hmarkers marker h

/-- A character that the marker does not hold joins texts without the marker. -/
theorem Trait.holds_without_append_cons {hmarker : isMarker marker} {c : Char} (hc : c ∉ marker)
    (hnewline : c ≠ '\n') (ht : (without marker hmarker).Holds t)
    (hu : (without marker hmarker).Holds u) : (without marker hmarker).Holds (t ++ c :: u) := by
  refine ⟨?_, fun hin ↦ (infix_of_infix_append_cons hc hin).elim ht.2 hu.2⟩
  simp [ht.1, hu.1, hnewline.symm]

theorem singleton_infix_iff {c : Char} : [c] <:+: t ↔ c ∈ t := by
  constructor
  · exact fun h ↦ h.subset List.mem_cons_self
  · intro h
    obtain ⟨before, after, rfl⟩ := List.append_of_mem h
    exact ⟨before, after, by simp⟩

/-- A single slash does not make up a pair with what stands beside it. -/
theorem not_pair_infix_append_slash (ht : ¬("//" : Text) <:+: t) (hu : ¬("//" : Text) <:+: u)
    (hlast : t.getLast? ≠ some '/') (hfirst : u.head? ≠ some '/') :
    ¬("//" : Text) <:+: t ++ '/' :: u := by
  have hother {d : Char} (hd : d ≠ '/') : d ∉ ("//" : Text) := by simp [hd]
  have hsingle : ¬("//" : Text) <:+: ['/'] := fun h ↦ absurd h.length_le (by decide)
  have hbehind : ¬("//" : Text) <:+: '/' :: u := by
    cases u with
    | nil => exact hsingle
    | cons e u =>
      intro hin
      rcases Trait.infix_of_infix_append_cons (t := ['/']) (hother (by simpa using hfirst)) hin
        with hin | hin
      · exact hsingle hin
      · exact hu (hin.trans (List.suffix_cons e u).isInfix)
  rcases List.eq_nil_or_concat' t with rfl | ⟨t, d, rfl⟩
  · exact hbehind
  · intro hin
    rw [List.append_assoc] at hin
    rcases Trait.infix_of_infix_append_cons (hother (by simpa using hlast)) hin with hin | hin
    · exact ht (hin.trans (List.prefix_append t [d]).isInfix)
    · exact hbehind hin

/-- Every construct but a statement that does nothing is worded without the marker, if the marker
does not meet a directive, nor a path whose components it could arise between, nor output that it
could arise behind. -/
theorem Trait.admits_without (hmarker : isMarker marker) {kind : Kind} (hpass : kind ≠ .pass)
    (hdirective : target = .cpp → '#' ∉ marker)
    (hpath : Emission.pathSeparator? target = some ['/'] → '/' ∉ marker ∨ marker = "//")
    (houtput : kind = .print → target = .php ∨ target = .ruby → ∃ c, marker = [c]) :
    (without marker hmarker).Admits target.profile kind where
  remark h := absurd h hpass
  directive _ hcpp t ht := by
    rw [Language.language_profile] at hcpp
    exact holds_without_append_cons (hdirective hcpp) (by decide) (without marker hmarker).nil ht
  path _ hseparator t u ht hu hlast hfirst := by
    rw [Language.language_profile] at hseparator
    rcases hpath hseparator with hout | rfl
    · exact holds_without_append_cons hout (by decide) ht hu
    · exact ⟨by simp [ht.1, hu.1], not_pair_infix_append_slash ht.2 hu.2 hlast hfirst⟩
  output hkind hlanguage t u ht hu := by
    rw [Language.language_profile] at hlanguage
    obtain ⟨c, rfl⟩ := houtput hkind hlanguage
    simp_all [holds_without_iff, singleton_infix_iff]

theorem Language.admits_without (hmarker : marker ∈ target.profile.markers.comments) {kind : Kind}
    (hpass : kind ≠ .pass) (houtput : target = .php → kind = .print → marker ≠ "//") :
    (Trait.without marker (isMarker_of_mem_comments hmarker)).Admits target.profile kind := by
  have hspelling : marker = "#" ∧ target ≠ .cpp ∨ marker = "//" ∧ target ≠ .ruby := by
    have hall : target.profile.markers.comments.all fun marker ↦
        marker = "#" ∧ target ≠ .cpp ∨ marker = "//" ∧ target ≠ .ruby := by
      cases target <;> decide
    simpa using List.all_eq_true.1 hall marker hmarker
  rcases hspelling with ⟨rfl, hcpp⟩ | ⟨rfl, hruby⟩
  · exact Trait.admits_without _ hpass (fun h ↦ absurd h hcpp) (fun _ ↦ .inl (by decide))
      fun _ _ ↦ ⟨'#', rfl⟩
  · refine Trait.admits_without _ hpass (fun _ ↦ by decide) (fun _ ↦ .inr rfl) ?_
    rintro hprint (rfl | rfl)
    · exact absurd rfl (houtput rfl hprint)
    · exact absurd rfl hruby

/-- A marker that is in no wording of what was recognized gets into a recast line only from the line
itself. -/
theorem RecastLine.not_infix_of_ofLine {rules : List Rule} {context after : Context}
    {recast : RecastLine} (hmarker : Trait.isMarker marker)
    (hcontext : context.HasTrait (.without marker hmarker)) (hline : '\n' ∉ line)
    (hcode : (context.source.markers.splitComment line).2 = [])
    (h : ofLine rules context line = .ok (recast, after))
    (hadmits : ∀ kind ∈ recast.kinds, (Trait.without marker hmarker).Admits context.target kind)
    (hout : ¬marker <:+: line) : ¬marker <:+: recast.text := by
  have hcarries := ofLine_carries (.without marker hmarker) rules context line
  rw [h, yields_ok] at hcarries
  exact ((hcarries hcontext ⟨hline, hout⟩ hadmits).2 (.inl hcode)).2

theorem Context.hasTrait_start (trait : Trait) (source target : Language) :
    (Context.start source target).HasTrait trait :=
  ⟨target.hasTrait_profile trait,
    show trait.Holds ("e" : Text) from Trait.holds_of_plain (by decide)⟩

/-! ## Unmarked text around a part -/

namespace Language

theorem commentIn_append_iff (language : Language) (t : Text) (hu : isUnmarked u) :
    language.commentIn (t ++ u) = [] ↔ language.commentIn t = [] := by
  rw [commentIn_eq_nil_iff, commentIn_eq_nil_iff]
  exact Markers.untilComment_append_neutral_eq_self_iff
    fun c hc ↦ language.isNeutral_of_notMem (isUnmarked_iff.1 hu c hc)

theorem commentIn_prepend_iff (language : Language) (t : Text) (hu : isUnmarked u) :
    language.commentIn (u ++ t) = [] ↔ language.commentIn t = [] := by
  rw [commentIn_eq_nil_iff, commentIn_eq_nil_iff, Markers.untilComment_neutral_append
    fun c hc ↦ language.isNeutral_of_notMem (isUnmarked_iff.1 hu c hc), List.append_right_inj]

theorem commentIn_trimEnd_iff (language : Language) (t : Text) :
    language.commentIn (Text.trimEnd t) = [] ↔ language.commentIn t = [] := by
  have hgap : isUnmarked (Text.gap t) :=
    isUnmarked_iff.2 fun c hc ↦ notMem_markChars_of_isBlank (Text.isBlank_of_mem_gap hc)
  rw [← commentIn_append_iff language (Text.trimEnd t) hgap, Text.trimEnd_append_gap]

end Language

/-- Whether the text is the part with unmarked text around it. -/
inductive Frames (part : Text) : Text → Prop where
  | self : Frames part part
  | prepend {t : Text} (word : Text) (hword : isUnmarked word) : Frames part t →
      Frames part (word ++ t)
  | append {t : Text} (word : Text) (hword : isUnmarked word) : Frames part t →
      Frames part (t ++ word)

theorem Frames.commentIn_iff (h : Frames part t) :
    language.commentIn t = [] ↔ language.commentIn part = [] := by
  induction h with
  | self => rfl
  | prepend word hword _ ih => rw [language.commentIn_prepend_iff _ hword, ih]
  | append word hword _ ih => rw [language.commentIn_append_iff _ hword, ih]

/-- Unmarked text is nothing with unmarked text around it. -/
theorem frames_nil (h : isUnmarked t) : Frames [] t := by
  simpa using Frames.prepend t h (.self : Frames [] [])

/-! ## Edits -/

theorem Markers.IsNeutralStretch.of_notMem (hne : t ≠ []) (h : ∀ c ∈ t, c ∉ markChars) :
    language.profile.markers.IsNeutralStretch t :=
  ⟨hne, fun c hc ↦ language.isNeutral_of_notMem (h c hc)⟩

/-- An exchange of tokens neither makes nor removes a comment. -/
theorem Language.commentIn_edits_iff (language : Language) (h : Text.Edits Token.IsSwap t u) :
    language.commentIn t = [] ↔ language.commentIn u = [] := by
  -- A comment marker may stand before the swap, so the text before it goes along.
  suffices hbehind : ∀ before, language.commentIn (before ++ t) = []
      ↔ language.commentIn (before ++ u) = [] from hbehind []
  induction h with
  | nil => exact fun _ ↦ Iff.rfl
  | keep c _ ih => exact fun before ↦ by simpa using ih (before ++ [c])
  | @swap old new t u hswap _ ih =>
    intro before
    have hold : language.profile.markers.IsNeutralStretch old :=
      .of_notMem hswap.old_ne_nil hswap.old_notMem
    have hnew : language.profile.markers.IsNeutralStretch new :=
      .of_notMem (Token.ne_nil_of_isToken hswap.isToken)
        (Token.notMem_markChars_of_isToken hswap.isToken)
    calc
      language.commentIn (before ++ (old ++ t)) = []
        ↔ language.commentIn (before ++ (new ++ t)) = [] := by
          rw [commentIn_eq_nil_iff, commentIn_eq_nil_iff]
          exact Markers.untilComment_swap_eq_self_iff (by simp) hold hnew before t
      _ ↔ language.commentIn (before ++ (new ++ u)) = [] := by simpa using ih (before ++ new)
  | trans _ _ ih ih' => exact fun before ↦ (ih before).trans (ih' before)

theorem Language.commentIn_endings_iff {context : Context}
    (htarget : context.target = target.profile) (t : Text) :
    target.commentIn (Token.endings context t) = [] ↔ target.commentIn t = [] := by
  have hterminators : ∀ terminator ∈ target.profile.terminator, isUnmarked terminator := by
    cases target <;> decide
  rw [Token.endings, htarget]
  split
  · rename_i terminator hterminator
    split
    · rw [target.commentIn_append_iff _ (hterminators terminator hterminator),
        target.commentIn_trimEnd_iff]
    · rfl
  · rfl

/-! ## Constructs with one part -/

/-- The part of a form that is any text, if there is just one: a value or a condition. -/
def Form.part? : Form → Option Text
  | ifThen cond | elseIf cond | whileLoop cond => some cond
  | assign _ value => some value
  | _ => none

/-- Every language has a wording for such a form. -/
theorem Form.lack?_of_part? {form : Form} (h : form.part? = some part) (language : Language) :
    form.kind.lack? language = none := by
  cases form <;> simp only [part?, reduceCtorEq] at h <;> rfl

/-- Whether no mark gets into the indentation or into the name of an assignment. -/
def Recognizer.isUnmarked : Recognizer → Bool
  | .line kind pattern =>
    markChars.all fun c ↦ pattern.keepsOut c .indent && (kind ≠ .assign || pattern.keepsOut c .name)
  | .printCall _ => true

theorem Language.isUnmarked_of_mem_recognizers {category : Category} {recognizer : Recognizer}
    (h : recognizer ∈ language.recognizers category) : recognizer.isUnmarked := by
  refine language.of_mem_recognizers ?_ h
  cases language <;> decide

/-- The name that an assignment binds is unmarked. -/
def Form.BindsUnmarked (form : Form) : Prop :=
  ∀ name value, form = .assign name value → isUnmarked name

theorem frames_block (h : Frames part t) : Frames part (target.profile.block t) := by
  rw [Profile.block]
  split
  · exact h.append _ (by decide)
  · exact h
  · exact h.append _ (by decide)

theorem frames_conditionBlock {keyword : Text} (hkeyword : isUnmarked keyword)
    (h : Frames part t) : Frames part (target.profile.conditionBlock keyword t) := by
  rw [Profile.conditionBlock]
  split
  · refine frames_block (.append _ (by decide) ?_)
    rw [List.append_assoc]
    exact .prepend _ hkeyword (.prepend _ (by decide) h)
  · apply frames_block
    rw [List.append_assoc]
    exact .prepend _ hkeyword (.prepend _ (by decide) h)

theorem frames_whileLoop (cond : Text) :
    Frames cond (Emission.whileLoop target.profile cond).text := by
  have hcond : Frames cond (Text.orElse cond target.profile.trueLiteral) := by
    rw [Text.orElse]
    split
    · rename_i hempty
      rw [List.isEmpty_iff.1 hempty]
      exact frames_nil (by cases target <;> decide)
    · exact .self
  simp only [Emission.whileLoop]
  split
  · exact .append _ (by decide) (.prepend _ (by decide) hcond)
  · exact frames_conditionBlock (by decide) hcond

theorem frames_terminate (h : Frames part t) : Frames part (terminate target.profile t) := by
  have hterminators : ∀ terminator ∈ target.profile.terminator, isUnmarked terminator := by
    cases target <;> decide
  rw [terminate]
  split
  · rename_i terminator hterminator
    split
    · exact h.append _ (hterminators terminator hterminator)
    · exact h
  · exact h

theorem frames_declarationText? {name value text : Text} (hname : isUnmarked name)
    (h : Emission.declarationText? name value target = some text) : Frames value text := by
  cases target <;> obtain rfl := Option.some.inj h
  all_goals
    refine .prepend _ ?_ .self
    simp only [isUnmarked_append, hname, Bool.and_true]
    decide

theorem frames_assign {context after : Context} {name value : Text} {emission : Emission}
    (htarget : context.target = target.profile) (hname : isUnmarked name)
    (h : Emission.assign context name value = .ok (emission, after)) :
    Frames value emission.text := by
  simp only [Emission.assign, htarget] at h
  split at h
  · obtain ⟨rfl, -⟩ := Prod.mk.inj (Except.ok.inj h)
    refine frames_terminate (.prepend _ ?_ .self)
    rw [isUnmarked_append, Profile.variableName]
    split
    · rw [← List.singleton_append, isUnmarked_append, hname]
      decide
    · rw [hname]
      decide
  · obtain ⟨text, htext, h⟩ := bind_eq_ok_iff.1 h
    obtain ⟨rfl, -⟩ := Prod.mk.inj (Except.ok.inj h)
    rw [Language.language_profile] at htext
    cases hentry : Emission.declarationText? name value target with
    | none => exact absurd htext (by simp [wording, hentry])
    | some found =>
      obtain rfl : found = text := by simpa [wording, hentry] using htext
      exact frames_terminate (frames_declarationText? hname hentry)

/-- A form with one part is worded by that part in a frame. -/
theorem frames_emit {context after : Context} {form : Form} {closes : Bool} {emission : Emission}
    (htarget : context.target = target.profile) (hpart : form.part? = some part)
    (hbinds : form.BindsUnmarked) (h : form.emit context closes = .ok (emission, after)) :
    Frames part emission.text := by
  cases form <;> simp only [Form.part?, reduceCtorEq, Option.some.injEq] at hpart <;> subst hpart
  case ifThen cond =>
    obtain ⟨rfl, -⟩ := Prod.mk.inj (Except.ok.inj h)
    rw [htarget]
    exact frames_conditionBlock (by decide) .self
  case elseIf cond =>
    obtain ⟨rfl, -⟩ := Prod.mk.inj (Except.ok.inj h)
    rw [htarget]
    refine .prepend _ ?_ (frames_conditionBlock (by cases target <;> decide) .self)
    rw [closing]
    split <;> decide
  case whileLoop cond =>
    obtain ⟨rfl, -⟩ := Prod.mk.inj (Except.ok.inj h)
    rw [htarget]
    exact frames_whileLoop cond
  case assign name value => exact frames_assign htarget (hbinds name value rfl) h

/-- The name of an assignment is the part that was read for it. -/
theorem Form.get?_name_of_assign {kind : Kind} {reading : Reading} {name value : Text}
    (h : ofReading kind source reading = .ok (some (.assign name value))) :
    kind = .assign ∧ reading.get? .name = some name := by
  obtain rfl : Kind.assign = kind := (kind_of_ofReading h).resolve_right (by simp [Form.kind])
  obtain ⟨read, hname, h⟩ := bind_eq_ok_iff.1 h
  obtain ⟨read', -, h⟩ := bind_eq_ok_iff.1 h
  obtain ⟨rfl, -⟩ := Form.assign.inj (Option.some.inj (Except.ok.inj h))
  refine ⟨rfl, ?_⟩
  rw [Reading.require] at hname
  split at hname
  · rename_i part hpart
    rw [hpart, Except.ok.inj hname]
  · exact absurd hname (by simp)

theorem Recognizer.isUnmarked_of_recognize {recognizer : Recognizer} {construct : Construct}
    (hclean : recognizer.isUnmarked) (h : recognizer.recognize source line = .ok (some construct))
    (hpart : construct.form.part? = some part) :
    construct.span = none ∧ Recast.isUnmarked construct.indent
      ∧ construct.form.BindsUnmarked := by
  cases recognizer with
  | line kind pattern =>
    rw [recognize] at h
    split at h
    · exact absurd h (by simp)
    · rename_i reading hread
      obtain ⟨form?, hform, h⟩ := bind_eq_ok_iff.1 h
      obtain ⟨form, rfl, rfl⟩ := Option.map_eq_some_iff.1 (Except.ok.inj h)
      have hout {slot : Slot} (hkept : ∀ c ∈ markChars, pattern.keepsOut c slot) {part : Text}
          (hpart : reading.get? slot = some part) : Recast.isUnmarked part := by
        refine isUnmarked_iff.2 fun c hc hmark ↦ ?_
        exact Pattern.notMem_of_keepsOut (hkept c hmark) (Pattern.mem_outcomes_of_readStart hread)
          (by simp [Reading.start, Reading.get?]) part hpart hc
      have hchars {c : Char} (hc : c ∈ markChars) :=
        Bool.and_eq_true_iff.1 (List.all_eq_true.1 hclean c hc)
      refine ⟨rfl, ?_, ?_⟩
      · rw [Reading.get]
        cases hindent : reading.get? .indent with
        | none => rfl
        | some indent => exact hout (fun c hc ↦ (hchars hc).1) hindent
      · rintro name value rfl
        obtain ⟨rfl, hname⟩ := Form.get?_name_of_assign hform
        exact hout (fun c hc ↦ by simpa using (hchars hc).2) hname
  | printCall callee =>
    rw [recognize] at h
    split at h
    · exact absurd h (by simp)
    · obtain rfl := Option.some.inj (Except.ok.inj h)
      exact absurd hpart (by simp [Form.part?])

/-! ## Rules -/

/-- The context stands between the two languages. -/
structure Context.Between (source target : Language) (context : Context) : Prop where
  source : context.source = source.profile
  target : context.target = target.profile

/-- One construct of the kind is recognized in the line.  If it has one part, the text has a comment
exactly if the part has one. -/
def WordsOne (source target : Language) (line : Text) (kind : Kind) (text : Text) : Prop :=
  ∃ category construct,
    Rule.firstConstruct source line (source.recognizers category) = .ok (some construct)
      ∧ construct.kind = kind
      ∧ ∀ part ∈ construct.form.part?, target.commentIn text = [] ↔ target.commentIn part = []

theorem WordsOne.of_iff {kind : Kind} (h : WordsOne source target line kind t)
    (hiff : target.commentIn u = [] ↔ target.commentIn t = []) :
    WordsOne source target line kind u := by
  obtain ⟨category, construct, hfirst, hkind, hpart⟩ := h
  exact ⟨category, construct, hfirst, hkind, fun part hmem ↦ hiff.trans (hpart part hmem)⟩

namespace Rule

variable {context after : Context} {construct : Construct} {outcome : Outcome} {category : Category}

theorem exists_of_firstConstruct {recognizers : List Recognizer}
    (h : firstConstruct source line recognizers = .ok (some construct)) :
    ∃ recognizer ∈ recognizers, recognizer.recognize source line = .ok (some construct) := by
  induction recognizers with
  | nil => exact absurd h (by simp [firstConstruct])
  | cons recognizer others ih =>
    obtain ⟨construct?, hrecognize, h⟩ := bind_eq_ok_iff.1 h
    cases construct? with
    | some found =>
      obtain rfl := Option.some.inj (Except.ok.inj h)
      exact ⟨recognizer, List.mem_cons_self, hrecognize⟩
    | none =>
      obtain ⟨other, hother, hrecognize⟩ := ih h
      exact ⟨other, List.mem_cons_of_mem recognizer hother, hrecognize⟩

theorem commentIn_place_iff {wording : Text} (hspan : construct.span = none)
    (hindent : isUnmarked construct.indent) :
    target.commentIn (place construct line wording) = [] ↔ target.commentIn wording = [] := by
  rw [place, hspan]
  dsimp only
  split
  · rename_i hempty
    rw [List.isEmpty_iff.1 hempty]
  · exact target.commentIn_prepend_iff wording hindent

/-- A construct with one part brings in a comment only with that part. -/
theorem commentIn_express_iff (hcontext : context.Between source target)
    (hfirst : firstConstruct source line (source.recognizers category) = .ok (some construct))
    (h : express context construct line = .ok (outcome, after))
    (hpart : construct.form.part? = some part) :
    target.commentIn outcome.text = [] ↔ target.commentIn part = [] := by
  obtain ⟨recognizer, hmem, hrecognize⟩ := exists_of_firstConstruct hfirst
  obtain ⟨hspan, hindent, hbinds⟩ := Recognizer.isUnmarked_of_recognize
    (Language.isUnmarked_of_mem_recognizers hmem) hrecognize hpart
  rw [express, Construct.kind, Form.lack?_of_part? hpart] at h
  obtain ⟨⟨emission, next⟩, hemit, h⟩ := bind_eq_ok_iff.1 h
  obtain ⟨rfl, -⟩ := Prod.mk.inj (Except.ok.inj h)
  exact (commentIn_place_iff hspan hindent).trans
    (frames_emit hcontext.target hpart hbinds hemit).commentIn_iff

theorem construct?_of_express (h : express context construct line = .ok (outcome, after)) :
    outcome.construct? = some construct := by
  rw [express] at h
  split at h
  · obtain ⟨rfl, -⟩ := Prod.mk.inj (Except.ok.inj h)
    rfl
  · obtain ⟨emission, -, h⟩ := bind_eq_ok_iff.1 h
    obtain ⟨rfl, -⟩ := Prod.mk.inj (Except.ok.inj h)
    rfl

/-- A structural rule leaves the line, or words a construct that it has recognized. -/
theorem restate_cases (hcontext : context.Between source target)
    (h : restate category context line = .ok (outcome, after)) :
    outcome.construct? = none ∧ outcome.text = line
      ∨ ∃ construct, outcome.construct? = some construct
        ∧ WordsOne source target line construct.kind outcome.text := by
  simp only [restate, hcontext.source, Language.language_profile] at h
  split at h
  · obtain ⟨rfl, -⟩ := Prod.mk.inj (Except.ok.inj h)
    exact .inl ⟨rfl, rfl⟩
  · obtain ⟨construct?, hfirst, h⟩ := bind_eq_ok_iff.1 h
    cases construct? with
    | none =>
      obtain ⟨rfl, -⟩ := Prod.mk.inj (Except.ok.inj h)
      exact .inl ⟨rfl, rfl⟩
    | some construct =>
      exact .inr ⟨construct, construct?_of_express h, category, construct, hfirst, rfl,
        fun part hpart ↦ commentIn_express_iff hcontext hfirst h hpart⟩

/-- A rule that recognizes nothing neither makes nor removes a comment; only a structural rule
recognizes anything. -/
theorem apply_cases {rule : Rule} (hcontext : context.Between source target)
    (h : rule.apply context line = .ok (outcome, after)) :
    outcome.construct? = none ∧ (target.commentIn outcome.text = [] ↔ target.commentIn line = [])
      ∨ ∃ category construct, rule = .structural category ∧ outcome.construct? = some construct
        ∧ WordsOne source target line construct.kind outcome.text := by
  cases rule with
  | literals =>
    obtain ⟨rfl, -⟩ := Prod.mk.inj (Except.ok.inj h)
    have hedits := Token.edits_literals hcontext.source hcontext.target line
    exact .inl ⟨rfl, (target.commentIn_edits_iff hedits).symm⟩
  | operators =>
    obtain ⟨rfl, -⟩ := Prod.mk.inj (Except.ok.inj h)
    exact .inl ⟨rfl, (target.commentIn_edits_iff (Token.edits_operators context line)).symm⟩
  | endings =>
    obtain ⟨rfl, -⟩ := Prod.mk.inj (Except.ok.inj h)
    exact .inl ⟨rfl, Language.commentIn_endings_iff hcontext.target line⟩
  | structural category =>
    cases category
    case assignments =>
      obtain ⟨⟨restated, next⟩, hrestate, h⟩ := bind_eq_ok_iff.1 h
      obtain ⟨rfl, rfl⟩ := Prod.mk.inj (Except.ok.inj h)
      have hiff := (target.commentIn_edits_iff (Token.edits_identifiers next restated.text)).symm
      rcases restate_cases hcontext hrestate with ⟨hnone, htext⟩ | ⟨construct, hsome, hwords⟩
      · exact .inl ⟨hnone, by rw [← htext]; exact hiff⟩
      · exact .inr ⟨.assignments, construct, rfl, hsome, hwords.of_iff hiff⟩
    all_goals
      rcases restate_cases hcontext h with ⟨hnone, htext⟩ | ⟨construct, hsome, hwords⟩
      · exact .inl ⟨hnone, by rw [htext]⟩
      · exact .inr ⟨_, construct, rfl, hsome, hwords⟩

/-- Between two languages the rule for assignments is the last structural one, and the token rules
follow. -/
theorem between_cases (source target : Language) :
    between source target = []
      ∨ ∃ categories : List Category, .assignments ∉ categories
        ∧ between source target = categories.map structural
            ++ .structural .assignments :: [literals, operators, endings] := by
  by_cases heq : source = target
  · exact .inl (List.filter_eq_nil_iff.2 fun rule _ ↦ by simp [appliesTo, heq])
  · refine .inr ⟨Category.all.dropLast.filter fun category ↦
      (structural category).appliesTo source target, by simp [Category.all], ?_⟩
    have hlast : [structural .assignments, literals, operators, endings].filter
        (·.appliesTo source target) = [structural .assignments, literals, operators, endings] :=
      List.filter_eq_self.2 (by simp [appliesTo, heq])
    have hall : all = Category.all.dropLast.map structural
        ++ [structural .assignments, literals, operators, endings] := rfl
    rw [between, hall, List.filter_append, hlast, List.filter_map]
    rfl

end Rule

/-! ## Lines -/

namespace RecastLine

variable {base context after : Context} {rule : Rule} {state result : RecastLine}

/-- How the comment of a line under recasting comes from the line, as long as at most one construct
has been recognized. -/
structure Tracks (source target : Language) (base : Context) (line : Text)
    (state : RecastLine × Context) : Prop where
  carries : Carries .oneLine base state
  bare : state.1.kinds = [] → (target.commentIn state.1.text = [] ↔ target.commentIn line = [])
  worded : ∀ kind, state.1.kinds = [kind] → WordsOne source target line kind state.1.text

theorem step_cases (h : step (state, context) rule = .ok (result, after)) :
    ∃ outcome middle, rule.apply context state.text = .ok (outcome, middle)
      ∧ result.text = outcome.text
      ∧ result.kinds = state.kinds ++ (outcome.construct?.map Construct.kind).toList := by
  obtain ⟨⟨outcome, middle⟩, happly, h⟩ := bind_eq_ok_iff.1 h
  refine ⟨outcome, middle, happly, ?_⟩
  dsimp only at h
  split at h
  · rename_i construct hsome
    obtain ⟨rfl, -⟩ := Prod.mk.inj (Except.ok.inj h)
    exact ⟨rfl, by rw [hsome]; rfl⟩
  · rename_i hnone
    obtain ⟨rfl, -⟩ := Prod.mk.inj (Except.ok.inj h)
    exact ⟨rfl, by rw [hnone]; simp⟩

section Run

variable (hbase : base.IsSingleLine) (hlanguages : base.Between source target)
include hbase hlanguages

theorem between_of_carries {state : RecastLine × Context} (h : Carries .oneLine base state) :
    state.2.Between source target := by
  obtain ⟨-, hfollows⟩ := h hbase.hasTrait fun kind _ ↦ Trait.admits_oneLine hbase.target kind
  exact ⟨hfollows.source.trans hlanguages.source, hfollows.target.trans hlanguages.target⟩

/-- A structural rule that finds the line as it was, and a token rule in any case, lets the comment
be tracked further. -/
theorem step_tracks (line : Text) (rule : Rule) (state : RecastLine × Context) :
    Yields
      (fun after ↦ Tracks source target base line state
        → (∀ category, rule = .structural category → state.1.kinds = [] → state.1.text = line)
        → Tracks source target base line after)
      (step state rule) := by
  refine (step_yields .oneLine base state rule).mono_of_eq fun after hstep hkeeps h hstructural ↦ ?_
  obtain ⟨outcome, middle, happly, htext, hkinds⟩ := step_cases hstep
  rcases Rule.apply_cases (between_of_carries hbase hlanguages h.carries) happly with
    ⟨hnone, hiff⟩ | ⟨category, construct, rfl, hsome, hwords⟩
  · rw [hnone, Option.map_none, Option.toList_none, List.append_nil] at hkinds
    rw [← htext] at hiff
    refine ⟨hkeeps h.carries, fun hbare ↦ hiff.trans (h.bare (hkinds ▸ hbare)), fun kind hkind ↦ ?_⟩
    exact (h.worded kind (hkinds ▸ hkind)).of_iff hiff
  · rw [hsome, Option.map_some, Option.toList_some] at hkinds
    refine ⟨hkeeps h.carries, fun hbare ↦ absurd (hkinds ▸ hbare) (by simp), fun kind hkind ↦ ?_⟩
    obtain ⟨hbare, rfl⟩ : state.1.kinds = [] ∧ construct.kind = kind := by
      rw [hkinds] at hkind
      simpa [List.append_eq_singleton_iff] using hkind
    rw [htext, ← hstructural category rfl hbare]
    exact hwords

/-- A structural rule other than that for assignments leaves a line in which it recognizes nothing
as it is. -/
theorem step_text (line : Text) {category : Category} (hcategory : category ≠ .assignments)
    (state : RecastLine × Context) :
    Yields
      (fun after ↦ Carries .oneLine base state → (state.1.kinds = [] → state.1.text = line)
        → after.1.kinds = [] → after.1.text = line)
      (step state (.structural category)) := by
  refine (step_yields .oneLine base state _).mono_of_eq fun after hstep _ hcarries htext hkinds ↦ ?_
  obtain ⟨outcome, middle, happly, hresult, hafter⟩ := step_cases hstep
  obtain ⟨hbare, hnone⟩ := List.append_eq_nil_iff.1 (hafter.symm.trans hkinds)
  have hrestate : Rule.restate category state.2 state.1.text = .ok (outcome, middle) := by
    cases category <;> first | exact happly | exact absurd rfl hcategory
  rcases Rule.restate_cases (between_of_carries hbase hlanguages hcarries) hrestate with
    ⟨-, hsame⟩ | ⟨construct, hsome, -⟩
  · rw [hresult, hsame, htext hbare]
  · simp [hsome] at hnone

/-- The comment of a line can be tracked through all rules. -/
theorem foldlM_tracks (hline : '\n' ∉ line) :
    Yields (Tracks source target base line)
      ((Rule.between source target).foldlM step ({ text := line }, base)) := by
  have hstart : Tracks source target base line ({ text := line }, base) :=
    ⟨fun _ _ ↦ ⟨hline, .refl base⟩, fun _ ↦ Iff.rfl, fun _ hkind ↦ absurd hkind (by simp)⟩
  rcases Rule.between_cases source target with hnil | ⟨categories, hno, heq⟩
  · rw [hnil]
    exact yields_pure.2 hstart
  rw [heq, List.foldlM_append]
  -- Until the rule for assignments a line in which nothing is recognized stays as it is.
  have hearly (rule : Rule) (hrule : rule ∈ categories.map Rule.structural)
      (state : RecastLine × Context) :
      Yields
        (fun after ↦ Tracks source target base line state
            ∧ (state.1.kinds = [] → state.1.text = line)
          → Tracks source target base line after ∧ (after.1.kinds = [] → after.1.text = line))
        (step state rule) := by
    obtain ⟨category, hmem, rfl⟩ := List.mem_map.1 hrule
    have hcategory : category ≠ .assignments := fun h ↦ hno (h ▸ hmem)
    refine ((step_tracks hbase hlanguages line _ state).and
      (step_text hbase hlanguages line hcategory state)).mono ?_
    rintro after ⟨htracks, hsame⟩ ⟨h, htext⟩
    exact ⟨htracks h fun _ _ ↦ htext, hsame h.carries htext⟩
  have hlate (rule : Rule) (hrule : rule ∈ [Rule.literals, .operators, .endings])
      (state : RecastLine × Context) :
      Yields
        (fun after ↦ Tracks source target base line state → Tracks source target base line after)
        (step state rule) := by
    refine (step_tracks hbase hlanguages line rule state).mono fun after htracks h ↦ htracks h ?_
    rintro category rfl
    exact absurd hrule (by simp)
  refine (Yields.foldlM hearly _).bind fun early h ↦ ?_
  obtain ⟨htracks, htext⟩ := h ⟨hstart, fun _ ↦ rfl⟩
  rw [List.foldlM_cons]
  refine (step_tracks hbase hlanguages line _ early).bind fun middle hmiddle ↦ ?_
  exact (Yields.foldlM hlate middle).mono fun after hafter ↦
    hafter (hmiddle htracks fun _ _ ↦ htext)

/-- A line without a comment is tracked from its start to its end. -/
theorem ofLine_tracks (hline : '\n' ∉ line) (hcode : source.commentIn line = []) :
    Yields
      (fun result ↦
        (result.1.kinds = [] → (target.commentIn result.1.text = [] ↔ target.commentIn line = []))
          ∧ ∀ kind, result.1.kinds = [kind]
            → WordsOne source target (Text.trimEnd line) kind result.1.text)
      (ofLine (Rule.between source target) base line) := by
  have hsplit : source.profile.markers.splitComment line = (line, []) := by
    have happend := source.profile.markers.splitComment_append line
    rw [← Language.commentIn, hcode, List.append_nil] at happend
    exact Prod.ext happend hcode
  simp only [ofLine, hlanguages.source, hsplit]
  split
  · exact yields_pure.2 ⟨fun _ ↦ Iff.rfl, fun _ hkind ↦ absurd hkind (by simp)⟩
  · have htrimmed : '\n' ∉ Text.trimEnd line :=
      fun hc ↦ hline ((Text.trimEnd_isPrefix line).subset hc)
    refine (foldlM_tracks hbase hlanguages htrimmed).bind fun state h ↦ yields_pure.2 ?_
    exact ⟨fun hbare ↦ (h.bare hbare).trans (target.commentIn_trimEnd_iff line), h.worded⟩

end Run

/-- The target finds no comment in what has become of a line of code without its markers. -/
theorem commentIn_of_ofLine {recast : RecastLine} (hcontext : ∀ trait, context.HasTrait trait)
    (hlanguages : context.Between source target) (hline : '\n' ∉ line)
    (hcode : source.commentIn line = [])
    (h : ofLine (Rule.between source target) context line = .ok (recast, after))
    (hpass : .pass ∉ recast.kinds)
    (hmarkers : ∀ marker ∈ target.profile.markers.comments, ¬marker <:+: line)
    (hslash : target = .php → .print ∈ recast.kinds → '/' ∉ line) :
    target.commentIn recast.text = [] := by
  have hcode : (context.source.markers.splitComment line).2 = [] := hlanguages.source ▸ hcode
  have hother {kind : Kind} (hkind : kind ∈ recast.kinds) : kind ≠ .pass :=
    fun heq ↦ hpass (heq ▸ hkind)
  refine Language.commentIn_eq_nil_iff.2
    (Markers.untilComment_eq_self_of_not_infix fun marker hmarker ↦ ?_)
  by_cases hphp : target = .php ∧ .print ∈ recast.kinds ∧ marker = "//"
  · -- The output may end in a slash and meet another one, so no slash may be there at all.
    obtain ⟨rfl, hprint, rfl⟩ := hphp
    have hfree : ¬['/'] <:+: recast.text := by
      refine not_infix_of_ofLine (by decide) (hcontext _) hline hcode h (fun kind hkind ↦ ?_)
        (singleton_infix_iff.not.2 (hslash rfl hprint))
      rw [hlanguages.target]
      exact Trait.admits_without _ (hother hkind) (by simp) (fun h ↦ absurd h (by decide))
        fun _ _ ↦ ⟨'/', rfl⟩
    exact fun hin ↦ hfree (singleton_infix_iff.2 (hin.subset List.mem_cons_self))
  · refine not_infix_of_ofLine (Language.isMarker_of_mem_comments hmarker) (hcontext _) hline hcode
      h (fun kind hkind ↦ ?_) (hmarkers marker hmarker)
    rw [hlanguages.target]
    refine Language.admits_without hmarker (hother hkind) ?_
    rintro hlanguage rfl heq
    exact hphp ⟨hlanguage, hkind, heq⟩

/-- What becomes of a line of code, after any lines before it.  The target finds no comment in it if
none of its markers is in the line; output in PHP loses its parentheses, so there a single slash is
a danger too.  Where nothing is recognized, the target finds a comment exactly if it finds one in
the line as written.  Where just one assignment, branch or conditional loop is recognized, it finds
one exactly if it finds one in the value or in the condition. -/
theorem commentIn_recast_of_code (source target : Language) {earlier : List Text} {line : Text}
    (hearlier : ∀ other ∈ earlier, '\n' ∉ other) (hline : '\n' ∉ line)
    (hcode : source.commentIn line = []) :
    ∃ done context recast after,
      ofLines (Rule.between source target) (.start source target) earlier = .ok (done, context)
        ∧ ofLine (Rule.between source target) context line = .ok (recast, after)
        ∧ (.pass ∉ recast.kinds
            → (∀ marker ∈ target.profile.markers.comments, ¬marker <:+: line)
            → (target = .php → .print ∈ recast.kinds → '/' ∉ line)
            → target.commentIn recast.text = [])
        ∧ (recast.kinds = [] → (target.commentIn recast.text = [] ↔ target.commentIn line = []))
        ∧ ∀ kind, recast.kinds = [kind]
            → ∃ category construct,
                Rule.firstConstruct source (Text.trimEnd line) (source.recognizers category)
                    = .ok (some construct)
                  ∧ construct.kind = kind
                  ∧ ∀ part ∈ construct.form.part?,
                      target.commentIn recast.text = [] ↔ target.commentIn part = [] := by
  have hstart := Context.isSingleLine_start source target
  obtain ⟨⟨done, context⟩, hdone, hfollows⟩ :=
    ofLines_follows (Rule.between source target) (.start source target) earlier
  have hfollows := hfollows hstart hearlier
  have hlanguages : context.Between source target := ⟨hfollows.source, hfollows.target⟩
  obtain ⟨⟨recast, after⟩, hrecast, hbare, hworded⟩ :=
    ofLine_tracks (hfollows.isSingleLine hstart) hlanguages hline hcode
  refine ⟨done, context, recast, after, hdone, hrecast, ?_, hbare, hworded⟩
  have hcontext (trait : Trait) : context.HasTrait trait :=
    hfollows.hasTrait (Context.hasTrait_start trait source target)
  exact commentIn_of_ofLine hcontext hlanguages hline hcode hrecast

/-- A marker of the target in a string that both languages quote is no comment. -/
theorem commentIn_recast_of_quoted_marker :
    (∀ other ∈ [("n = 1" : Text)], '\n' ∉ other) ∧ '\n' ∉ ("fetch(\"http://x\")" : Text)
      ∧ Language.python.commentIn "fetch(\"http://x\")" = []
      ∧ ∃ done context recast after,
          ofLines (Rule.between .python .javascript) (.start .python .javascript) ["n = 1"]
              = .ok (done, context)
            ∧ ofLine (Rule.between .python .javascript) context "fetch(\"http://x\")"
              = .ok (recast, after)
            ∧ Language.javascript.commentIn recast.text = [] := by
  have hearlier : ∀ other ∈ [("n = 1" : Text)], '\n' ∉ other :=
    List.forall_mem_singleton.2 (by decide)
  have hline : '\n' ∉ ("fetch(\"http://x\")" : Text) := by decide
  have hcode : Language.python.commentIn "fetch(\"http://x\")" = [] := by decide +kernel
  have hrun :
      ((ofLines (Rule.between .python .javascript) (.start .python .javascript) ["n = 1"]).bind
        fun result ↦ ofLine (Rule.between .python .javascript) result.2 "fetch(\"http://x\")").map
          (fun result ↦ result.1.kinds) = .ok [] := by
    decide +kernel
  obtain ⟨done, context, recast, after, hdone, hrecast, -, hbare, -⟩ :=
    commentIn_recast_of_code .python .javascript hearlier hline hcode
  rw [hdone, Except.bind, hrecast] at hrun
  have hkinds : recast.kinds = [] := Except.ok.inj hrun
  exact ⟨hearlier, hline, hcode, done, context, recast, after, hdone, hrecast,
    (hbare hkinds).2 (by decide +kernel)⟩

/-- A floor division becomes a comment, and the divisor is lost. -/
theorem floor_division_becomes_comment :
    Language.python.commentIn "x = a // b" = []
      ∧ ∃ recast after,
          ofLine (Rule.between .python .javascript) (.start .python .javascript) "x = a // b"
              = .ok (recast, after)
            ∧ recast.kinds = [.assign] ∧ recast.text = "let x = a // b;"
            ∧ Language.javascript.commentIn recast.text = "// b;" := by
  have hrun : (ofLine (Rule.between .python .javascript) (.start .python .javascript)
      "x = a // b").map (fun result ↦ (result.1.kinds, result.1.text))
        = .ok ([Kind.assign], ("let x = a // b;" : Text)) := by
    decide +kernel
  obtain ⟨⟨recast, after⟩, hok, -⟩ := ofLine_yields (Rule.between .python .javascript)
    (.start .python .javascript) "x = a // b"
  rw [hok] at hrun
  obtain ⟨hkinds, htext⟩ := Prod.mk.inj (Except.ok.inj hrun)
  refine ⟨by decide, recast, after, hok, hkinds, htext, ?_⟩
  have htext : recast.text = "let x = a // b;" := htext
  rw [htext]
  decide

end RecastLine

end Recast
