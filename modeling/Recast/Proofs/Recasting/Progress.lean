import Recast.Recasting.Line
import Recast.Proofs.Recasting.Tokens

/-!
# Recasting always comes to an end, in as many lines

Each rule recasts every line: no recognizer and no wording fails.  A rule hands on the traits of the
line that it is given, as far as they admit what it recognizes, and so do all rules together.  To be
of one line is a trait that admits everything.  Hence a program of so many lines is recast into as
many, the line at each place from the line at the same place.
-/

namespace Recast

theorem Yields.and {α : Type} {good better : α → Prop} {computation : Except Fault α}
    (h : Yields good computation) (h' : Yields better computation) :
    Yields (fun a ↦ good a ∧ better a) computation := by
  obtain ⟨a, rfl, ha⟩ := h
  exact yields_ok.2 ⟨ha, yields_ok.1 h'⟩

theorem Yields.mono_of_eq {α : Type} {good better : α → Prop} {computation : Except Fault α}
    (h : Yields good computation) (himp : ∀ a, computation = .ok a → good a → better a) :
    Yields better computation := by
  obtain ⟨a, hok, ha⟩ := h
  exact ⟨a, hok, himp a hok ha⟩

/-- What every step keeps of a good state, all steps together keep. -/
theorem Yields.foldlM {σ α : Type} {good : σ → Prop} {step : σ → α → Except Fault σ} {as : List α}
    (hstep : ∀ a ∈ as, ∀ state, Yields (fun after ↦ good state → good after) (step state a))
    (state : σ) : Yields (fun after ↦ good state → good after) (as.foldlM step state) := by
  induction as generalizing state with
  | nil => exact yields_pure.2 id
  | cons a as ih =>
    obtain ⟨hfirst, hothers⟩ := List.forall_mem_cons.1 hstep
    rw [List.foldlM_cons]
    refine (hfirst state).bind fun middle hmiddle ↦ ?_
    exact (ih hothers middle).mono fun after hafter hgood ↦ hafter (hmiddle hgood)

/-! ## Contexts -/

/-- The context after some rules: the languages are the same, and another name for a caught error is
plain. -/
structure Context.Follows (context after : Context) : Prop where
  source : after.source = context.source
  target : after.target = context.target
  catchVar : after.catchVar = context.catchVar ∨ after.catchVar.all isPlain

namespace Context.Follows

variable {trait : Trait} {context middle after : Context}

theorem refl (context : Context) : context.Follows context :=
  ⟨rfl, rfl, .inl rfl⟩

theorem trans (h : context.Follows middle) (h' : middle.Follows after) :
    context.Follows after := by
  refine ⟨h'.source.trans h.source, h'.target.trans h.target, ?_⟩
  rcases h'.catchVar with hsame | hplain
  · rw [hsame]
    exact h.catchVar
  · exact .inr hplain

theorem foldl_declare (names : List Text) :
    context.Follows (names.foldl Context.declare context) := by
  induction names generalizing context with
  | nil => exact refl context
  | cons name names ih =>
    refine trans ?_ ih
    rw [Context.declare]
    split <;> exact ⟨rfl, rfl, .inl rfl⟩

theorem hasTrait (h : context.Follows after) (hcontext : context.HasTrait trait) :
    after.HasTrait trait := by
  refine ⟨h.target ▸ hcontext.target, ?_⟩
  rcases h.catchVar with hsame | hplain
  · exact hsame ▸ hcontext.catchVar
  · exact Trait.holds_of_plain hplain

theorem isSingleLine (h : context.Follows after) (hcontext : context.IsSingleLine) :
    after.IsSingleLine :=
  ⟨h.target ▸ hcontext.target, (h.hasTrait hcontext.hasTrait).catchVar⟩

end Context.Follows

/-! ## Rules -/

/-- What a rule makes of a line with a trait: the line keeps the trait, if the trait admits the
construct that was recognized. -/
def Outcome.Keeps (trait : Trait) (context : Context) (line : Text) (result : Outcome × Context) :
    Prop :=
  trait.Holds line → context.Follows result.2
    ∧ ((∀ construct ∈ result.1.construct?, trait.Admits context.target construct.kind)
      → context.HasTrait trait → trait.Holds result.1.text)

namespace Rule

variable {trait : Trait} {context : Context} {line : Text}

theorem firstConstruct_yields (trait : Trait) {source : Language} {recognizers : List Recognizer}
    (hrecognizers : ∀ recognizer ∈ recognizers, recognizer.isServed ∧ recognizer.isClear) :
    Yields
      (fun construct? ↦ trait.Holds line → ∀ construct ∈ construct?, construct.HasTrait trait)
      (firstConstruct source line recognizers) := by
  induction recognizers with
  | nil => exact yields_ok.2 (by simp)
  | cons recognizer others ih =>
    obtain ⟨⟨hserved, hclear⟩, hothers⟩ := List.forall_mem_cons.1 hrecognizers
    rw [firstConstruct]
    refine (Recognizer.recognize_hasTrait trait source line hserved).bind
      fun construct? hconstruct ↦ ?_
    cases construct? with
    | some construct => exact yields_pure.2 (hconstruct hclear)
    | none => exact ih hothers

theorem holds_place {construct : Construct} {wording : Text} (hline : trait.Holds line)
    (hindent : construct.indent.all isPlain) (hwording : trait.Holds wording)
    (hspan : construct.span.isSome → trait.Joins wording) :
    trait.Holds (place construct line wording) := by
  rw [place]
  split
  · rename_i start stop hsome
    exact hspan (by simp [hsome]) (trait.of_infix (List.take_prefix start line).isInfix hline)
      (trait.of_infix (List.drop_suffix stop line).isInfix hline)
  · split
    · exact trait.nil
    · exact (Trait.holds_plain_append_iff hindent).2 hwording

theorem express_yields (trait : Trait) (construct : Construct) :
    Yields
      (fun result ↦ construct.HasTrait trait → Outcome.Keeps trait context line result)
      (express context construct line) := by
  rw [express]
  split
  · exact yields_pure.2 fun _ hline ↦ ⟨.refl context, fun _ _ ↦ hline⟩
  · rename_i hlack
    obtain ⟨⟨emission, after⟩, hok, hleads, htext⟩ :=
      Form.emit_hasTrait trait construct.closes hlack
    rw [hok]
    refine yields_pure.2 fun hconstruct hline ↦ ⟨⟨hleads.source, hleads.target, ?_⟩, ?_⟩
    · exact hleads.catchVar.imp_right fun hvar ↦ hconstruct.caughtVar _ hvar
    · intro hadmits hcontext
      have hadmits : trait.Admits context.target construct.kind := hadmits construct rfl
      refine holds_place hline hconstruct.indent (htext hadmits hcontext hconstruct.form) ?_
      intro hspan
      have hprint := hconstruct.span hspan
      exact Form.joins_of_emit hprint (hprint ▸ hadmits) hconstruct.form hok

theorem restate_yields (trait : Trait) (category : Category) :
    Yields (Outcome.Keeps trait context line) (restate category context line) := by
  simp only [restate]
  split
  · exact yields_pure.2 fun hline ↦ ⟨.refl context, fun _ _ ↦ hline⟩
  · refine (firstConstruct_yields trait fun _ h ↦
      ⟨Language.isServed_of_mem_recognizers h, Language.isClear_of_mem_recognizers h⟩).bind
      fun construct? hconstruct ↦ ?_
    cases construct? with
    | none => exact yields_pure.2 fun hline ↦ ⟨.refl context, fun _ _ ↦ hline⟩
    | some construct =>
      exact (express_yields trait construct).mono fun result h hline ↦
        h (hconstruct hline construct rfl) hline

/-- Every rule can be applied to every line. -/
theorem apply_keeps (trait : Trait) (rule : Rule) (context : Context) (line : Text) :
    Yields (Outcome.Keeps trait context line) (rule.apply context line) := by
  cases rule with
  | literals =>
    exact yields_pure.2 fun hline ↦
      ⟨.refl context, fun _ hcontext ↦ Token.holds_literals hcontext hline⟩
  | operators =>
    exact yields_pure.2 fun hline ↦ ⟨.refl context, fun _ _ ↦ Token.holds_operators hline⟩
  | endings =>
    exact yields_pure.2 fun hline ↦
      ⟨.refl context, fun _ hcontext ↦ Token.holds_endings hcontext hline⟩
  | structural category =>
    cases category
    case assignments =>
      refine (restate_yields trait .assignments).bind fun (outcome, after) h ↦
        yields_pure.2 fun hline ↦ ?_
      obtain ⟨hfollows, htext⟩ := h hline
      exact ⟨hfollows, fun hadmits hcontext ↦ Token.holds_identifiers (htext hadmits hcontext)⟩
    all_goals exact restate_yields trait _

theorem apply_yields (rule : Rule) (context : Context) (line : Text) :
    Yields
      (fun result ↦ context.IsSingleLine → '\n' ∉ line
        → '\n' ∉ result.1.text ∧ result.2.IsSingleLine)
      (rule.apply context line) := by
  refine (rule.apply_keeps .oneLine context line).mono fun result h hcontext hline ↦ ?_
  obtain ⟨hfollows, htext⟩ := h hline
  exact ⟨htext (fun _ _ ↦ Trait.admits_oneLine hcontext.target _) hcontext.hasTrait,
    hfollows.isSingleLine hcontext⟩

end Rule

/-! ## Lines -/

namespace RecastLine

variable {trait : Trait} {rules : List Rule} {context : Context} {line : Text} {lines : List Text}

/-- A line under recasting has a trait that admits the constructs recognized in it so far. -/
def Carries (trait : Trait) (context : Context) (state : RecastLine × Context) : Prop :=
  context.HasTrait trait → (∀ kind ∈ state.1.kinds, trait.Admits context.target kind)
    → trait.Holds state.1.text ∧ context.Follows state.2

/-- One rule succeeds on every line, and a trait outlives it. -/
theorem step_yields (trait : Trait) (context : Context) (state : RecastLine × Context)
    (rule : Rule) :
    Yields (fun after ↦ Carries trait context state → Carries trait context after)
      (step state rule) := by
  obtain ⟨line, middle⟩ := state
  refine (rule.apply_keeps trait middle line.text).bind fun (outcome, after) houtcome ↦ ?_
  -- The kinds of the line so far are among those after the rule.
  have hrule (hcarries : Carries trait context (line, middle)) (hcontext : context.HasTrait trait)
      (hkinds : ∀ kind ∈ line.kinds, trait.Admits context.target kind)
      (hconstruct : ∀ construct ∈ outcome.construct?, trait.Admits context.target construct.kind) :
      trait.Holds outcome.text ∧ context.Follows after := by
    obtain ⟨hline, hmiddle⟩ := hcarries hcontext hkinds
    obtain ⟨hafter, htext⟩ := houtcome hline
    refine ⟨htext ?_ (hmiddle.hasTrait hcontext), hmiddle.trans hafter⟩
    rw [hmiddle.target]
    exact hconstruct
  dsimp only
  split
  · rename_i construct hsome
    refine yields_pure.2 fun hcarries hcontext hkinds ↦ ?_
    obtain ⟨hkinds, hkind⟩ := List.forall_mem_append.1 hkinds
    obtain ⟨htext, hafter⟩ := hrule hcarries hcontext hkinds fun construct' hmem ↦ by
      obtain rfl := Option.some.inj (hsome.symm.trans hmem)
      exact hkind _ List.mem_cons_self
    exact ⟨htext, hafter.trans (.foldl_declare _)⟩
  · rename_i hnone
    refine yields_pure.2 fun hcarries hcontext hkinds ↦ ?_
    exact hrule hcarries hcontext hkinds (by simp [hnone])

theorem holds_commentBody (source : Profile) {comment : Text} (h : trait.Holds comment) :
    trait.Holds (commentBody source comment) := by
  rw [commentBody]
  split
  · exact trait.of_infix (List.drop_suffix _ comment).isInfix h
  · exact h

theorem holds_reattach {indent gap comment text : Text}
    (hremark : trait.Joins context.target.lineComment) (hindent : trait.Holds indent)
    (hgap : gap.all isPlain) (hcomment : trait.Holds comment) (htext : trait.Holds text) :
    trait.Holds (reattach context indent gap comment text) := by
  have hbody := holds_commentBody context.source hcomment
  have hbetween : trait.Joins (Text.orElse gap " ") := by
    rw [Text.orElse]
    split
    · exact Trait.joins_of_plain (by decide) (by decide)
    · rename_i hne
      exact Trait.joins_of_plain hgap (by simpa using hne)
  simp only [reattach]
  split
  · rw [← List.append_assoc]
    exact hremark hindent hbody
  · rw [← List.append_assoc]
    exact hremark (hbetween.append_right htext) hbody

/-- A line is recast, and has the trait again if its comment does or if it has none. -/
theorem ofLine_carries (trait : Trait) (rules : List Rule) (context : Context) (line : Text) :
    Yields
      (fun result ↦ context.HasTrait trait → trait.Holds line
        → (∀ kind ∈ result.1.kinds, trait.Admits context.target kind)
        → context.Follows result.2
          ∧ ((context.source.markers.splitComment line).2 = []
              ∨ trait.Joins context.target.lineComment → trait.Holds result.1.text))
      (ofLine rules context line) := by
  have hsplit := context.source.markers.splitComment_append line
  simp only [ofLine]
  generalize context.source.markers.splitComment line = parts at hsplit ⊢
  obtain ⟨code, comment⟩ := parts
  subst hsplit
  split
  · exact yields_pure.2 fun _ hline _ ↦ ⟨.refl context, fun _ ↦ hline⟩
  · refine (Yields.foldlM (fun rule _ state ↦ step_yields trait context state rule) _).bind
      fun (recast, after) hrecast ↦ ?_
    have hkept (hcontext : context.HasTrait trait) (hline : trait.Holds (code ++ comment))
        (hkinds : ∀ kind ∈ recast.kinds, trait.Admits context.target kind) :
        trait.Holds recast.text ∧ context.Follows after := by
      refine hrecast (fun _ _ ↦ ⟨?_, .refl context⟩) hcontext hkinds
      have hcode : Text.trimEnd code <+: code ++ comment :=
        (Text.trimEnd_isPrefix code).trans (List.prefix_append _ _)
      exact trait.of_infix hcode.isInfix hline
    dsimp only
    split
    · refine yields_pure.2 fun hcontext hline hkinds ↦ ?_
      obtain ⟨htext, hafter⟩ := hkept hcontext hline hkinds
      exact ⟨hafter, fun _ ↦ htext⟩
    · rename_i hne
      refine yields_pure.2 fun hcontext hline hkinds ↦ ?_
      obtain ⟨htext, hafter⟩ := hkept hcontext hline hkinds
      refine ⟨hafter, fun hcomment ↦ ?_⟩
      have hremark := hcomment.resolve_left (by simpa using hne)
      rw [← hafter.target] at hremark
      refine holds_reattach hremark ?_ ?_
        (trait.of_infix (List.suffix_append _ _).isInfix hline) htext
      · exact trait.of_infix (List.takeWhile_prefix isBlank).isInfix hline
      · rw [List.all_eq_true]
        intro c hc
        refine isPlain_of_isBlank (Text.isBlank_of_mem_gap hc) ?_
        rintro rfl
        exact trait.newline_notMem hline (List.mem_append_left _ (Text.mem_of_mem_gap hc))

theorem ofLine_yields (rules : List Rule) (context : Context) (line : Text) :
    Yields (fun after ↦ context.IsSingleLine → '\n' ∉ line
        → '\n' ∉ after.1.text ∧ after.2.IsSingleLine)
      (ofLine rules context line) := by
  refine (ofLine_carries .oneLine rules context line).mono fun result h hcontext hline ↦ ?_
  obtain ⟨hfollows, htext⟩ := h hcontext.hasTrait hline
    fun kind _ ↦ Trait.admits_oneLine hcontext.target kind
  exact ⟨htext (.inr (Trait.joins_oneLine hcontext.target.lineComment)),
    hfollows.isSingleLine hcontext⟩

/-- The lines of a program are recast one by one, and each into one line. -/
theorem ofLines_yields (rules : List Rule) (context : Context) (lines : List Text) :
    Yields
      (fun result ↦ result.1.length = lines.length
        ∧ (context.IsSingleLine → (∀ line ∈ lines, '\n' ∉ line)
          → ∀ recast ∈ result.1, '\n' ∉ recast.text))
      (ofLines rules context lines) := by
  induction lines generalizing context with
  | nil => exact yields_ok.2 (by simp)
  | cons line lines ih =>
    rw [ofLines]
    refine (ofLine_yields rules context line).bind fun (recast, middle) hrecast ↦ ?_
    refine (ih middle).bind fun (others, after) ⟨hlength, hothers⟩ ↦ yields_pure.2 ⟨?_, ?_⟩
    · simpa using hlength
    · intro hcontext hlines other hother
      obtain ⟨htext, hmiddle⟩ := hrecast hcontext (hlines line List.mem_cons_self)
      rcases List.mem_cons.1 hother with rfl | hother
      · exact htext
      · exact hothers hmiddle (fun l hl ↦ hlines l (List.mem_cons_of_mem line hl)) other hother

/-- The context that some lines leave behind. -/
theorem ofLines_follows (rules : List Rule) (context : Context) (lines : List Text) :
    Yields
      (fun result ↦ context.IsSingleLine → (∀ line ∈ lines, '\n' ∉ line)
        → context.Follows result.2)
      (ofLines rules context lines) := by
  induction lines generalizing context with
  | nil => exact yields_ok.2 fun _ _ ↦ .refl context
  | cons line lines ih =>
    rw [ofLines]
    refine (ofLine_carries .oneLine rules context line).bind fun (recast, middle) hrecast ↦ ?_
    refine (ih middle).bind fun (others, after) hothers ↦ yields_pure.2 fun hcontext hlines ↦ ?_
    obtain ⟨hline, hlines⟩ := List.forall_mem_cons.1 hlines
    obtain ⟨hmiddle, -⟩ := hrecast hcontext.hasTrait hline
      fun kind _ ↦ Trait.admits_oneLine hcontext.target kind
    exact hmiddle.trans (hothers (hmiddle.isSingleLine hcontext) hlines)

theorem ofLines_cons {first : RecastLine} {others : List RecastLine} {middle after : Context}
    (hfirst : ofLine rules context line = .ok (first, middle))
    (hothers : ofLines rules middle lines = .ok (others, after)) :
    ofLines rules context (line :: lines) = .ok (first :: others, after) := by
  rw [ofLines, hfirst, ok_bind]
  dsimp only
  rw [hothers]
  rfl

/-- The line at a place is recast in the context that the lines before it leave. -/
theorem ofLine_of_ofLines {recasts : List RecastLine} {after : Context}
    (h : ofLines rules context lines = .ok (recasts, after)) {i : Nat} {line : Text}
    {recast : RecastLine} (hline : lines[i]? = some line) (hrecast : recasts[i]? = some recast) :
    ∃ before next, ofLines rules context (lines.take i) = .ok (recasts.take i, before)
      ∧ ofLine rules before line = .ok (recast, next) := by
  induction lines generalizing context recasts i with
  | nil => simp at hline
  | cons first lines ih =>
    obtain ⟨⟨kept, middle⟩, hfirst, -⟩ := ofLine_yields rules context first
    obtain ⟨⟨others, final⟩, hothers, -⟩ := ofLines_yields rules middle lines
    obtain ⟨rfl, rfl⟩ : recasts = kept :: others ∧ after = final := by
      rw [ofLines_cons hfirst hothers] at h
      simpa [eq_comm] using h
    cases i with
    | zero =>
      obtain rfl : first = line := by simpa using hline
      obtain rfl : kept = recast := by simpa using hrecast
      exact ⟨context, middle, rfl, hfirst⟩
    | succ i =>
      obtain ⟨before, next, htake, hof⟩ :=
        ih hothers (by simpa using hline) (by simpa using hrecast)
      exact ⟨before, next, ofLines_cons hfirst htake, hof⟩

end RecastLine

end Recast
