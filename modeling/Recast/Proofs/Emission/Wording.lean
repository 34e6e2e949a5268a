import Recast.Emission.All
import Recast.Proofs.Construct.Parts
import Recast.Proofs.Language.Profile

/-!
# Wording constructs

The tables of wordings have gaps: no language without classes has the head of a class, no language
without exceptions the type of one.  A form is worded by other means where a table has a gap, or its
kind is one that the target lacks, so every form of a kind that the target does not lack has a
wording.  The wording has the traits of the form, if these admit what some wordings bring along: a
comment, the mark of a directive, slashes between the components of a path.
-/

namespace Recast

variable {trait : Trait}

/-! ## What the target contributes -/

/-- Neither the target nor the name of the last catch clause brings in a line feed. -/
structure Context.IsSingleLine (context : Context) : Prop where
  target : context.target.IsSingleLine
  catchVar : '\n' ∉ context.catchVar

theorem Context.isSingleLine_start (source target : Language) :
    (start source target).IsSingleLine :=
  ⟨target.isSingleLine_profile, show '\n' ∉ ("e" : Text) by decide⟩

/-- The words of the target and the name of the last catch clause have the trait. -/
structure Context.HasTrait (trait : Trait) (context : Context) : Prop where
  target : context.target.HasTrait trait
  catchVar : trait.Holds context.catchVar

theorem Context.IsSingleLine.hasTrait {context : Context} (h : context.IsSingleLine) :
    context.HasTrait .oneLine :=
  ⟨h.target.hasTrait, h.catchVar⟩

/-- The context that a form leaves behind: only a catch clause binds another name. -/
structure Context.Leads (context : Context) (form : Form) (after : Context) : Prop where
  source : after.source = context.source
  target : after.target = context.target
  catchVar : after.catchVar = context.catchVar ∨ form.caughtVar? = some after.catchVar

theorem Context.leads_refl (context : Context) (form : Form) : context.Leads form context :=
  ⟨rfl, rfl, .inl rfl⟩

theorem Context.leads_declare (context : Context) (form : Form) (name : Text) :
    context.Leads form (context.declare name) := by
  rw [Context.declare]
  split <;> exact ⟨rfl, rfl, .inl rfl⟩

/-- What a trait has to bear for the wordings of a kind: nothing but the four exceptions. -/
structure Trait.Admits (trait : Trait) (target : Profile) (kind : Kind) : Prop where
  /-- A statement that does nothing becomes a comment. -/
  remark : kind = .pass → trait.Holds target.lineComment
  /-- An import may start with the mark of a directive. -/
  directive : kind = .importModule ∨ kind = .importNames → target.language = .cpp →
    ∀ ⦃t : Text⦄, trait.Holds t → trait.Holds ('#' :: t)
  /-- The components of a path may be joined by slashes. -/
  path : kind = .importModule ∨ kind = .importNames →
    Emission.pathSeparator? target.language = some ['/'] →
    ∀ ⦃t u : Text⦄, trait.Holds t → trait.Holds u → t.getLast? ≠ some '/' → u.head? ≠ some '/' →
      trait.Holds (t ++ '/' :: u)
  /-- Output without a closing parenthesis runs into what follows it. -/
  output : kind = .print → target.language = .php ∨ target.language = .ruby →
    ∀ ⦃t u : Text⦄, trait.Holds t → trait.Holds u → trait.Holds (t ++ u)

theorem Trait.admits_oneLine {target : Profile} (h : target.IsSingleLine) (kind : Kind) :
    oneLine.Admits target kind where
  remark _ := h.lineComment
  directive _ _ t ht := by simpa [oneLine] using ht
  path _ _ t u ht hu _ _ := by simp_all [oneLine]
  output _ _ t u ht hu := by simp_all [oneLine]

@[simp]
theorem holds_closing_append_iff {context : Context} {closes : Bool} {t : Text} :
    trait.Holds (closing context closes ++ t) ↔ trait.Holds t := by
  rw [closing]
  split <;> simp [isPlain]

@[simp]
theorem holds_closing {context : Context} {closes : Bool} :
    trait.Holds (closing context closes) := by
  rw [closing]
  split <;> simp [isPlain]

theorem holds_of_mem_filled {part? : Option Text} (h : ∀ part ∈ part?, trait.Holds part) :
    ∀ part ∈ filled part?, trait.Holds part := by
  intro part hpart
  exact h part (Option.eq_some_of_filter_eq_some hpart)

namespace Profile

variable {target : Profile} {t : Text}

theorem holds_block (h : trait.Holds t) : trait.Holds (target.block t) := by
  rw [block]
  split <;> simp [h, isPlain]

theorem holds_conditionBlock (target : Profile) {keyword : Text} (hkeyword : trait.Holds keyword)
    (h : trait.Holds t) : trait.Holds (target.conditionBlock keyword t) := by
  rw [conditionBlock]
  split
  · exact holds_block (by simp [hkeyword, h, isPlain])
  · exact holds_block (by simp [hkeyword, h, isPlain])

@[simp]
theorem holds_variableName_append_iff {after : Text} :
    trait.Holds (target.variableName t ++ after) ↔ trait.Holds (t ++ after) := by
  rw [variableName]
  split <;> simp [isPlain]

@[simp]
theorem holds_variableName_iff : trait.Holds (target.variableName t) ↔ trait.Holds t := by
  rw [variableName]
  split <;> simp [isPlain]

theorem holds_terminate (htarget : target.HasTrait trait) (h : trait.Holds t) :
    trait.Holds (terminate target t) := by
  rw [terminate]
  split
  · rename_i terminator hterminator
    split
    · exact (htarget.terminator terminator hterminator).append_right h
    · exact h
  · exact h

end Profile

theorem wording_yields {α : Type} {good : α → Prop} {kind : Kind} {target : Profile}
    {entry : Option α} (h : ∃ a, entry = some a ∧ good a) :
    Yields good (wording kind target entry) := by
  obtain ⟨a, rfl, hgood⟩ := h
  exact yields_ok.2 hgood

namespace Emission

variable {context : Context} {target : Profile} {name value : Text}

/-! ## Definitions -/

theorem exists_functionHead? (trait : Trait) (name params : Text) (language : Language) :
    ∃ head, functionHead? name params language = some head
      ∧ (trait.Holds name → trait.Holds params → trait.Holds head) := by
  cases language <;> simp +contextual [functionHead?, isPlain]

theorem holds_typedParam (language : Language) (h : trait.Holds name) :
    trait.Holds (typedParam language name) := by
  unfold typedParam
  split <;> simp [h, isPlain]

theorem holds_renderParam {param : Text} (h : trait.Holds param) :
    trait.Holds (renderParam target param).1 := by
  have hname := trait.of_infix (Text.cut_fst_isPrefix " = " param).isInfix h
  have htyped := holds_typedParam target.language hname
  rw [renderParam]
  split
  · rename_i kept hcut
    rwa [hcut] at htyped
  · rename_i kept value hcut
    have hvalue := trait.of_infix (Text.cut_snd_suffix (congrArg Prod.snd hcut)).isInfix h
    rw [hcut] at htyped
    split
    · simp [htyped, hvalue, isPlain]
    · exact htyped

theorem mem_of_mem_ownParams {language : Language} {params : List Text} {param : Text}
    (h : param ∈ ownParams language params) : param ∈ params := by
  cases params with
  | nil => exact h
  | cons first others =>
    rw [ownParams] at h
    split at h
    · exact List.mem_cons_of_mem first h
    · exact h

theorem function_yields (trait : Trait) (name : Text) (params : List Text) :
    Yields
      (fun emission ↦ trait.Holds name → (∀ param ∈ params, trait.Holds param)
        → trait.Holds emission.text)
      (function target name params) := by
  refine (wording_yields (exists_functionHead? trait name _ target.language)).bind
    fun head hhead ↦ ?_
  rw [yields_pure]
  intro hname hparams
  apply Profile.holds_block
  split
  · simp [hname, isPlain]
  · apply hhead hname
    apply Trait.holds_joinWith (Trait.joins_of_plain (by decide) (by decide))
    intro rendered hrendered
    simp only [List.map_map, List.mem_map] at hrendered
    obtain ⟨param, hparam, rfl⟩ := hrendered
    exact holds_renderParam (hparams param (mem_of_mem_ownParams hparam))

/-- A language without classes has structures. -/
theorem exists_classHead? (trait : Trait) (name : Text) (base? : Option Text) {language : Language}
    (h : structHead? name language = none) :
    ∃ head, classHead? name base? language = some head
      ∧ (trait.Holds name → (∀ base ∈ base?, trait.Holds base) → trait.Holds head) := by
  cases language
  case go | rust => exact absurd h (by simp [structHead?])
  all_goals
    refine ⟨_, rfl, fun hname hbase ↦ ?_⟩
    cases base? with
    | none => simp [Text.around, hname, isPlain]
    | some base => simp [Text.around, hname, hbase base rfl, isPlain]

theorem holds_structHead? {language : Language} {head : Text} (hname : trait.Holds name)
    (h : structHead? name language = some head) : trait.Holds head := by
  cases language <;> simp [structHead?] at h <;> simp [← h, hname, isPlain]

theorem classDef_yields (trait : Trait) (name : Text) (base : Option Text) :
    Yields
      (fun emission ↦ trait.Holds name → (∀ t ∈ base, trait.Holds t)
        → trait.Holds emission.text)
      (classDef target name base) := by
  rw [classDef]
  split
  · rename_i head hhead
    rw [yields_pure]
    exact fun hname _ ↦ Profile.holds_block (holds_structHead? hname hhead)
  · rename_i hnone
    refine (wording_yields (exists_classHead? trait name (filled base) hnone)).bind
      fun head hhead ↦ ?_
    rw [yields_pure]
    exact fun hname hbase ↦ Profile.holds_block (hhead hname (holds_of_mem_filled hbase))

end Emission

/-! ## Loops -/

namespace RangeHeader

/-- The texts that a header is made of. -/
def texts : RangeHeader → List Text
  | call args => args
  | times count => [count]
  | interval start stop => [start, stop]
  | walk start limit step => [start, limit, step]
  | spanUp start stop every => start :: stop :: every.toList
  | spanDown low high every => low :: high :: every.toList
  | counted start stop _ amount => [start, stop, amount]

/-- Whether the language has the words for the header. -/
def isWorded (language : Language) : RangeHeader → Bool
  | counted .. => language = .go || (declaration? language).isSome
  | _ => true

/-- The header that is chosen for a language is one that the language has words for. -/
theorem isWorded_ofBounds (language : Language) (start stop step : Text) :
    (ofBounds language start stop step).isWorded language := by
  unfold ofBounds
  cases language <;> dsimp only <;> split <;> try rfl
  all_goals split <;> rfl

theorem infix_of_downAmount? {step amount : Text} (h : downAmount? step = some amount) :
    amount <:+: step := by
  fun_cases downAmount? step with
  | case1 rest =>
    obtain rfl := Option.some.inj h
    exact (Text.trim_isInfix rest).trans (List.suffix_cons '-' rest).isInfix
  | case2 => exact absurd h (by simp [downAmount?])

theorem eq_of_unlessOne {step amount : Text} (h : unlessOne step = some amount) :
    amount = step := by
  rw [unlessOne] at h
  split at h
  · exact absurd h (by simp)
  · exact (Option.some.inj h).symm

theorem holds_of_mem_texts_ofBounds {language : Language} {start stop step : Text}
    (hstart : trait.Holds start) (hstop : trait.Holds stop) (hstep : trait.Holds step) :
    ∀ t ∈ (ofBounds language start stop step).texts, trait.Holds t := by
  have hdown {amount : Text} (h : downAmount? step = some amount) : trait.Holds amount :=
    trait.of_infix (infix_of_downAmount? h) hstep
  have hevery {amount every : Text} (h : trait.Holds amount) (hmem : every ∈ unlessOne amount) :
      trait.Holds every :=
    eq_of_unlessOne hmem ▸ h
  fun_cases ofBounds language start stop step <;> simp only [texts] <;> grind

theorem holds_update {var amount after : Text} (hvar : trait.Holds var)
    (hamount : trait.Holds (amount ++ after)) (hafter : trait.Holds after) (down : Bool) :
    trait.Holds (update var down amount ++ after) := by
  rw [update]
  cases down <;> split <;> simp [hvar, hamount, hafter, isPlain]

theorem render_yields (trait : Trait) {target : Profile} {var : Text} {header : RangeHeader}
    (hworded : header.isWorded target.language) :
    Yields (fun t ↦ trait.Holds var → (∀ t ∈ header.texts, trait.Holds t) → trait.Holds t)
      (header.render target var) := by
  cases header
  case counted start stop down amount =>
    simp only [render, texts, List.forall_mem_cons]
    split
    · rw [yields_pure]
      rintro hvar ⟨hstart, hstop, hamount, -⟩
      have hupdate : trait.Holds (update (target.variableName var) down amount ++ [' ', '{']) :=
        holds_update (by simpa using hvar) (by simp [hamount, isPlain]) (by simp [isPlain]) down
      cases down <;> simpa [hvar, hstart, hstop, isPlain] using hupdate
    · rename_i hgo
      have hentry : ∃ declaration, declaration? target.language = some declaration
          ∧ declaration.all isPlain := by
        cases hlanguage : target.language <;> simp_all [declaration?, isWorded, isPlain]
      refine (wording_yields hentry).bind fun declaration hdeclaration ↦ ?_
      rw [yields_pure]
      rintro hvar ⟨hstart, hstop, hamount, -⟩
      have hupdate : trait.Holds (update (target.variableName var) down amount
          ++ [')', ' ', '{']) :=
        holds_update (by simpa using hvar) (by simp [hamount, isPlain]) (by simp [isPlain]) down
      cases down <;>
        simpa [Trait.holds_plain_append_iff hdeclaration, hvar, hstart, hstop, isPlain] using hupdate
  case call args =>
    rw [render, yields_ok]
    intro hvar hargs
    have hlist : trait.Holds (Text.joinWith ", " args) :=
      Trait.holds_joinWith (Trait.joins_of_plain (by decide) (by decide)) hargs
    simpa [hvar, isPlain] using hlist
  case spanUp start stop every | spanDown start stop every =>
    cases every <;> simp +contextual [render, texts, Text.around, isPlain]
  all_goals simp +contextual [render, texts, isPlain]

end RangeHeader

namespace Emission

variable {context : Context} {target : Profile}

theorem holds_list {texts : List Text} (h : ∀ t ∈ texts, trait.Holds t) :
    trait.Holds (Text.joinWith [',', ' '] texts) :=
  Trait.holds_joinWith (Trait.joins_of_plain (by decide) (by decide)) h

theorem forRange_yields (trait : Trait) (var start stop step : Text) :
    Yields
      (fun emission ↦ (Form.forRange var start stop step).HasTrait trait
        → trait.Holds emission.text)
      (forRange target var start stop step) := by
  refine (RangeHeader.render_yields trait (RangeHeader.isWorded_ofBounds ..)).bind
    fun header hheader ↦ ?_
  rw [yields_pure, Form.hasTrait_forRange]
  rintro ⟨hvar, hstart, hstop, hstep⟩
  exact hheader hvar (RangeHeader.holds_of_mem_texts_ofBounds hstart hstop hstep)

theorem exists_forEachHeader? (trait : Trait) (var iterable : Text) (language : Language) :
    ∃ header, forEachHeader? var iterable language = some header
      ∧ (trait.Holds var → trait.Holds iterable → trait.Holds header) := by
  cases language <;> simp +contextual [forEachHeader?, isPlain]

theorem holds_destructured? {language : Language} {names pattern : Text}
    (hnames : trait.Holds names) (h : destructured? names language = some pattern) :
    trait.Holds pattern := by
  cases language <;> simp [destructured?] at h <;> simp [← h, hnames, isPlain]

theorem forEach_yields (trait : Trait) (var iterable : Text) :
    Yields
      (fun emission ↦ trait.Holds var → trait.Holds iterable → trait.Holds emission.text)
      (forEach target var iterable) := by
  have hnames (hvar : trait.Holds var) : ∀ name ∈ (Text.splitOn ',' var).map
      fun name ↦ target.variableName (Text.trim name), trait.Holds name := by
    intro name hname
    obtain ⟨piece, hpiece, rfl⟩ := List.mem_map.1 hname
    rw [Profile.holds_variableName_iff]
    exact trait.of_infix ((Text.trim_isInfix piece).trans (Text.infix_of_mem_splitOn hpiece)) hvar
  simp only [forEach]
  generalize (Text.splitOn ',' var).map (fun name ↦ target.variableName (Text.trim name)) = names
    at hnames ⊢
  have hheader (pattern : Text) :
      Yields (fun header ↦ trait.Holds pattern → trait.Holds iterable → trait.Holds header)
        (wording .forEach target (forEachHeader? pattern iterable target.language)) :=
    wording_yields (exists_forEachHeader? trait pattern iterable target.language)
  have hjoined (hvar : trait.Holds var) : trait.Holds (Text.joinWith ", " names) :=
    holds_list (hnames hvar)
  split
  · rename_i name
    refine (hheader name).bind fun header hheader ↦ ?_
    rw [yields_pure]
    exact fun hvar hiterable ↦ hheader (hnames hvar name List.mem_cons_self) hiterable
  · split
    · rw [yields_pure]
      intro hvar hiterable
      simpa [hiterable, isPlain] using hjoined hvar
    · split
      · rename_i pattern hpattern
        refine (hheader pattern).bind fun header hheader ↦ ?_
        rw [yields_pure]
        exact fun hvar ↦ hheader (holds_destructured? (hjoined hvar) hpattern)
      · refine (hheader (Text.joinWith ", " names)).bind fun header hheader ↦ ?_
        rw [yields_pure]
        exact fun hvar ↦ hheader (hjoined hvar)

theorem holds_forCounted {initial test update : Text} (hinitial : trait.Holds initial)
    (htest : trait.Holds test) (hupdate : trait.Holds update) :
    trait.Holds (forCounted target initial test update).text := by
  simp only [forCounted]
  split <;> simp [hinitial, htest, hupdate, isPlain]

theorem holds_whileLoop {cond : Text} (htarget : target.HasTrait trait)
    (hcond : trait.Holds cond) : trait.Holds (whileLoop target cond).text := by
  have hfilled : trait.Holds (Text.orElse cond target.trueLiteral) := by
    rw [Text.orElse]
    split
    · exact htarget.trueLiteral.holds
    · exact hcond
  simp only [whileLoop]
  split
  · simp [hfilled, isPlain]
  · exact Profile.holds_conditionBlock _ (by simp [isPlain]) hfilled

/-! ## Exceptions -/

theorem exists_catchType? (trait : Trait) {language : Language}
    (hlack : Kind.catchClause.lack? language = none)
    (h : language ≠ .javascript ∧ language ≠ .typescript) :
    ∃ type, catchType? language = some type ∧ trait.Holds type := by
  cases language <;> simp_all [catchType?, Kind.lack?, isPlain]

theorem catchText_yields (trait : Trait) {type? var? : Option Text} {bound : Text} {closes : Bool}
    (hlack : Kind.catchClause.lack? context.target.language = none) :
    Yields
      (fun t ↦ (∀ type ∈ type?, trait.Holds type) → (∀ var ∈ var?, trait.Holds var)
        → trait.Holds bound → trait.Holds t)
      (catchText context closes type? var? bound) := by
  simp only [catchText]
  split
  case h_1 hpython =>
    have hclause (type : Text) (htype : trait.Holds type) (hvar : ∀ var ∈ var?, trait.Holds var) :
        trait.Holds ("except " ++ type ++ Text.around " as " var? [] ++ ":") := by
      cases var? with
      | none => simp [Text.around, htype, isPlain]
      | some var => simp [Text.around, htype, hvar var rfl, isPlain]
    split
    · exact yields_pure.2 fun _ _ _ ↦ by simp [isPlain]
    · cases type? with
      | some type =>
        simp only [pure_bind, yields_pure]
        exact fun htype hvar _ ↦ hclause type (htype type rfl) hvar
      | none =>
        refine (wording_yields (exists_catchType? trait hlack (by simp [hpython]))).bind
          fun type htype ↦ ?_
        exact yields_pure.2 fun _ hvar _ ↦ hclause type htype hvar
  case h_2 =>
    rw [yields_pure]
    intro htype hvar _
    cases type? <;> cases var? <;> simp_all [Text.around, isPlain]
  case h_3 | h_4 =>
    rw [yields_pure]
    intro _ _ hbound
    simp [hbound, isPlain]
  case h_5 hjs hts =>
    have hclause (type : Text) (hbound : trait.Holds bound) (htype : trait.Holds type) :
        trait.Holds (closing context closes ++ "catch (const " ++ type ++ "& " ++ bound ++ ")"
            ++ [' ', '{'])
          ∧ trait.Holds (closing context closes ++ "catch (" ++ type ++ " "
            ++ context.target.variableName bound ++ ")" ++ [' ', '{']) := by
      simp [hbound, htype, isPlain]
    cases type? with
    | some type =>
      simp only [pure_bind]
      split
      · exact yields_pure.2 fun htype _ hbound ↦ (hclause type hbound (htype type rfl)).1
      · exact yields_pure.2 fun htype _ hbound ↦ (hclause type hbound (htype type rfl)).2
    | none =>
      refine (wording_yields (exists_catchType? trait hlack ⟨hjs, hts⟩)).bind fun type htype ↦ ?_
      split
      · exact yields_pure.2 fun _ _ hbound ↦ (hclause type hbound htype).1
      · exact yields_pure.2 fun _ _ hbound ↦ (hclause type hbound htype).2

theorem catchClause_yields (trait : Trait) {excType excVar : Option Text} {closes : Bool}
    (hlack : Kind.catchClause.lack? context.target.language = none) :
    Yields
      (fun result ↦ context.Leads (.catchClause excType excVar) result.2
        ∧ (context.HasTrait trait → (Form.catchClause excType excVar).HasTrait trait
          → trait.Holds result.1.text))
      (catchClause context closes excType excVar) := by
  refine (catchText_yields trait hlack).bind fun clause hclause ↦ ?_
  rw [yields_pure]
  refine ⟨⟨rfl, rfl, ?_⟩, fun hcontext hform ↦ ?_⟩
  · cases hfilled : filled excVar with
    | none => exact .inl rfl
    | some var => exact .inr (Option.eq_some_of_filter_eq_some hfilled)
  · have htype : ∀ t ∈ excType, trait.Holds t :=
      fun t ht ↦ hform t (by simp [Form.texts, Option.mem_def.1 ht])
    have hvar : ∀ t ∈ filled excVar, trait.Holds t :=
      holds_of_mem_filled fun t ht ↦ hform t (by simp [Form.texts, Option.mem_def.1 ht])
    have hbound : trait.Holds ((filled excVar).getD context.catchVar) := by
      cases hfilled : filled excVar with
      | none => exact hcontext.catchVar
      | some var => exact hvar var hfilled
    refine hclause ?_ hvar hbound
    exact holds_of_mem_filled fun t ht ↦ htype t (Option.eq_some_of_filter_eq_some ht)

theorem holds_finallyBlock {closes : Bool} : trait.Holds (finallyBlock context closes).text := by
  rw [finallyBlock]
  split
  · simp [isPlain]
  · rw [holds_closing_append_iff]
    exact Profile.holds_block (by simp [isPlain])

theorem holds_panicPayload {error value message : Option Text} (hcontext : context.HasTrait trait)
    (h : (Form.raise error value message).HasTrait trait) :
    trait.Holds (panicPayload context error value message) := by
  have hfilled {part? : Option Text} {part : Text} (hpart : filled part? = some part)
      (hmem : ∀ t ∈ part?, t ∈ (Form.raise error value message).texts) : trait.Holds part :=
    holds_of_mem_filled (fun t ht ↦ h t (hmem t ht)) part hpart
  rw [panicPayload]
  split
  case h_1 hmessage => exact hfilled hmessage (by simp +contextual [Form.texts])
  case h_2 hvalue => exact hfilled hvalue (by simp +contextual [Form.texts])
  case h_3 herror =>
    simpa [isPlain] using hfilled herror (by simp +contextual [Form.texts])
  case h_4 => exact hcontext.catchVar

theorem exists_raiseType? (trait : Trait) {language : Language}
    (h : language ≠ .go ∧ language ≠ .rust) :
    ∃ type, raiseType? language = some type ∧ trait.Holds type := by
  cases language <;> simp_all [raiseType?, isPlain]

theorem holds_raiseText {language : Language} {error message : Text}
    (herror : trait.Holds error) (hmessage : trait.Holds message) :
    trait.Holds (raiseText language error message) := by
  unfold raiseText
  split
  case h_2 => split <;> simp [herror, hmessage, isPlain]
  all_goals simp [herror, hmessage, isPlain]

theorem raise_yields (trait : Trait) {error value message : Option Text} :
    Yields
      (fun emission ↦ context.HasTrait trait → (Form.raise error value message).HasTrait trait
        → trait.Holds emission.text)
      (raise context error value message) := by
  have hkeyword : trait.Holds (if context.target.language = .python
      || context.target.language = .ruby then "raise" else "throw" : Text) := by
    split <;> simp [isPlain]
  simp only [raise]
  split
  case h_1 =>
    rw [yields_pure]
    intro hcontext hform
    simp [holds_panicPayload hcontext hform, isPlain]
  case h_2 =>
    split <;> rw [yields_pure] <;> intro hcontext hform <;>
      simp [holds_panicPayload hcontext hform, isPlain]
  case h_3 hgo hrust =>
    generalize (if context.target.language = .python || context.target.language = .ruby
        then "raise" else "throw" : Text) = keyword at hkeyword ⊢
    split
    · split <;> rw [yields_pure] <;> intro hcontext hform
      case h_4 => simp [hcontext.catchVar, hkeyword, isPlain]
      all_goals exact hkeyword
    · rename_i value
      rw [yields_pure]
      intro hcontext hform
      simp [hform value (by simp [Form.texts]), hkeyword, isPlain]
    · have hmessage (hform : (Form.raise error none message).HasTrait trait) :
          trait.Holds (message.getD []) := by
        cases message with
        | none => exact trait.nil
        | some message => exact hform message (by simp [Form.texts])
      split
      · rename_i kept herror
        rw [pure_bind, yields_pure]
        intro _ hform
        apply holds_raiseText _ (hmessage hform)
        apply hform kept
        simp [Form.texts, Option.eq_some_of_filter_eq_some herror]
      · refine (wording_yields (exists_raiseType? trait ⟨hgo, hrust⟩)).bind fun type htype ↦ ?_
        rw [yields_pure]
        exact fun _ hform ↦ holds_raiseText htype (hmessage hform)

/-! ## Imports -/

theorem exists_pathSeparator? (language : Language) :
    ∃ separator, pathSeparator? language = some separator
      ∧ (separator = ['/'] ∨ separator.all isPlain ∧ separator ≠ []) := by
  cases language <;> simp [pathSeparator?, isPlain]

theorem dropExtension_isPrefix (path : Text) : dropExtension path <+: path := by
  rw [dropExtension]
  split
  · exact List.take_prefix _ _
  · exact List.prefix_refl path

theorem holds_of_mem_pathComponents {module component : Text} (hmodule : trait.Holds module)
    (h : component ∈ pathComponents module) : trait.Holds component :=
  trait.of_infix ((Pattern.infix_of_mem_split (List.mem_filter.1 h).1).trans
    ((dropExtension_isPrefix _).isInfix.trans (Text.trim_isInfix module))) hmodule

/-- A slash always separates two components. -/
theorem slash_notMem_of_mem_pathComponents {module component : Text}
    (h : component ∈ pathComponents module) : '/' ∉ component :=
  Pattern.notMem_of_mem_split (fun _ _ ↦ rfl) (List.mem_filter.1 h).1

theorem head?_joinWith_slash {components : List Text}
    (hcomponents : ∀ component ∈ components, component ≠ [] ∧ '/' ∉ component) :
    (Text.joinWith ['/'] components).head? ≠ some '/' := by
  cases components with
  | nil => simp [Text.joinWith]
  | cons first others =>
    obtain ⟨hne, hslash⟩ := hcomponents first List.mem_cons_self
    obtain ⟨c, first, rfl⟩ := List.exists_cons_of_ne_nil hne
    have hc : c ≠ '/' := fun h ↦ hslash (h ▸ List.mem_cons_self)
    cases others <;> simpa [Text.joinWith, List.intercalate_cons_cons] using hc

theorem holds_joinWith_slash {components : List Text}
    (hslash : ∀ ⦃t u : Text⦄, trait.Holds t → trait.Holds u → t.getLast? ≠ some '/' →
      u.head? ≠ some '/' → trait.Holds (t ++ '/' :: u))
    (hcomponents : ∀ component ∈ components, component ≠ [] ∧ '/' ∉ component)
    (h : ∀ component ∈ components, trait.Holds component) :
    trait.Holds (Text.joinWith ['/'] components) := by
  induction components with
  | nil => exact trait.nil
  | cons first others ih =>
    obtain ⟨hfirst, hothers⟩ := List.forall_mem_cons.1 h
    obtain ⟨⟨-, hnone⟩, hclear⟩ := List.forall_mem_cons.1 hcomponents
    cases others with
    | nil => simpa [Text.joinWith] using hfirst
    | cons second others =>
      have hlast : first.getLast? ≠ some '/' := fun hlast ↦ hnone (List.mem_of_getLast? hlast)
      rw [Text.joinWith, List.intercalate_cons_cons, List.append_assoc, List.singleton_append]
      exact hslash hfirst (ih hclear hothers) hlast (head?_joinWith_slash hclear)

theorem modulePath_yields (trait : Trait) (reported : Kind) {kind : Kind}
    (hkind : kind = .importModule ∨ kind = .importNames) (module : Text) :
    Yields (fun path ↦ trait.Admits target kind → trait.Holds module → trait.Holds path)
      (modulePath reported target module) := by
  obtain ⟨separator, hentry, hseparator⟩ := exists_pathSeparator? target.language
  have hclear : ∀ component ∈ pathComponents module, component ≠ [] ∧ '/' ∉ component :=
    fun component h ↦ ⟨by simpa using (List.mem_filter.1 h).2, slash_notMem_of_mem_pathComponents h⟩
  have hpath (hadmits : trait.Admits target kind) (hmodule : trait.Holds module) :
      trait.Holds (Text.joinWith separator (pathComponents module)) := by
    rcases hseparator with rfl | ⟨hplain, hne⟩
    · exact holds_joinWith_slash (hadmits.path hkind hentry) hclear
        fun _ ↦ holds_of_mem_pathComponents hmodule
    · exact Trait.holds_joinWith (Trait.joins_of_plain hplain hne)
        fun _ ↦ holds_of_mem_pathComponents hmodule
  have hscript (hlanguage : pathSeparator? target.language = some ['/'])
      (hadmits : trait.Admits target kind) (hmodule : trait.Holds module) :
      trait.Holds (if isRelative module then "./" ++ Text.joinWith separator (pathComponents module)
        else Text.joinWith separator (pathComponents module)) := by
    obtain rfl : separator = ['/'] := Option.some.inj (hentry.symm.trans hlanguage)
    split
    · exact hadmits.path hkind hlanguage (t := ['.']) (by simp [isPlain]) (hpath hadmits hmodule)
        (by simp) (head?_joinWith_slash hclear)
    · exact hpath hadmits hmodule
  rw [modulePath, hentry]
  simp only [wording, ok_bind]
  split <;> rw [yields_pure]
  · rename_i hlanguage
    exact hscript (by rw [hlanguage]; rfl)
  · rename_i hlanguage
    exact hscript (by rw [hlanguage]; rfl)
  · exact hpath

theorem lastComponent_isInfix (separators path : Text) :
    lastComponent separators path <:+: path := by
  rw [lastComponent]
  cases hlast : (Pattern.split (.char (Pattern.oneOf separators)) path).getLast? with
  | none => exact List.nil_infix
  | some last => exact Pattern.infix_of_mem_split (List.mem_of_getLast? hlast)

/-- The languages that give an imported module no name have a statement for the import. -/
theorem exists_moduleImport? (trait : Trait) {kind : Kind}
    (hkind : kind = .importModule ∨ kind = .importNames) (path : Text)
    (h : target.language ≠ .python ∧ target.language ≠ .javascript
      ∧ target.language ≠ .typescript) :
    ∃ statement, moduleImport? path target.language = some statement
      ∧ (trait.Admits target kind → trait.Holds path → trait.Holds statement) := by
  cases hlanguage : target.language
  case cpp =>
    refine ⟨_, rfl, fun hadmits hpath ↦ ?_⟩
    have hinclude : trait.Holds ("include <" ++ path ++ ">") := by simp [hpath, isPlain]
    simpa using hadmits.directive hkind hlanguage hinclude
  all_goals simp_all [moduleImport?, isPlain]

theorem importModule_yields (trait : Trait) {kind : Kind}
    (hkind : kind = .importModule ∨ kind = .importNames) (module : Text)
    (localName : Option Text) :
    Yields
      (fun emission ↦ trait.Admits target kind → trait.Holds module
        → (∀ t ∈ localName, trait.Holds t) → trait.Holds emission.text)
      (importModule target module localName) := by
  refine (modulePath_yields trait .importModule hkind module).bind fun path hpath ↦ ?_
  have hscript (hadmits : trait.Admits target kind) (hmodule : trait.Holds module)
      (hlocal : ∀ t ∈ localName, trait.Holds t) :
      trait.Holds ("import " ++ (filled localName).getD (lastComponent "/." path) ++ " from '"
        ++ path ++ "'") := by
    have hpath := hpath hadmits hmodule
    have hname : trait.Holds ((filled localName).getD (lastComponent "/." path)) := by
      cases hfilled : filled localName with
      | none => exact trait.of_infix (lastComponent_isInfix _ path) hpath
      | some name => exact holds_of_mem_filled hlocal name hfilled
    simpa [hpath, isPlain] using hname
  split
  case h_1 =>
    split
    · rename_i name hname
      rw [yields_pure]
      intro hadmits hmodule hlocal
      have hfilled := Option.eq_some_of_filter_eq_some hname
      simp [hpath hadmits hmodule, holds_of_mem_filled hlocal name hfilled, isPlain]
    · rw [yields_pure]
      intro hadmits hmodule _
      simp [hpath hadmits hmodule, isPlain]
  case h_2 => exact yields_pure.2 hscript
  case h_3 => exact yields_pure.2 hscript
  case h_4 hpython hjs hts =>
    refine (wording_yields (exists_moduleImport? trait hkind path ⟨hpython, hjs, hts⟩)).bind
      fun statement hstatement ↦ ?_
    exact yields_pure.2 fun hadmits hmodule _ ↦ hstatement hadmits (hpath hadmits hmodule)

theorem importNames_yields (trait : Trait) (module : Text) (names : List Text) :
    Yields
      (fun emission ↦ trait.Admits target .importNames → trait.Holds module
        → (∀ name ∈ names, trait.Holds name) → trait.Holds emission.text)
      (importNames target module names) := by
  refine (modulePath_yields trait .importNames (.inr rfl) module).bind fun path hpath ↦ ?_
  have hwhole :
      Yields
        (fun emission ↦ trait.Admits target .importNames → trait.Holds module
          → (∀ name ∈ names, trait.Holds name) → trait.Holds emission.text)
        (do
          let whole ← importModule target module none
          return {
            text := whole.text
            warnings := [target.displayName ++ " has no selective import, importing whole module"] }
          : Except Fault Emission) := by
    refine (importModule_yields trait (.inr rfl) module none).bind fun whole hwhole ↦ ?_
    exact yields_pure.2 fun hadmits hmodule _ ↦ hwhole hadmits hmodule (by simp)
  split
  case h_6 name _ =>
    split
    · exact hwhole
    · rw [yields_pure]
      intro hadmits hmodule hnames
      simp [hpath hadmits hmodule, hnames name, isPlain]
  case h_7 => exact hwhole
  all_goals
    rw [yields_pure]
    intro hadmits hmodule hnames
    simpa [hpath hadmits hmodule, isPlain] using holds_list hnames

/-! ## Output and assignments -/

theorem eq_or_mem_of_mem_intersperse {separator t : Text} {pieces : List Text}
    (h : t ∈ pieces.intersperse separator) : t = separator ∨ t ∈ pieces := by
  fun_induction List.intersperse separator pieces with
  | case1 => exact .inr h
  | case2 => exact .inr h
  | case3 first others hmore ih =>
    simp only [List.mem_cons] at h ⊢
    rcases h with h | h | h
    · exact .inr (.inl h)
    · exact .inl h
    · exact (ih h).imp_right .inr

theorem joinWith_append_singleton (separator last after : Text) (parts : List Text) :
    Text.joinWith separator (parts ++ [last]) ++ after
      = Text.joinWith separator (parts ++ [last ++ after]) := by
  induction parts with
  | nil => simp [Text.joinWith]
  | cons part parts ih =>
    cases parts <;> simp_all [Text.joinWith, List.intercalate_cons_cons]

theorem append_joinWith_cons (before first separator : Text) (parts : List Text) :
    before ++ Text.joinWith separator (first :: parts)
      = Text.joinWith separator ((before ++ first) :: parts) := by
  cases parts <;> simp [Text.joinWith, List.intercalate_cons_cons]

theorem joins_streamed {args : List Text} (h : ∀ arg ∈ args, trait.Holds arg) :
    trait.Joins (streamed args) := by
  intro before after hbefore hafter
  simp only [streamed]
  rw [List.append_assoc [_], List.singleton_append, append_joinWith_cons, ← List.cons_append,
    joinWith_append_singleton]
  apply Trait.holds_joinWith (Trait.joins_of_plain (by decide) (by decide))
  intro piece hpiece
  rcases List.mem_append.1 hpiece with hpiece | hpiece
  · rcases List.mem_cons.1 hpiece with rfl | hpiece
    · simp [hbefore, isPlain]
    · rcases eq_or_mem_of_mem_intersperse hpiece with rfl | hpiece
      · simp [isPlain]
      · exact h piece hpiece
  · simp [List.mem_singleton.1 hpiece, hafter, isPlain]

theorem holds_formatted {args : List Text} (h : ∀ arg ∈ args, trait.Holds arg) :
    trait.Holds (formatted args) := by
  have hplaces : trait.Holds (Text.joinWith " " (args.map fun _ ↦ ['{', '}'])) :=
    Trait.holds_joinWith (Trait.joins_of_plain (by decide) (by decide)) (by simp [isPlain])
  have hlist : trait.Holds (Text.joinWith ", " args) := holds_list h
  unfold formatted
  split
  · exact trait.nil
  · split <;> simp_all [isPlain]
  · simp_all [isPlain]

/-- Output may stand in the middle of a line. -/
theorem joins_printText {args : List Text} (hadmits : trait.Admits target .print)
    (h : ∀ arg ∈ args, trait.Holds arg) : trait.Joins (printText target.language args) := by
  have hlist : trait.Holds (Text.joinWith ", " args) := holds_list h
  have hspaced : trait.Holds (spaced args) :=
    Trait.holds_joinWith (Trait.joins_of_plain (by decide) (by decide)) h
  have hopen (hlanguage : target.language = .php ∨ target.language = .ruby) {u : Text}
      (hu : trait.Holds u) : trait.Holds (Text.joinWith ", " args ++ u) :=
    hadmits.output rfl hlanguage hlist hu
  unfold printText
  split
  case h_7 => exact joins_streamed h
  case h_9 hphp =>
    intro before after hbefore hafter
    have hbehind := hopen (.inl hphp) hafter
    split <;> simp_all [isPlain]
  case h_10 hruby =>
    intro before after hbefore hafter
    have hbehind := hopen (.inr hruby) hafter
    split <;> simp_all [isPlain]
  case h_8 =>
    intro before after hbefore hafter
    simp [hbefore, hafter, holds_formatted h, isPlain]
  all_goals
    intro before after hbefore hafter
    simp_all [isPlain]

theorem exists_declarationText? (trait : Trait) (name value : Text) (language : Language) :
    ∃ text, declarationText? name value language = some text
      ∧ (trait.Holds name → trait.Holds value → trait.Holds text) := by
  cases language <;> simp +contextual [declarationText?, isPlain]

theorem assign_yields (trait : Trait) (name value : Text) :
    Yields
      (fun result ↦ context.Leads (.assign name value) result.2
        ∧ (context.HasTrait trait → trait.Holds name → trait.Holds value
          → trait.Holds result.1.text))
      (assign context name value) := by
  simp only [assign]
  split
  · rw [yields_pure]
    refine ⟨context.leads_refl _, fun hcontext hname hvalue ↦ ?_⟩
    exact Profile.holds_terminate hcontext.target (by simp [hname, hvalue, isPlain])
  · refine (wording_yields (exists_declarationText? trait name value _)).bind fun text htext ↦ ?_
    rw [yields_pure]
    refine ⟨context.leads_declare _ name, fun hcontext hname hvalue ↦ ?_⟩
    exact Profile.holds_terminate hcontext.target (htext hname hvalue)

end Emission

/-! ## All forms -/

/-- An emission that leaves the context as it is. -/
theorem Yields.withContext {context : Context} {form : Form} {emission : Except Fault Emission}
    (h : Yields
      (fun emission ↦ trait.Admits context.target form.kind → context.HasTrait trait
        → form.HasTrait trait → trait.Holds emission.text) emission) :
    Yields
      (fun result ↦ context.Leads form result.2
        ∧ (trait.Admits context.target form.kind → context.HasTrait trait → form.HasTrait trait
          → trait.Holds result.1.text))
      (do return (← emission, context)) :=
  h.bind fun _ hemission ↦ yields_pure.2 ⟨context.leads_refl form, hemission⟩

/-- A form of a kind that the target does not lack has a wording, which has the traits of the form
that admit the kind. -/
theorem Form.emit_hasTrait (trait : Trait) {context : Context} {form : Form} (closes : Bool)
    (hlack : form.kind.lack? context.target.language = none) :
    Yields
      (fun result ↦ context.Leads form result.2
        ∧ (trait.Admits context.target form.kind → context.HasTrait trait → form.HasTrait trait
          → trait.Holds result.1.text))
      (form.emit context closes) := by
  have hstays := context.leads_refl
  cases form
  case function name params =>
    refine ((Emission.function_yields trait name params).mono
      fun emission h _ _ hform ↦ ?_).withContext
    exact h (hform name List.mem_cons_self) fun t ht ↦ hform t (List.mem_cons_of_mem name ht)
  case classDef name base =>
    refine ((Emission.classDef_yields trait name base).mono
      fun emission h _ _ hform ↦ ?_).withContext
    exact h (hform name List.mem_cons_self) fun t ht ↦
      hform t (List.mem_cons_of_mem name (Option.mem_toList.2 ht))
  case ifThen cond =>
    refine yields_pure.2 ⟨hstays _, fun _ hcontext hform ↦ ?_⟩
    exact Profile.holds_conditionBlock _ (by simp [isPlain]) (hform cond List.mem_cons_self)
  case elseIf cond =>
    refine yields_pure.2 ⟨hstays _, fun _ hcontext hform ↦ ?_⟩
    rw [holds_closing_append_iff]
    exact Profile.holds_conditionBlock _ hcontext.target.elseIfKeyword
      (hform cond List.mem_cons_self)
  case elseThen =>
    refine yields_pure.2 ⟨hstays _, fun _ _ _ ↦ ?_⟩
    rw [holds_closing_append_iff]
    exact Profile.holds_block (by simp [isPlain])
  case blockEnd =>
    refine yields_pure.2 ⟨hstays _, fun _ hcontext _ ↦ ?_⟩
    cases hclose : context.target.blockClose with
    | none => simp [isPlain]
    | some closer => exact hcontext.target.blockClose closer hclose
  case pass =>
    simp only [emit]
    split
    · exact yields_pure.2 ⟨hstays _, fun _ _ _ ↦ by simp [isPlain]⟩
    · refine yields_pure.2 ⟨hstays _, fun hadmits _ _ ↦ ?_⟩
      simp [hadmits.remark rfl, isPlain]
  case forRange var start stop step =>
    exact ((Emission.forRange_yields trait var start stop step).mono fun _ h _ _ hform ↦
      h hform).withContext
  case forEach var iterable =>
    refine ((Emission.forEach_yields trait var iterable).mono
      fun emission h _ _ hform ↦ ?_).withContext
    exact h (hform var (by simp [texts])) (hform iterable (by simp [texts]))
  case forCounted initial test update =>
    refine yields_pure.2 ⟨hstays _, fun _ _ hform ↦ ?_⟩
    exact Emission.holds_forCounted (hform initial (by simp [texts]))
      (hform test (by simp [texts])) (hform update (by simp [texts]))
  case whileLoop cond =>
    refine yields_pure.2 ⟨hstays _, fun _ hcontext hform ↦ ?_⟩
    exact Emission.holds_whileLoop hcontext.target (hform cond List.mem_cons_self)
  case tryBlock =>
    refine yields_pure.2 ⟨hstays _, fun _ _ _ ↦ ?_⟩
    rw [Emission.tryBlock]
    split
    · simp [isPlain]
    · exact Profile.holds_block (by simp [isPlain])
  case catchClause excType excVar =>
    exact (Emission.catchClause_yields trait hlack).mono fun _ h ↦ ⟨h.1, fun _ ↦ h.2⟩
  case finallyBlock => exact yields_pure.2 ⟨hstays _, fun _ _ _ ↦ Emission.holds_finallyBlock⟩
  case raise error value message =>
    exact ((Emission.raise_yields trait).mono fun _ h _ ↦ h).withContext
  case print args dropped =>
    exact yields_pure.2 ⟨hstays _, fun hadmits _ hform ↦
      (Emission.joins_printText hadmits hform).holds⟩
  case importModule module localName =>
    refine ((Emission.importModule_yields trait (.inl rfl) module localName).mono
      fun emission h hadmits _ hform ↦ ?_).withContext
    exact h hadmits (hform module List.mem_cons_self) fun t ht ↦
      hform t (List.mem_cons_of_mem module (Option.mem_toList.2 ht))
  case importNames module names =>
    refine ((Emission.importNames_yields trait module names).mono
      fun emission h hadmits _ hform ↦ ?_).withContext
    exact h hadmits (hform module List.mem_cons_self) fun t ht ↦
      hform t (List.mem_cons_of_mem module ht)
  case prologue => exact yields_pure.2 ⟨hstays _, fun _ _ _ ↦ trait.nil⟩
  case assign name value =>
    refine (Emission.assign_yields trait name value).mono fun result h ↦
      ⟨h.1, fun _ hcontext hform ↦ ?_⟩
    exact h.2 hcontext (hform name (by simp [texts])) (hform value (by simp [texts]))

/-- The wording of output may stand in the middle of a line. -/
theorem Form.joins_of_emit {context after : Context} {form : Form} {closes : Bool}
    {emission : Emission} (hkind : form.kind = .print) (hadmits : trait.Admits context.target .print)
    (hform : form.HasTrait trait) (h : form.emit context closes = .ok (emission, after)) :
    trait.Joins emission.text := by
  cases form <;> simp only [kind, reduceCtorEq] at hkind
  obtain ⟨rfl, -⟩ := Prod.mk.inj (Except.ok.inj h)
  exact Emission.joins_printText hadmits hform

theorem Form.mem_texts_of_caughtVar? {form : Form} {var : Text} (h : form.caughtVar? = some var) :
    var ∈ form.texts := by
  cases form <;> simp [caughtVar?] at h
  simp [texts, h]

/-- The wording is of one line if the form is. -/
theorem Form.emit_yields {context : Context} {form : Form} (closes : Bool)
    (hlack : form.kind.lack? context.target.language = none) :
    Yields
      (fun result ↦ context.IsSingleLine → form.IsSingleLine
        → '\n' ∉ result.1.text ∧ result.2.IsSingleLine)
      (form.emit context closes) := by
  refine (emit_hasTrait .oneLine closes hlack).mono fun (emission, after) ⟨hleads, htext⟩ ↦ ?_
  intro hcontext hform
  refine ⟨htext (Trait.admits_oneLine hcontext.target _) hcontext.hasTrait hform,
    hleads.target ▸ hcontext.target, ?_⟩
  rcases hleads.catchVar with hsame | hcaught
  · exact hsame ▸ hcontext.catchVar
  · exact hform _ (mem_texts_of_caughtVar? hcaught)

end Recast
