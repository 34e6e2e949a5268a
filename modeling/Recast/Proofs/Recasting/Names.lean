import Recast.Proofs.Emission.Rethrow
import Recast.Proofs.Recasting.Progress

/-!
# What the lines before have established

While a program is recast, the context keeps the names that are bound so far.  To say which they
are, the constructs are listed that the rules recognize, in order and each with the context in which
it is worded.  The context then knows exactly the names that the constructs in the list bind:
variables, parameters and the variables of loops.  A variable is therefore declared by the first
construct that binds it, if that is an assignment, and by no other.
-/

namespace Recast

variable {context middle after : Context} {construct : Construct} {line name : Text}

/-! ## The names of a construct -/

/-- The names that a construct binds: those of its header, or the variable that it assigns to. -/
def Construct.names (construct : Construct) : List Text :=
  match construct.form with
  | .assign name _ => [name]
  | _ => construct.boundNames

theorem Construct.mem_names_iff :
    name ∈ construct.names
      ↔ (∃ value, construct.form = .assign name value) ∨ name ∈ construct.boundNames := by
  obtain ⟨form, indent, closes, span⟩ := construct
  cases form
  case assign other value =>
    simp only [names, boundNames, List.mem_singleton, Form.assign.injEq, List.not_mem_nil, or_false]
    constructor
    · rintro rfl
      exact ⟨value, rfl, rfl⟩
    · rintro ⟨value, rfl, -⟩
      rfl
  all_goals simp [names]

theorem Context.mem_foldl_declare {names : List Text} :
    name ∈ (names.foldl declare context).declared ↔ name ∈ context.declared ∨ name ∈ names := by
  induction names generalizing context with
  | nil => simp
  | cons first names ih => rw [List.foldl_cons, ih, mem_declared_declare, List.mem_cons, or_assoc]

theorem Context.target_foldl_declare (names : List Text) :
    (names.foldl declare context).target = context.target :=
  (Follows.foldl_declare names).target

/-! ## Lists of what is recognized -/

/-- A construct that was recognized, and the context in which it is worded. -/
structure Sighting where
  context : Context
  construct : Construct

/-- Whether the construct declares a variable: it is assigned to and not known yet. -/
def Sighting.declares (seen : Sighting) (name : Text) : Bool :=
  match seen.construct.form with
  | .assign assigned _ => assigned = name && !seen.context.declared.contains name
  | _ => false

theorem Sighting.declares_iff {seen : Sighting} :
    seen.declares name
      ↔ (∃ value, seen.construct.form = .assign name value) ∧ name ∉ seen.context.declared := by
  obtain ⟨context, form, indent, closes, span⟩ := seen
  cases form <;> simp [declares]

/-- A run between two contexts in which the constructs are recognized.  Each is worded in the
context that those before it leave, and adds its names. -/
inductive Chronicle : Context → List Sighting → Context → Prop where
  | nil (context : Context) : Chronicle context [] context
  | cons {context middle after : Context} {construct : Construct} {log : List Sighting}
      (htarget : middle.target = context.target)
      (hnames : ∀ name, name ∈ middle.declared
        ↔ name ∈ context.declared ∨ name ∈ construct.names)
      (hrest : Chronicle middle log after) : Chronicle context (⟨context, construct⟩ :: log) after

namespace Chronicle

variable {log others : List Sighting}

theorem append (h : Chronicle context log middle) (h' : Chronicle middle others after) :
    Chronicle context (log ++ others) after := by
  induction h with
  | nil => exact h'
  | cons htarget hnames _ ih => exact .cons htarget hnames (ih h')

/-- The names that are known in the end are those known before and those of the constructs. -/
theorem mem_declared_iff (h : Chronicle context log after) :
    name ∈ after.declared
      ↔ name ∈ context.declared ∨ ∃ seen ∈ log, name ∈ seen.construct.names := by
  induction h with
  | nil => simp
  | cons _ hnames _ ih => simp [ih, hnames, or_assoc]

/-- A construct is worded where the names of the constructs before it are known. -/
theorem of_split (h : Chronicle context log after) {before rest : List Sighting} {seen : Sighting}
    (hlog : log = before ++ seen :: rest) :
    seen.context.target = context.target
      ∧ ∀ name, name ∈ seen.context.declared
        ↔ name ∈ context.declared ∨ ∃ earlier ∈ before, name ∈ earlier.construct.names := by
  induction h generalizing before with
  | nil => simp at hlog
  | @cons context middle after construct log htarget hnames _ ih =>
    cases before with
    | nil =>
      obtain ⟨rfl, -⟩ := List.cons.inj hlog
      exact ⟨rfl, by simp⟩
    | cons first before =>
      obtain ⟨rfl, hrest⟩ := List.cons.inj hlog
      obtain ⟨hsame, hknown⟩ := ih hrest
      refine ⟨hsame.trans htarget, fun name ↦ ?_⟩
      rw [hknown, hnames]
      simp [or_assoc]

/-- A variable that is known is not declared any more. -/
theorem countP_declares_eq_zero (h : Chronicle context log after)
    (hname : name ∈ context.declared) : log.countP (·.declares name) = 0 := by
  rw [List.countP_eq_zero]
  intro seen hseen hdeclares
  obtain ⟨before, rest, hlog⟩ := List.append_of_mem hseen
  have hknown := ((h.of_split hlog).2 name).2 (.inl hname)
  exact (Sighting.declares_iff.1 hdeclares).2 hknown

theorem countP_declares_le_one (h : Chronicle context log after) (name : Text) :
    log.countP (·.declares name) ≤ 1 := by
  induction h with
  | nil => simp
  | @cons context middle after construct log htarget hnames hrest ih =>
    rw [List.countP_cons]
    split
    · rename_i hdeclares
      obtain ⟨hassign, -⟩ := Sighting.declares_iff.1 hdeclares
      have hknown : name ∈ middle.declared :=
        (hnames name).2 (.inr (Construct.mem_names_iff.2 (.inl hassign)))
      rw [hrest.countP_declares_eq_zero hknown]
    · exact ih

end Chronicle

/-! ## Rules -/

/-- What a rule does to the context: nothing if it recognizes nothing, and otherwise it adds the
variable of an assignment. -/
structure Outcome.Binds (outcome : Outcome) (context after : Context) : Prop where
  same : outcome.construct? = none → after = context
  target : after.target = context.target
  declared : ∀ construct ∈ outcome.construct?, ∀ name, name ∈ after.declared
    ↔ name ∈ context.declared ∨ ∃ value, construct.form = .assign name value

namespace Rule

variable {outcome : Outcome} {category : Category}

/-- No language lacks assignments. -/
theorem not_assign_of_lack? {language : Language} {lack value : Text}
    (h : construct.kind.lack? language = some lack) : construct.form ≠ .assign name value := by
  intro hform
  have hnone : Kind.assign.lack? language = none := by cases language <;> rfl
  rw [Construct.kind, hform, Form.kind, hnone] at h
  exact absurd h (by simp)

theorem binds_of_express (h : express context construct line = .ok (outcome, after)) :
    outcome.Binds context after := by
  rw [express] at h
  split at h
  · rename_i lack hlack
    obtain ⟨rfl, rfl⟩ := Prod.mk.inj (Except.ok.inj h)
    refine ⟨fun _ ↦ rfl, rfl, ?_⟩
    rintro construct ⟨⟩ name
    simp [not_assign_of_lack? hlack]
  · obtain ⟨⟨emission, next⟩, hemit, h⟩ := bind_eq_ok_iff.1 h
    obtain ⟨rfl, rfl⟩ := Prod.mk.inj (Except.ok.inj h)
    obtain rfl := Form.context_of_emit hemit
    refine ⟨fun hnone ↦ absurd hnone (by simp), context.target_behind construct.form, ?_⟩
    rintro construct ⟨⟩ name
    exact Context.mem_declared_behind

theorem binds_nothing (context : Context) (text : Text) :
    ({ text := text } : Outcome).Binds context context :=
  ⟨fun _ ↦ rfl, rfl, fun construct hconstruct ↦ absurd hconstruct (by simp)⟩

theorem binds_of_restate (h : restate category context line = .ok (outcome, after)) :
    outcome.Binds context after := by
  simp only [restate] at h
  split at h
  · obtain ⟨rfl, rfl⟩ := Prod.mk.inj (Except.ok.inj h)
    exact binds_nothing context line
  · obtain ⟨construct?, -, h⟩ := bind_eq_ok_iff.1 h
    cases construct? with
    | none =>
      obtain ⟨rfl, rfl⟩ := Prod.mk.inj (Except.ok.inj h)
      exact binds_nothing context line
    | some construct => exact binds_of_express h

theorem binds_of_apply {rule : Rule} (h : rule.apply context line = .ok (outcome, after)) :
    outcome.Binds context after := by
  cases rule with
  | literals | operators | endings =>
    obtain ⟨rfl, rfl⟩ := Prod.mk.inj (Except.ok.inj h)
    exact binds_nothing context _
  | structural category =>
    cases category
    case assignments =>
      obtain ⟨⟨restated, next⟩, hrestate, h⟩ := bind_eq_ok_iff.1 h
      obtain ⟨rfl, rfl⟩ := Prod.mk.inj (Except.ok.inj h)
      have hbinds := binds_of_restate hrestate
      exact ⟨hbinds.same, hbinds.target, hbinds.declared⟩
    all_goals exact binds_of_restate h

end Rule

/-! ## Lines -/

namespace RecastLine

/-- What a rule recognizes in a line. -/
def sightingsOfRule (state : RecastLine × Context) (rule : Rule) :
    Except Fault (List Sighting) := do
  let (outcome, _) ← rule.apply state.2 state.1.text
  return (outcome.construct?.map (Sighting.mk state.2)).toList

/-- What rules recognize in a line that they recast one after another. -/
def sightingsOfRules : List Rule → RecastLine × Context → Except Fault (List Sighting)
  | [], _ => .ok []
  | rule :: rules, state => do
    let seen ← sightingsOfRule state rule
    let others ← sightingsOfRules rules (← step state rule)
    return seen ++ others

/-- What is recognized in a line; nothing is in blank lines and comments. -/
def sightingsOfLine (rules : List Rule) (context : Context) (line : Text) :
    Except Fault (List Sighting) :=
  let trimmed := Text.trim line
  if trimmed.isEmpty || context.source.isComment trimmed then .ok []
  else
    sightingsOfRules rules
      ({ text := Text.trimEnd (context.source.markers.splitComment line).1 }, context)

/-- What is recognized in lines that are recast in order. -/
def sightings (rules : List Rule) : Context → List Text → Except Fault (List Sighting)
  | _, [] => .ok []
  | context, line :: lines => do
    let seen ← sightingsOfLine rules context line
    let (_, after) ← ofLine rules context line
    let others ← sightings rules after lines
    return seen ++ others

variable {rules : List Rule} {rule : Rule} {lines : List Text}

/-- One rule adds at most one construct, and the names of that construct. -/
theorem chronicle_of_step (state : RecastLine × Context) (rule : Rule) :
    ∃ seen next, sightingsOfRule state rule = .ok seen ∧ step state rule = .ok next
      ∧ Chronicle state.2 seen next.2
      ∧ next.1.kinds = state.1.kinds ++ seen.map (·.construct.kind) := by
  obtain ⟨recast, context⟩ := state
  obtain ⟨⟨outcome, middle⟩, happly, -⟩ := rule.apply_yields context recast.text
  have hbinds := Rule.binds_of_apply happly
  refine ⟨(outcome.construct?.map (Sighting.mk context)).toList, ?_⟩
  simp only [sightingsOfRule, step, happly, ok_bind]
  cases hconstruct : outcome.construct? with
  | none =>
    obtain rfl := hbinds.same hconstruct
    exact ⟨_, rfl, rfl, .nil middle, (List.append_nil _).symm⟩
  | some construct =>
    refine ⟨_, rfl, rfl, .cons ?_ (fun name ↦ ?_) (.nil _), rfl⟩
    · rw [Context.target_foldl_declare, hbinds.target]
    · rw [Context.mem_foldl_declare, hbinds.declared construct hconstruct, or_assoc,
        Construct.mem_names_iff]

/-- What rules do to a line, one after another. -/
theorem chronicle_of_rules (rules : List Rule) (state : RecastLine × Context) :
    ∃ seen after, sightingsOfRules rules state = .ok seen ∧ rules.foldlM step state = .ok after
      ∧ Chronicle state.2 seen after.2
      ∧ after.1.kinds = state.1.kinds ++ seen.map (·.construct.kind) := by
  induction rules generalizing state with
  | nil => exact ⟨[], state, rfl, rfl, .nil state.2, (List.append_nil _).symm⟩
  | cons rule rules ih =>
    obtain ⟨seen, next, hseen, hstep, hchronicle, hkinds⟩ := chronicle_of_step state rule
    obtain ⟨others, after, hothers, hrun, hrest, hmore⟩ := ih next
    refine ⟨seen ++ others, after, ?_, ?_, hchronicle.append hrest, ?_⟩
    · simp only [sightingsOfRules, hseen, hstep, hothers, ok_bind]
      rfl
    · rw [List.foldlM_cons, hstep, ok_bind, hrun]
    · rw [hmore, hkinds, List.map_append, List.append_assoc]

theorem chronicle_of_line (rules : List Rule) (context : Context) (line : Text) :
    ∃ seen recast after, sightingsOfLine rules context line = .ok seen
      ∧ ofLine rules context line = .ok (recast, after) ∧ Chronicle context seen after
      ∧ recast.kinds = seen.map (·.construct.kind) := by
  simp only [sightingsOfLine, ofLine]
  split
  · exact ⟨[], _, context, rfl, rfl, .nil context, rfl⟩
  · obtain ⟨seen, ⟨recast, after⟩, hseen, hrun, hchronicle, hkinds⟩ := chronicle_of_rules rules
      ({ text := Text.trimEnd (context.source.markers.splitComment line).1 }, context)
    rw [hrun]
    simp only [ok_bind]
    split
    · exact ⟨seen, recast, after, hseen, rfl, hchronicle, hkinds⟩
    · exact ⟨seen, _, after, hseen, rfl, hchronicle, hkinds⟩

/-- What is recognized in lines accounts for the context that they leave. -/
theorem chronicle_of_lines (rules : List Rule) (context : Context) (lines : List Text) :
    ∃ log recasts after, sightings rules context lines = .ok log
      ∧ ofLines rules context lines = .ok (recasts, after) ∧ Chronicle context log after
      ∧ log.map (·.construct.kind) = recasts.flatMap (·.kinds) := by
  induction lines generalizing context with
  | nil => exact ⟨[], [], context, rfl, rfl, .nil context, rfl⟩
  | cons line lines ih =>
    obtain ⟨seen, recast, middle, hseen, hline, hchronicle, hkinds⟩ :=
      chronicle_of_line rules context line
    obtain ⟨others, recasts, after, hothers, hlines, hrest, hmore⟩ := ih middle
    refine ⟨seen ++ others, recast :: recasts, after, ?_, ofLines_cons hline hlines,
      hchronicle.append hrest, ?_⟩
    · simp only [sightings, hseen, hline, hothers, ok_bind]
      rfl
    · rw [List.map_append, List.flatMap_cons, hkinds, hmore]

/-! ## Prefixes of a program -/

theorem ofLines_append {first others : List RecastLine} {rest : List Text}
    (hlines : ofLines rules context lines = .ok (first, middle))
    (hrest : ofLines rules middle rest = .ok (others, after)) :
    ofLines rules context (lines ++ rest) = .ok (first ++ others, after) := by
  induction lines generalizing context first with
  | nil =>
    obtain ⟨rfl, rfl⟩ := Prod.mk.inj (Except.ok.inj hlines)
    exact hrest
  | cons line lines ih =>
    obtain ⟨⟨recast, next⟩, hline, hlines⟩ := bind_eq_ok_iff.1 hlines
    obtain ⟨⟨recasts, last⟩, hothers, hlines⟩ := bind_eq_ok_iff.1 hlines
    obtain ⟨rfl, rfl⟩ := Prod.mk.inj (Except.ok.inj hlines)
    exact ofLines_cons hline (ih hothers)

/-- More lines only add names. -/
theorem declared_subset_of_take {recasts others : List RecastLine} {m n : Nat} (hle : m ≤ n)
    (hfew : ofLines rules context (lines.take m) = .ok (recasts, middle))
    (hmany : ofLines rules context (lines.take n) = .ok (others, after)) :
    middle.declared ⊆ after.declared := by
  obtain ⟨log, further, final, -, hrest, hchronicle, -⟩ :=
    chronicle_of_lines rules middle ((lines.take n).drop m)
  have hall := ofLines_append hfew hrest
  have hsplit : lines.take m ++ (lines.take n).drop m = lines.take n := by
    have htake : lines.take m = (lines.take n).take m := by
      rw [List.take_take, Nat.min_eq_left hle]
    rw [htake, List.take_append_drop]
  rw [hsplit, hmany] at hall
  obtain rfl := (Prod.mk.inj (Except.ok.inj hall)).2
  intro name hname
  exact hchronicle.mem_declared_iff.2 (.inl hname)

theorem ofLines_take {recasts : List RecastLine}
    (h : ofLines rules context lines = .ok (recasts, after)) (n : Nat) :
    ∃ middle, ofLines rules context (lines.take n) = .ok (recasts.take n, middle) := by
  induction lines generalizing context recasts n with
  | nil =>
    obtain ⟨rfl, rfl⟩ := Prod.mk.inj (Except.ok.inj h)
    exact ⟨context, by rw [List.take_nil, List.take_nil]; rfl⟩
  | cons line lines ih =>
    obtain ⟨⟨recast, next⟩, hline, h⟩ := bind_eq_ok_iff.1 h
    obtain ⟨⟨others, last⟩, hothers, h⟩ := bind_eq_ok_iff.1 h
    obtain ⟨rfl, rfl⟩ := Prod.mk.inj (Except.ok.inj h)
    cases n with
    | zero => exact ⟨context, rfl⟩
    | succ n =>
      obtain ⟨middle, htake⟩ := ih hothers n
      exact ⟨middle, ofLines_cons hline htake⟩

end RecastLine

/-! ## Declarations -/

/-- Among the constructs of a run, the first that binds a variable declares it if it is an
assignment, and no other one does.  A declaration has the wording for one, and any other assignment
the plain wording. -/
structure DeclaresOnce (target : Language) (log : List Sighting) : Prop where
  worded : ∀ seen ∈ log, ∀ name value, seen.construct.form = .assign name value →
    ∃ text after, seen.construct.form.emit seen.context seen.construct.closes
        = .ok ({ text := terminate target.profile text }, after)
      ∧ if seen.declares name then Emission.declarationText? name value target = some text
        else text = target.profile.variableName name ++ " = " ++ value
  first : ∀ before seen rest, log = before ++ seen :: rest →
    ∀ name value, seen.construct.form = .assign name value →
      (seen.declares name ↔ ∀ earlier ∈ before, name ∉ earlier.construct.names)
  once : ∀ name, log.countP (·.declares name) ≤ 1

theorem Emission.exists_assign_text {target : Language} (htarget : context.target = target.profile)
    (name value : Text) :
    ∃ text after, assign context name value
        = .ok ({ text := terminate target.profile text }, after)
      ∧ if name ∉ context.declared then declarationText? name value target = some text
        else text = target.profile.variableName name ++ " = " ++ value := by
  obtain ⟨text, htext, -⟩ := exists_declarationText? .oneLine name value target
  simp only [assign, htarget, Language.language_profile, htext, wording, ok_bind]
  split
  · rename_i hmem
    have hmem : name ∈ context.declared := by simpa using hmem
    exact ⟨_, context, rfl, by rw [if_neg (not_not_intro hmem)]⟩
  · rename_i hmem
    have hmem : name ∉ context.declared := by simpa using hmem
    exact ⟨text, context.declare name, rfl, by rw [if_pos hmem]⟩

theorem Chronicle.declaresOnce {target : Language} {log : List Sighting}
    (h : Chronicle context log after) (htarget : context.target = target.profile)
    (hnone : context.declared = []) : DeclaresOnce target log where
  worded := by
    intro seen hseen name value hform
    obtain ⟨before, rest, hlog⟩ := List.append_of_mem hseen
    have hsame := (h.of_split hlog).1.trans htarget
    have hdeclares : seen.declares name ↔ name ∉ seen.context.declared := by
      rw [Sighting.declares_iff]
      exact and_iff_right ⟨value, hform⟩
    obtain ⟨text, after, hassign, htext⟩ := Emission.exists_assign_text hsame name value
    rw [hform]
    refine ⟨text, after, hassign, ?_⟩
    simpa only [hdeclares] using htext
  first := by
    intro before seen rest hlog name value hform
    rw [Sighting.declares_iff, and_iff_right ⟨value, hform⟩, (h.of_split hlog).2 name, hnone]
    simp
  once := h.countP_declares_le_one

/-- Behind a construct that binds a variable, an assignment to it has the plain wording. -/
theorem DeclaresOnce.plain_of_mem {target : Language} {before rest : List Sighting}
    {seen earlier : Sighting} {value : Text} (h : DeclaresOnce target (before ++ seen :: rest))
    (hform : seen.construct.form = .assign name value) (hearlier : earlier ∈ before)
    (hname : name ∈ earlier.construct.names) :
    ¬seen.declares name
      ∧ ∃ after, seen.construct.form.emit seen.context seen.construct.closes
        = .ok (⟨terminate target.profile (target.profile.variableName name ++ " = " ++ value), []⟩,
            after) := by
  have hknown : ¬seen.declares name := by
    rw [h.first before seen rest rfl name value hform]
    exact fun hnew ↦ hnew earlier hearlier hname
  have hmem : seen ∈ before ++ seen :: rest := List.mem_append_right before List.mem_cons_self
  obtain ⟨text, after, hemit, htext⟩ := h.worded seen hmem name value hform
  rw [if_neg hknown] at htext
  exact ⟨hknown, after, htext ▸ hemit⟩

/-- While a program is recast, the names that are bound are those of the constructs recognized so
far; they only become more, and each variable is declared at most once, never where it is bound
already.  And whatever is worded in one context for a language that throws an error again by name,
the name is the one that the last catch clause has bound. -/
theorem left_context_of_run (source target : Language) (code : Text) :
    (∃ result, RecastCode.ofCode source target code = .ok result
      ∧ ∀ n, ∃ context log,
        RecastLine.ofLines (Rule.between source target) (.start source target)
            ((Text.lines code).take n) = .ok (result.lines.take n, context)
        ∧ RecastLine.sightings (Rule.between source target) (.start source target)
            ((Text.lines code).take n) = .ok log
        ∧ log.map (·.construct.kind) = (result.lines.take n).flatMap (·.kinds)
        ∧ (∀ name, name ∈ context.declared ↔ ∃ seen ∈ log, name ∈ seen.construct.names)
        ∧ (∀ m ≤ n, ∀ recasts earlier,
          RecastLine.ofLines (Rule.between source target) (.start source target)
              ((Text.lines code).take m) = .ok (recasts, earlier) →
          earlier.declared ⊆ context.declared)
        ∧ DeclaresOnce target log)
    ∧ ∀ language ∈ Language.rethrowing, ∀ context : Context, context.target = language.profile →
      ∀ (steps : List (Form × Bool)) (closes : Bool), ∃ emissions final rethrow,
        Form.emitAll context steps = .ok (emissions, final)
        ∧ (Form.raise none none none).emit final closes = .ok (rethrow, final)
        ∧ ((∀ step ∈ steps, step.1.kind ≠ .catchClause) →
          rethrow.text = "throw " ++ language.profile.variableName context.catchVar)
        ∧ ∀ before excType excVar closed rest,
          steps = before ++ (.catchClause excType excVar, closed) :: rest →
          (∀ step ∈ rest, step.1.kind ≠ .catchClause) →
          ∃ emission name, emissions[before.length]? = some emission
            ∧ emission.text = closing context closed
              ++ Emission.catchHead language (Emission.caughtType? excType) name
            ∧ rethrow.text = "throw " ++ language.profile.variableName name := by
  constructor
  · obtain ⟨-, recasts, final, -, hrun, -, -⟩ := RecastLine.chronicle_of_lines
      (Rule.between source target) (.start source target) (Text.lines code)
    refine ⟨⟨recasts⟩, by rw [RecastCode.ofCode, hrun]; rfl, fun n ↦ ?_⟩
    obtain ⟨context, htake⟩ := RecastLine.ofLines_take hrun n
    obtain ⟨log, recasts', context', hlog, hlines, hchronicle, hkinds⟩ :=
      RecastLine.chronicle_of_lines (Rule.between source target) (.start source target)
        ((Text.lines code).take n)
    obtain ⟨rfl, rfl⟩ := Prod.mk.inj (Except.ok.inj (hlines.symm.trans htake))
    refine ⟨context', log, htake, hlog, hkinds, fun name ↦ ?_, ?_, hchronicle.declaresOnce rfl rfl⟩
    · rw [hchronicle.mem_declared_iff]
      exact or_iff_right List.not_mem_nil
    · intro m hle recasts' earlier hfew
      exact RecastLine.declared_subset_of_take hle hfew htake
  · intro language hlanguage context htarget steps closes
    obtain ⟨⟨emissions, final⟩, hsteps⟩ :=
      Form.exists_emitAll (Language.lack?_of_mem_rethrowing hlanguage) htarget steps
    have hfinal : final.target = language.profile := by
      rw [Form.context_of_emitAll hsteps, (context.languages_foldl_behind steps).2, htarget]
    refine ⟨emissions, final, _, hsteps, Emission.emit_rethrow hlanguage hfinal closes, ?_, ?_⟩
    · intro hnone
      rw [Form.context_of_emitAll hsteps, Context.catchVar_foldl_behind hnone]
    · rintro before excType excVar closed rest rfl hrest
      obtain ⟨emission, hat, htext⟩ :=
        Form.exists_catch_of_emitAll hlanguage htarget hsteps hrest
      exact ⟨emission, final.catchVar, hat, htext, rfl⟩

/-- A loop binds its variable, so an assignment in its body does not declare it; the variable that
is assigned to before it is declared there.  And a catch clause without a name binds one, which is
the one that is thrown again. -/
theorem left_context_of_reused_names :
    (∃ result context log,
      RecastCode.ofCode .python .javascript "x = 2\nfor i in range(x):\n    i = x" = .ok result
      ∧ RecastLine.ofLines (Rule.between .python .javascript) (.start .python .javascript)
          ["x = 2", "for i in range(x):", "    i = x"] = .ok (result.lines.take 3, context)
      ∧ RecastLine.sightings (Rule.between .python .javascript) (.start .python .javascript)
          ["x = 2", "for i in range(x):", "    i = x"] = .ok log
      ∧ (∀ name : Text, name ∈ context.declared ↔ name = "x" ∨ name = "i")
      ∧ ∃ declaration header assignment, log = [declaration, header, assignment]
        ∧ declaration.construct.form = .assign "x" "2" ∧ declaration.declares "x"
        ∧ header.construct.form = .forRange "i" "0" "x" "1"
        ∧ assignment.construct.form = .assign "i" "x" ∧ ¬assignment.declares "i"
        ∧ ∃ after, assignment.construct.form.emit assignment.context assignment.construct.closes
            = .ok ({ text := "i = x;" }, after))
    ∧ .php ∈ Language.rethrowing
    ∧ ∃ emissions final rethrow,
      Form.emitAll (.start .python .php)
          [(.catchClause none (some ("err" : Text)), true),
           (.catchClause (some ("ValueError" : Text)) none, true), (.finallyBlock, true)]
        = .ok (emissions, final)
      ∧ (Form.raise none none none).emit final false = .ok (rethrow, final)
      ∧ ∃ emission name, emissions[1]? = some emission
        ∧ emission.text = closing (.start .python .php) true
          ++ Emission.catchHead .php (Emission.caughtType? (some ("ValueError" : Text))) name
        ∧ rethrow.text = "throw " ++ Language.php.profile.variableName name := by
  have hphp : .php ∈ Language.rethrowing := by decide
  refine ⟨?_, hphp, ?_⟩
  · obtain ⟨⟨result, hcode, htakes⟩, -⟩ :=
      left_context_of_run .python .javascript "x = 2\nfor i in range(x):\n    i = x"
    obtain ⟨context, log, hrun, hlog, -, hnames, -, honce⟩ := htakes 3
    have hlines : (Text.lines "x = 2\nfor i in range(x):\n    i = x").take 3
        = (["x = 2", "for i in range(x):", "    i = x"] : List Text) := by decide +kernel
    have hseen : (RecastLine.sightings (Rule.between .python .javascript)
        (.start .python .javascript) ["x = 2", "for i in range(x):", "    i = x"]).map
          (List.map fun seen ↦ (seen.construct.form, seen.construct.names))
        = .ok [(.assign "x" "2", [("x" : Text)]), (.forRange "i" "0" "x" "1", [("i" : Text)]),
            (.assign "i" "x", [("i" : Text)])] := by
      decide +kernel
    rw [hlines] at hrun hlog
    rw [hlog] at hseen
    obtain ⟨declaration, rest, rfl, hfirst, hrest⟩ :=
      List.map_eq_cons_iff.1 (Except.ok.inj hseen)
    obtain ⟨header, rest, rfl, hsecond, hrest⟩ := List.map_eq_cons_iff.1 hrest
    obtain ⟨assignment, rest, rfl, hthird, hrest⟩ := List.map_eq_cons_iff.1 hrest
    obtain rfl := List.map_eq_nil_iff.1 hrest
    obtain ⟨hdeclaration, hx⟩ := Prod.mk.inj hfirst
    obtain ⟨hheader, hi⟩ := Prod.mk.inj hsecond
    obtain ⟨hassignment, hagain⟩ := Prod.mk.inj hthird
    have hdeclares := honce.first [] declaration [header, assignment] rfl "x" "2" hdeclaration
    have hplain : DeclaresOnce .javascript ([declaration, header] ++ assignment :: []) := honce
    obtain ⟨hknown, hemit⟩ := hplain.plain_of_mem hassignment
      (List.mem_cons_of_mem declaration List.mem_cons_self) (hi ▸ List.mem_cons_self)
    refine ⟨result, context, _, hcode, hrun, hlog, fun name ↦ ?_, declaration, header, assignment,
      rfl, hdeclaration, hdeclares.2 (List.forall_mem_nil _), hheader, hassignment, hknown, hemit⟩
    rw [hnames]
    simp [hx, hi, hagain]
  · obtain ⟨emissions, final, rethrow, hsteps, hrethrow, -, hlast⟩ :=
      (left_context_of_run .python .php []).2 .php hphp (.start .python .php) rfl
        [(.catchClause none (some ("err" : Text)), true),
         (.catchClause (some ("ValueError" : Text)) none, true), (.finallyBlock, true)] false
    refine ⟨emissions, final, rethrow, hsteps, hrethrow, ?_⟩
    exact hlast [(.catchClause none (some ("err" : Text)), true)] _ _ _ [(.finallyBlock, true)] rfl
      (by simp [Form.kind])

end Recast
