import Recast.Proofs.Emission.Wording

/-!
# What a wording leaves in the context

Only two forms change the context when they are worded: an assignment declares its variable, and a
catch clause keeps the name under which it caught the error.  Wordings that follow one another share
one context, so that an error which is thrown again goes by the name that the last catch clause has
bound.
-/

namespace Recast

variable {context after : Context} {form : Form} {closes : Bool} {emission : Emission}
  {language : Language} {name : Text} {steps before rest : List (Form × Bool)}

/-! ## One form -/

/-- The context behind the wording of a form. -/
def Context.behind (context : Context) : Form → Context
  | .assign name _ => context.declare name
  | .catchClause _ excVar => { context with catchVar := (filled excVar).getD context.catchVar }
  | _ => context

theorem Context.mem_declared_declare {other : Text} :
    name ∈ (context.declare other).declared ↔ name ∈ context.declared ∨ name = other := by
  rw [declare]
  split
  · rename_i h
    have hother : other ∈ context.declared := by simpa using h
    constructor
    · exact Or.inl
    · rintro (h | rfl)
      · exact h
      · exact hother
  · simp

theorem Context.declare_of_mem (h : name ∈ context.declared) : context.declare name = context :=
  if_pos (by simpa using h)

theorem Emission.context_of_assign {value : Text}
    (h : assign context name value = .ok (emission, after)) : after = context.declare name := by
  simp only [assign] at h
  split at h
  · rename_i hmem
    rw [Context.declare_of_mem (by simpa using hmem)]
    exact (Prod.mk.inj (Except.ok.inj h)).2.symm
  · obtain ⟨text, -, h⟩ := bind_eq_ok_iff.1 h
    exact (Prod.mk.inj (Except.ok.inj h)).2.symm

/-- A wording leaves the context as it is, but for the name of an assignment or of a catch
clause. -/
theorem Form.context_of_emit (h : form.emit context closes = .ok (emission, after)) :
    after = context.behind form := by
  cases form
  case assign name value => exact Emission.context_of_assign h
  case catchClause excType excVar =>
    obtain ⟨text, -, h⟩ := bind_eq_ok_iff.1 h
    exact (Prod.mk.inj (Except.ok.inj h)).2.symm
  case function | classDef | forRange | forEach | raise | importModule | importNames =>
    obtain ⟨emission, -, h⟩ := bind_eq_ok_iff.1 h
    exact (Prod.mk.inj (Except.ok.inj h)).2.symm
  case pass =>
    simp only [emit] at h
    split at h <;> exact (Prod.mk.inj (Except.ok.inj h)).2.symm
  all_goals exact (Prod.mk.inj (Except.ok.inj h)).2.symm

theorem Context.source_behind (context : Context) (form : Form) :
    (context.behind form).source = context.source := by
  cases form <;> simp only [behind, declare]
  split <;> rfl

theorem Context.target_behind (context : Context) (form : Form) :
    (context.behind form).target = context.target := by
  cases form <;> simp only [behind, declare]
  split <;> rfl

theorem Context.catchVar_behind (h : form.kind ≠ .catchClause) :
    (context.behind form).catchVar = context.catchVar := by
  cases form <;> simp only [behind, declare]
  case catchClause => exact absurd rfl h
  split <;> rfl

theorem Context.mem_declared_behind :
    name ∈ (context.behind form).declared
      ↔ name ∈ context.declared ∨ ∃ value, form = .assign name value := by
  cases form
  case assign other value =>
    simp only [behind, mem_declared_declare, Form.assign.injEq]
    constructor
    · rintro (h | rfl)
      · exact .inl h
      · exact .inr ⟨value, rfl, rfl⟩
    · rintro (h | ⟨value, rfl, -⟩)
      · exact .inl h
      · exact .inr rfl
  all_goals simp [behind]

/-! ## One form after another -/

namespace Form

/-- The wordings of forms that share one context. -/
def emitAll (context : Context) : List (Form × Bool) → Except Fault (List Emission × Context)
  | [] => .ok ([], context)
  | (form, closes) :: steps => do
    let (emission, context) ← form.emit context closes
    let (emissions, context) ← emitAll context steps
    return (emission :: emissions, context)

theorem exists_emitAll (hlack : ∀ kind : Kind, kind.lack? language = none)
    (htarget : context.target = language.profile) (steps : List (Form × Bool)) :
    ∃ result, emitAll context steps = .ok result := by
  induction steps generalizing context with
  | nil => exact ⟨([], context), rfl⟩
  | cons step steps ih =>
    obtain ⟨form, closes⟩ := step
    have hkind : form.kind.lack? context.target.language = none := by
      rw [htarget, Language.language_profile, hlack]
    obtain ⟨⟨emission, next⟩, hemit, -⟩ := emit_hasTrait .oneLine closes hkind
    have hnext : next.target = language.profile := by
      rw [context_of_emit hemit, context.target_behind, htarget]
    obtain ⟨⟨emissions, final⟩, hrest⟩ := ih hnext
    refine ⟨(emission :: emissions, final), ?_⟩
    rw [emitAll, hemit, ok_bind]
    dsimp only
    rw [hrest]
    rfl

theorem context_of_emitAll {emissions : List Emission} {final : Context}
    (h : emitAll context steps = .ok (emissions, final)) :
    final = steps.foldl (fun context step ↦ context.behind step.1) context := by
  induction steps generalizing context emissions with
  | nil => exact (Prod.mk.inj (Except.ok.inj h)).2.symm
  | cons step steps ih =>
    obtain ⟨⟨emission, next⟩, hemit, h⟩ := bind_eq_ok_iff.1 h
    obtain ⟨⟨others, last⟩, hothers, h⟩ := bind_eq_ok_iff.1 h
    obtain ⟨-, rfl⟩ := Prod.mk.inj (Except.ok.inj h)
    obtain rfl := context_of_emit hemit
    exact ih hothers

/-- Each form is worded in the context that the forms before it leave. -/
theorem exists_emission_of_emitAll {emissions : List Emission} {final : Context}
    (h : emitAll context (before ++ (form, closes) :: rest) = .ok (emissions, final)) :
    ∃ emission next,
      form.emit (before.foldl (fun context step ↦ context.behind step.1) context) closes
          = .ok (emission, next)
        ∧ emissions[before.length]? = some emission := by
  induction before generalizing context emissions with
  | nil =>
    obtain ⟨⟨emission, next⟩, hemit, h⟩ := bind_eq_ok_iff.1 h
    obtain ⟨⟨others, last⟩, -, h⟩ := bind_eq_ok_iff.1 h
    obtain ⟨rfl, -⟩ := Prod.mk.inj (Except.ok.inj h)
    exact ⟨emission, next, hemit, rfl⟩
  | cons step before ih =>
    obtain ⟨⟨first, middle⟩, hfirst, h⟩ := bind_eq_ok_iff.1 h
    obtain ⟨⟨others, last⟩, hothers, h⟩ := bind_eq_ok_iff.1 h
    obtain ⟨rfl, rfl⟩ := Prod.mk.inj (Except.ok.inj h)
    obtain rfl := context_of_emit hfirst
    exact ih hothers

end Form

/-- Wordings that catch nothing leave the name of the caught error. -/
theorem Context.catchVar_foldl_behind (h : ∀ step ∈ steps, step.1.kind ≠ .catchClause) :
    (steps.foldl (fun context step ↦ context.behind step.1) context).catchVar
      = context.catchVar := by
  induction steps generalizing context with
  | nil => rfl
  | cons step steps ih =>
    obtain ⟨hstep, hsteps⟩ := List.forall_mem_cons.1 h
    rw [List.foldl_cons, ih hsteps, catchVar_behind hstep]

theorem Context.languages_foldl_behind (context : Context) (steps : List (Form × Bool)) :
    (steps.foldl (fun context step ↦ context.behind step.1) context).source = context.source
      ∧ (steps.foldl (fun context step ↦ context.behind step.1) context).target
        = context.target := by
  induction steps generalizing context with
  | nil => exact ⟨rfl, rfl⟩
  | cons step steps ih =>
    rw [List.foldl_cons]
    have hbehind := ih (context.behind step.1)
    rwa [source_behind, target_behind] at hbehind

/-! ## Throwing again -/

/-- The languages that throw an error again under the name it was caught by. -/
def Language.rethrowing : List Language :=
  [.javascript, .typescript, .java, .csharp, .php]

namespace Emission

/-- The type that a catch clause names, unless it catches any error. -/
def caughtType? (excType : Option Text) : Option Text :=
  filled (excType.filter fun type ↦ !(isGenericError type || type == "..."))

/-- A catch clause that binds a name. -/
def catchHead (language : Language) (type? : Option Text) (name : Text) : Text :=
  let bound := language.profile.variableName name ++ ")" ++ [' ', '{']
  if language = .javascript || language = .typescript then "catch (" ++ bound
  else "catch (" ++ type?.getD "Exception" ++ " " ++ bound

theorem catchText_eq (hlanguage : language ∈ Language.rethrowing)
    (htarget : context.target = language.profile) {type? var? : Option Text} :
    catchText context closes type? var? name
      = .ok (closing context closes ++ catchHead language type? name) := by
  obtain ⟨source, target, declared, catchVar⟩ := context
  obtain rfl : target = language.profile := htarget
  generalize hclosing : closing ⟨source, language.profile, declared, catchVar⟩ closes = lead
  have hscript (h : language = .javascript ∨ language = .typescript) :
      catchText ⟨source, language.profile, declared, catchVar⟩ closes type? var? name
        = .ok (lead ++ "catch (" ++ name ++ ")" ++ [' ', '{']) := by
    subst hclosing
    rcases h with rfl | rfl <;> rfl
  have htyped (h : language = .java ∨ language = .csharp ∨ language = .php) :
      catchText ⟨source, language.profile, declared, catchVar⟩ closes type? var? name
        = .ok (lead ++ "catch (" ++ type?.getD "Exception" ++ " "
            ++ language.profile.variableName name ++ ")" ++ [' ', '{']) := by
    subst hclosing
    rcases h with rfl | rfl | rfl <;> cases type? <;> rfl
  simp only [Language.rethrowing, List.mem_cons, List.not_mem_nil, or_false] at hlanguage
  rcases hlanguage with h | h | h
  · rw [hscript (.inl h)]
    subst h
    simp only [catchHead, List.append_assoc]
    rfl
  · rw [hscript (.inr h)]
    subst h
    simp only [catchHead, List.append_assoc]
    rfl
  · rw [htyped h]
    rcases h with rfl | rfl | rfl <;> simp only [catchHead, List.append_assoc] <;> rfl

/-- A catch clause names what the context keeps of it. -/
theorem text_of_catchClause {excType excVar : Option Text}
    (hlanguage : language ∈ Language.rethrowing) (htarget : context.target = language.profile)
    (h : catchClause context closes excType excVar = .ok (emission, after)) :
    emission.text
      = closing context closes ++ catchHead language (caughtType? excType) after.catchVar := by
  obtain ⟨text, htext, h⟩ := bind_eq_ok_iff.1 h
  obtain ⟨rfl, rfl⟩ := Prod.mk.inj (Except.ok.inj h)
  exact (Except.ok.inj ((catchText_eq hlanguage htarget).symm.trans htext)).symm

theorem emit_rethrow (hlanguage : language ∈ Language.rethrowing)
    (htarget : context.target = language.profile) (closes : Bool) :
    (Form.raise none none none).emit context closes
      = .ok ({ text := "throw " ++ language.profile.variableName context.catchVar }, context) := by
  obtain ⟨source, target, declared, catchVar⟩ := context
  obtain rfl : target = language.profile := htarget
  simp only [Language.rethrowing, List.mem_cons, List.not_mem_nil, or_false] at hlanguage
  rcases hlanguage with rfl | rfl | rfl | rfl | rfl <;> rfl

end Emission

theorem Language.lack?_of_mem_rethrowing (h : language ∈ rethrowing) (kind : Kind) :
    kind.lack? language = none := by
  simp only [rethrowing, List.mem_cons, List.not_mem_nil, or_false] at h
  rcases h with rfl | rfl | rfl | rfl | rfl <;> cases kind <;> rfl

/-- The last catch clause among some wordings names what the context keeps in the end. -/
theorem Form.exists_catch_of_emitAll {emissions : List Emission} {final : Context}
    {excType excVar : Option Text} (hlanguage : language ∈ Language.rethrowing)
    (htarget : context.target = language.profile)
    (h : emitAll context (before ++ (.catchClause excType excVar, closes) :: rest)
      = .ok (emissions, final))
    (hrest : ∀ step ∈ rest, step.1.kind ≠ .catchClause) :
    ∃ emission, emissions[before.length]? = some emission
      ∧ emission.text = closing context closes
        ++ Emission.catchHead language (Emission.caughtType? excType) final.catchVar := by
  obtain ⟨emission, next, hemit, hat⟩ := exists_emission_of_emitAll h
  obtain ⟨hsource', htarget'⟩ := context.languages_foldl_behind before
  have htext := Emission.text_of_catchClause hlanguage (htarget'.trans htarget) hemit
  have hclosing : closing (before.foldl (fun context step ↦ context.behind step.1) context) closes
      = closing context closes := by
    rw [closing, hsource', htarget', closing]
  have hfinal : final.catchVar = next.catchVar := by
    rw [context_of_emitAll h, List.foldl_append, List.foldl_cons,
      Context.catchVar_foldl_behind hrest, context_of_emit hemit]
  exact ⟨emission, hat, by rw [htext, hclosing, hfinal]⟩

end Recast
