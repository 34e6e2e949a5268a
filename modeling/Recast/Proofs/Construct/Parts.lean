import Mathlib.Data.Option.Basic
import Recast.Grammar.All
import Recast.Proofs.Pattern.Replace
import Recast.Proofs.Text.Trait

/-!
# Reading constructs

Every kind of construct needs certain parts of its line.  A pattern of the grammars keeps the parts
that its kind needs whichever way it is read, so the form of a line that fits a pattern can always
be made up.  The form takes its texts from the line and has every trait that the line has.
-/

namespace Recast

/-! ## Computations that yield a result -/

/-- The computation succeeds, with a result that has the property. -/
def Yields {α : Type} (good : α → Prop) (computation : Except Fault α) : Prop :=
  ∃ a, computation = .ok a ∧ good a

@[simp]
theorem yields_ok {α : Type} {good : α → Prop} {a : α} : Yields good (.ok a) ↔ good a := by
  simp [Yields]

@[simp]
theorem yields_pure {α : Type} {good : α → Prop} {a : α} :
    Yields good (pure a : Except Fault α) ↔ good a :=
  yields_ok

theorem yields_pure_some {α : Type} {parts : Prop} {good : α → Prop} {a : α} :
    Yields (fun a? : Option α ↦ parts → ∀ a ∈ a?, good a) (pure (some a)) ↔ (parts → good a) := by
  simp

@[simp]
theorem ok_bind {α β : Type} (a : α) (next : α → Except Fault β) : .ok a >>= next = next a := rfl

theorem Yields.bind {α β : Type} {good : α → Prop} {better : β → Prop}
    {first : Except Fault α} {next : α → Except Fault β} (hfirst : Yields good first)
    (hnext : ∀ a, good a → Yields better (next a)) : Yields better (first >>= next) := by
  obtain ⟨a, rfl, ha⟩ := hfirst
  exact hnext a ha

theorem bind_eq_ok_iff {α β : Type} {first : Except Fault α} {next : α → Except Fault β} {b : β} :
    first >>= next = .ok b ↔ ∃ a, first = .ok a ∧ next a = .ok b := by
  cases first <;> simp [bind, Except.bind]

theorem Yields.mono {α : Type} {good better : α → Prop} {computation : Except Fault α}
    (h : Yields good computation) (himp : ∀ a, good a → better a) : Yields better computation := by
  obtain ⟨a, hok, ha⟩ := h
  exact ⟨a, hok, himp a ha⟩

/-! ## The parts that a kind needs -/

/-- Whether the parts that are there suffice for a form of the kind. -/
def Kind.isServed (has : Slot → Bool) : Kind → Bool
  | .function | .classDef => has .name
  | .ifThen | .elseIf | .whileLoop => has .cond
  | .forRange => has .var && (has .rangeArgs || has .stop)
  | .forEach => has .var && has .iterable
  | .importModule => has .module
  | .importNames => has .module && has .names
  | .assign => has .name && has .value
  | .elseThen | .blockEnd | .pass | .forCounted | .tryBlock | .catchClause | .finallyBlock
  | .raise | .print | .prologue => true

theorem Kind.isServed_mono {kind : Kind} {has more : Slot → Bool}
    (hmore : ∀ slot, has slot → more slot) (h : kind.isServed has) : kind.isServed more := by
  cases kind <;> simp only [isServed, Bool.and_eq_true, Bool.or_eq_true] at h ⊢ <;> grind

/-- Whether a recognizer keeps what its kind needs, whichever way its pattern is read. -/
def Recognizer.isServed : Recognizer → Bool
  | .line kind pattern => kind.isServed pattern.keeps
  | .printCall _ => true

theorem Language.of_mem_recognizers (language : Language) {check : Recognizer → Bool}
    (hgrammar : language.grammar.all fun entry ↦ check entry.2) {category : Category}
    {recognizer : Recognizer} (h : recognizer ∈ language.recognizers category) :
    check recognizer := by
  obtain ⟨entry, hentry, hsome⟩ := List.mem_filterMap.1 h
  split at hsome
  · obtain rfl := Option.some.inj hsome
    exact List.all_eq_true.1 hgrammar entry hentry
  · exact absurd hsome (by simp)

/-- Every pattern of every grammar keeps the parts that its kind needs. -/
theorem Language.isServed_of_mem_recognizers {language : Language} {category : Category}
    {recognizer : Recognizer} (h : recognizer ∈ language.recognizers category) :
    recognizer.isServed := by
  refine language.of_mem_recognizers ?_ h
  cases language <;> decide

/-- Whether no comment marker can get into the indentation or the name of a caught error. -/
def Recognizer.isClear : Recognizer → Bool
  | .line _ pattern =>
    [Slot.indent, .excVar].all fun slot ↦ pattern.keepsOut '#' slot && pattern.keepsOut '/' slot
  | .printCall _ => true

theorem Language.isClear_of_mem_recognizers {language : Language} {category : Category}
    {recognizer : Recognizer} (h : recognizer ∈ language.recognizers category) :
    recognizer.isClear := by
  refine language.of_mem_recognizers ?_ h
  cases language <;> decide

theorem Reading.require_of_has {reading : Reading} {slot : Slot} (h : reading.has slot)
    (kind : Kind) : reading.require kind slot = .ok (reading.get slot) := by
  obtain ⟨part, hpart⟩ := Option.isSome_iff_exists.1 h
  rw [require, get, hpart]
  rfl

/-! ## Forms and their texts -/

namespace Form

variable {trait : Trait}

/-- The texts that a form is made of. -/
def texts : Form → List Text
  | function name params => name :: params
  | classDef name base => name :: base.toList
  | ifThen cond | elseIf cond | whileLoop cond => [cond]
  | elseThen | blockEnd | pass | tryBlock | finallyBlock | prologue => []
  | forRange var start stop step => [var, start, stop, step]
  | forEach var iterable => [var, iterable]
  | forCounted initial test update => [initial, test, update]
  | catchClause excType excVar => excType.toList ++ excVar.toList
  | raise error value message => error.toList ++ value.toList ++ message.toList
  | print args _ => args
  | importModule module localName => module :: localName.toList
  | importNames module names => module :: names
  | assign name value => [name, value]

/-- Every text of the form has the trait. -/
def HasTrait (trait : Trait) (form : Form) : Prop :=
  ∀ t ∈ form.texts, trait.Holds t

/-- No text of the form holds a line feed. -/
def IsSingleLine (form : Form) : Prop :=
  ∀ t ∈ form.texts, '\n' ∉ t

theorem hasTrait_forRange {var start stop step : Text} :
    (forRange var start stop step).HasTrait trait
      ↔ trait.Holds var ∧ trait.Holds start ∧ trait.Holds stop ∧ trait.Holds step := by
  simp [HasTrait, texts]

/-! ### Parameters -/

theorem infix_of_lastName_go {last? : Option Text} {skip : Nat} {t name : Text}
    (h : lastName.go last? skip t = some name) : last? = some name ∨ name <:+: t := by
  have hcons {d : Char} {rest : Text} (hstretch : name <:+: rest) : name <:+: d :: rest :=
    hstretch.trans (List.suffix_cons d rest).isInfix
  fun_induction lastName.go last? skip t with
  | case1 => exact .inl h
  | case2 last? skip d rest ih => exact (ih h).imp_right hcons
  | case3 last? d rest hd tail ih =>
    rcases ih h with hlast | hstretch
    · obtain rfl := Option.some.inj hlast
      exact .inr (List.cons_prefix_cons.2 ⟨rfl, List.takeWhile_prefix isWord⟩).isInfix
    · exact .inr (hcons hstretch)
  | case4 last? d rest hd ih => exact (ih h).imp_right hcons

theorem bareParam_isInfix (source : Language) (head : Text) : bareParam source head <:+: head := by
  have hlast : (lastName head).getD head <:+: head := by
    cases hname : lastName head with
    | none => exact List.infix_refl head
    | some name => exact (infix_of_lastName_go hname).resolve_left (by simp)
  have hword : (Text.words head).headD head <:+: head := by
    cases hwords : Text.words head with
    | nil => exact List.infix_refl head
    | cons word words => exact Text.infix_of_mem_words (by simp [hwords])
  have hname : Text.dropEndWhile (· == '?') (Text.trim (Text.cut ":" head).1) <:+: head :=
    (Text.dropEndWhile_isPrefix _ _).isInfix.trans
      ((Text.trim_isInfix _).trans (Text.cut_fst_isPrefix ":" head).isInfix)
  cases source with
  | java | cpp | csharp => exact hlast
  | go => exact hword
  | php =>
    simp only [bareParam]
    split
    · rename_i found hfound
      obtain ⟨hstart, before, hread⟩ := Pattern.readAt_of_searchFrom hfound
      exact (Pattern.get_isInfix hread .name).trans hstart.isInfix
    · exact List.infix_refl head
  | python | javascript | typescript | rust | ruby =>
    simp only [bareParam]
    split
    · rename_i reading hread
      exact (Pattern.rest_suffix hread).isInfix.trans hname
    · exact hname

theorem holds_param {source : Language} {part : Text} (h : trait.Holds part) :
    trait.Holds (param source part) := by
  have hbare {head : Text} (hhead : head <+: part) :
      trait.Holds (bareParam source (Text.trim head)) :=
    trait.of_infix
      ((bareParam_isInfix source _).trans ((Text.trim_isInfix head).trans hhead.isInfix)) h
  have hhead := Text.cut_fst_isPrefix "=" part
  rw [param]
  split
  · rename_i head hcut
    rw [hcut] at hhead
    exact hbare hhead
  · rename_i head value hcut
    rw [hcut] at hhead
    have hvalue : trait.Holds (Text.trim value) :=
      trait.of_infix ((Text.trim_isInfix value).trans
        (Text.cut_snd_suffix (congrArg Prod.snd hcut)).isInfix) h
    simp [hbare hhead, hvalue, isPlain]

theorem holds_of_mem_params {source : Language} {list param : Text} (h : trait.Holds list)
    (hparam : param ∈ params source list) : trait.Holds param := by
  obtain ⟨part, hpart, rfl⟩ := List.mem_map.1 hparam
  exact holds_param (trait.of_infix (Text.infix_of_mem_splitTopLevel (List.mem_filter.1 hpart).1) h)

/-! ### Conditions, ranges and output -/

theorem condition_yields (trait : Trait) {kind : Kind} {reading : Reading}
    (hcond : reading.has .cond) :
    Yields
      (fun cond? ↦ (∀ slot, trait.Holds (reading.get slot)) → ∀ cond ∈ cond?, trait.Holds cond)
      (condition kind reading) := by
  have hnegated {cond : Text} (h : trait.Holds cond) :
      trait.Holds (if reading.has .negate then "!(" ++ cond ++ ")" else cond) := by
    split <;> simp [h, isPlain]
  rw [condition, Reading.require_of_has hcond, ok_bind]
  dsimp only
  by_cases hparen : reading.has .paren
  · rw [if_pos hparen, yields_pure]
    intro hreading cond hmem
    split at hmem
    · obtain rfl := Option.mem_some.1 hmem
      exact hnegated (trait.of_infix (Text.trim_isInfix _) (hreading .cond))
    · exact absurd hmem (by simp)
  · rw [if_neg hparen, yields_pure]
    intro hreading cond hmem
    obtain rfl := Option.mem_some.1 hmem
    exact hnegated (trait.of_infix ((Text.unwrapParens_isInfix _).trans (Text.trim_isInfix _))
      (hreading .cond))

theorem hasTrait_of_rangeOfArgs {var args : Text} {form : Form} (hvar : trait.Holds var)
    (hargs : trait.Holds args) (h : rangeOfArgs var args = some form) : form.HasTrait trait := by
  have hparts : ∀ part ∈ Text.splitTopLevel ',' args, trait.Holds part :=
    fun part hpart ↦ trait.of_infix (Text.infix_of_mem_splitTopLevel hpart) hargs
  rw [rangeOfArgs] at h
  split at h
  case h_4 => exact absurd h (by simp)
  all_goals
    obtain rfl := Option.some.inj h
    simp_all [hasTrait_forRange, isPlain]

theorem hasTrait_of_rangeOfCounted {initial test update : Text} {form : Form}
    (hinitial : trait.Holds initial) (htest : trait.Holds test) (hupdate : trait.Holds update)
    (h : rangeOfCounted initial test update = some form) : form.HasTrait trait := by
  simp only [rangeOfCounted, Option.bind_eq_bind, Option.bind_eq_some_iff] at h
  obtain ⟨start, hstart, bound, hbound, advance, hadvance, -, -, -, -, h⟩ := h
  obtain rfl := Option.some.inj h
  have hvar := trait.of_infix (Pattern.get_isInfix hstart .var) hinitial
  have hfrom := trait.of_infix (Pattern.get_isInfix hstart .start) hinitial
  have hstop := trait.of_infix (Pattern.get_isInfix hbound .stop) htest
  have hlimit : trait.Holds (if bound.get .comparison = "<=" then bound.get .stop ++ " + 1"
      else bound.get .stop) := by
    split <;> simp [hstop, isPlain]
  have hstep : trait.Holds ((advance.get? .step).getD "1") := by
    cases hget : advance.get? .step with
    | none => simp [isPlain]
    | some step => exact trait.of_infix (Pattern.infix_of_get? hadvance hget) hupdate
  exact hasTrait_forRange.2 ⟨hvar, hfrom, hlimit, hstep⟩

theorem holds_of_mem_printArgs {source : Language} {list arg : Text} (h : trait.Holds list)
    (harg : arg ∈ (printArgs source list).1) : trait.Holds arg := by
  have hparts : ∀ part ∈ (Text.splitTopLevel ',' list).filter (!·.isEmpty), trait.Holds part :=
    fun part hpart ↦ trait.of_infix
      (Text.infix_of_mem_splitTopLevel (List.mem_filter.1 hpart).1) h
  have hstream : ∀ part ∈ (streamArrow.split list).map Text.trim, trait.Holds part := by
    intro part hpart
    obtain ⟨piece, hpiece, rfl⟩ := List.mem_map.1 hpart
    exact trait.of_infix ((Text.trim_isInfix piece).trans (Pattern.infix_of_mem_split hpiece)) h
  cases source
  case cpp => exact hstream arg (List.mem_filter.1 harg).1
  case python => exact hparts arg (List.mem_filter.1 harg).1
  case rust =>
    simp only [printArgs] at harg
    split at harg
    · rename_i format second others hsplit
      rw [hsplit] at hparts
      split at harg
      · exact hparts arg (List.mem_cons_of_mem format harg)
      · exact hparts arg harg
    · exact hparts arg harg
  all_goals exact hparts arg harg

/-! ### All kinds -/

theorem holds_of_mem_get? {reading : Reading} (h : ∀ slot, trait.Holds (reading.get slot))
    {slot : Slot} {part : Text} (hpart : part ∈ reading.get? slot) : trait.Holds part := by
  have hget := h slot
  rwa [Reading.get, Option.mem_def.1 hpart] at hget

theorem rangeForm_yields {source : Language} {reading : Reading} (hvar : reading.has .var)
    (hbounds : reading.has .rangeArgs || reading.has .stop) :
    Yields
      (fun form? ↦ (∀ slot, trait.Holds (reading.get slot))
        → ∀ form ∈ form?, form.HasTrait trait)
      (ofReading .forRange source reading) := by
  simp only [ofReading, Reading.require_of_has hvar, ok_bind]
  cases hargs : reading.get? .rangeArgs with
  | some args =>
    rw [yields_pure]
    intro hreading form hform
    exact hasTrait_of_rangeOfArgs (hreading .var) (holds_of_mem_get? hreading hargs)
      (Option.mem_def.1 hform)
  | none =>
    have hstop : reading.has .stop := by
      simpa [Reading.has, hargs] using hbounds
    simp only [Reading.require_of_has hstop, ok_bind, yields_pure_some]
    intro hreading
    have hfrom : trait.Holds (Text.trim ((reading.get? .start).getD "0")) := by
      apply trait.of_infix (Text.trim_isInfix _)
      cases hstart : reading.get? .start with
      | none => simp [isPlain]
      | some start => exact holds_of_mem_get? hreading hstart
    have htrim := trait.of_infix (Text.trim_isInfix _) (hreading .stop)
    have hlimit : trait.Holds (if reading.has .inclusive
        then Text.trim (Text.trim (reading.get .stop) ++ " + 1")
        else Text.trim (reading.get .stop)) := by
      split
      · exact trait.of_infix (Text.trim_isInfix _) (by simp [htrim, isPlain])
      · exact htrim
    exact hasTrait_forRange.2 ⟨hreading .var, hfrom, hlimit, by simp [isPlain]⟩

/-- With the parts that a kind needs the form can be made up, and it has the traits that the parts
have. -/
theorem ofReading_yields (trait : Trait) {kind : Kind} {source : Language} {reading : Reading}
    (hserved : kind.isServed reading.has) :
    Yields
      (fun form? ↦ (∀ slot, trait.Holds (reading.get slot))
        → ∀ form ∈ form?, form.HasTrait trait)
      (ofReading kind source reading) := by
  cases kind
  case function =>
    rw [ofReading, Reading.require_of_has hserved, ok_bind, yields_pure_some]
    intro hreading t ht
    rcases List.mem_cons.1 ht with rfl | ht
    · exact trait.of_infix (Text.dropEndWhile_isPrefix _ _).isInfix (hreading .name)
    · exact holds_of_mem_params (hreading .params) ht
  case classDef =>
    rw [ofReading, Reading.require_of_has hserved, ok_bind, yields_pure_some]
    intro hreading t ht
    rcases List.mem_cons.1 ht with rfl | ht
    · exact hreading .name
    · have hbase := List.mem_of_find?_eq_some (Option.mem_toList.1 ht)
      exact trait.of_infix (Text.infix_of_mem_splitTopLevel hbase) (hreading .base)
  case forRange =>
    obtain ⟨hvar, hbounds⟩ := Bool.and_eq_true_iff.1 hserved
    exact rangeForm_yields hvar hbounds
  case ifThen | elseIf | whileLoop =>
    refine (condition_yields trait hserved).bind fun cond? hcond ↦ ?_
    rw [yields_pure]
    intro hreading form hform
    obtain ⟨cond, hmem, rfl⟩ := Option.map_eq_some_iff.1 (Option.mem_def.1 hform)
    simpa [HasTrait, texts] using hcond hreading cond hmem
  case forEach =>
    obtain ⟨hvar, hiterable⟩ := Bool.and_eq_true_iff.1 hserved
    simp only [ofReading, Reading.require_of_has hvar, Reading.require_of_has hiterable, ok_bind,
      yields_pure_some]
    intro hreading
    simp only [HasTrait, texts, List.forall_mem_cons]
    exact ⟨trait.of_infix (Text.trimChars_isInfix _ _) (hreading .var),
      trait.of_infix (Text.trim_isInfix _) (hreading .iterable), by simp⟩
  case forCounted =>
    rw [ofReading, yields_pure_some]
    intro hreading
    cases hrange : rangeOfCounted (reading.get .initial) (reading.get .test)
        (reading.get .update) with
    | some range =>
      exact hasTrait_of_rangeOfCounted (hreading .initial) (hreading .test)
        (hreading .update) hrange
    | none =>
      simp only [Option.getD_none, HasTrait, texts, List.forall_mem_cons]
      exact ⟨trait.of_infix (Text.trim_isInfix _) (hreading .initial),
        trait.of_infix (Text.trim_isInfix _) (hreading .test),
        trait.of_infix (Text.trim_isInfix _) (hreading .update), by simp⟩
  case catchClause =>
    rw [ofReading, yields_pure_some]
    intro hreading t ht
    rcases List.mem_append.1 ht with ht | ht
    · obtain ⟨part, hpart, rfl⟩ := Option.map_eq_some_iff.1 (Option.mem_toList.1 ht)
      exact trait.of_infix ((Text.trimChars_isInfix _ _).trans (Text.trim_isInfix part))
        (holds_of_mem_get? hreading hpart)
    · exact holds_of_mem_get? hreading (Option.mem_toList.1 ht)
  case raise =>
    rw [ofReading, yields_pure_some]
    intro hreading
    have hmessage : ∀ t ∈ (reading.get? .message).orElse fun _ ↦ reading.get? .lateMessage,
        trait.Holds t := by
      intro t ht
      cases hfirst : reading.get? .message with
      | some message =>
        rw [hfirst] at ht
        exact holds_of_mem_get? hreading (hfirst.trans ht)
      | none =>
        rw [hfirst] at ht
        exact holds_of_mem_get? hreading ht
    intro t ht
    rcases List.mem_append.1 ht with ht | ht
    · rcases List.mem_append.1 ht with ht | ht
      · exact holds_of_mem_get? hreading (Option.mem_toList.1 ht)
      · exact holds_of_mem_get? hreading (Option.mem_toList.1 ht)
    · exact hmessage t (Option.mem_toList.1 ht)
  case print =>
    rw [ofReading, yields_pure_some]
    intro hreading
    exact fun t ht ↦ holds_of_mem_printArgs (hreading .args) ht
  case importModule =>
    rw [ofReading, Reading.require_of_has hserved, ok_bind, yields_pure_some]
    intro hreading t ht
    rcases List.mem_cons.1 ht with rfl | ht
    · exact hreading .module
    · exact holds_of_mem_get? hreading (Option.mem_toList.1 ht)
  case importNames =>
    obtain ⟨hmodule, hnames⟩ := Bool.and_eq_true_iff.1 hserved
    simp only [ofReading, Reading.require_of_has hmodule, Reading.require_of_has hnames, ok_bind,
      yields_pure_some]
    intro hreading t ht
    rcases List.mem_cons.1 ht with rfl | ht
    · exact hreading .module
    · obtain ⟨piece, hpiece, rfl⟩ := List.mem_map.1 (List.mem_filter.1 ht).1
      have hlist : trait.Holds (Text.trimChars "()" (Text.trim (reading.get .names))) :=
        trait.of_infix ((Text.trimChars_isInfix _ _).trans (Text.trim_isInfix _)) (hreading .names)
      exact trait.of_infix
        ((Text.trim_isInfix piece).trans (Text.infix_of_mem_splitOn hpiece)) hlist
  case assign =>
    obtain ⟨hname, hvalue⟩ := Bool.and_eq_true_iff.1 hserved
    simp only [ofReading, Reading.require_of_has hname, Reading.require_of_has hvalue, ok_bind,
      yields_pure_some]
    intro hreading
    simp only [HasTrait, texts, List.forall_mem_cons]
    exact ⟨hreading .name, trait.of_infix (Text.trim_isInfix _) (hreading .value), by simp⟩
  -- The forms without texts.
  all_goals
    rw [ofReading, yields_pure_some]
    intro hreading
    simp [HasTrait, texts]

/-! ### Caught errors -/

theorem kind_of_rangeOfArgs {var args : Text} {form : Form} (h : rangeOfArgs var args = some form) :
    form.kind = .forRange := by
  rw [rangeOfArgs] at h
  split at h
  case h_4 => exact absurd h (by simp)
  all_goals
    obtain rfl := Option.some.inj h
    rfl

theorem kind_of_rangeOfCounted {initial test update : Text} {form : Form}
    (h : rangeOfCounted initial test update = some form) : form.kind = .forRange := by
  simp only [rangeOfCounted, Option.bind_eq_bind, Option.bind_eq_some_iff] at h
  obtain ⟨_, -, _, -, _, -, -, -, -, -, h⟩ := h
  obtain rfl := Option.some.inj h
  rfl

/-- A form is of the kind that was read, but a counted loop may turn out to be one over a range. -/
theorem kind_of_ofReading {kind : Kind} {source : Language} {reading : Reading} {form : Form}
    (h : ofReading kind source reading = .ok (some form)) :
    form.kind = kind ∨ form.kind = .forRange := by
  cases kind
  case forRange =>
    obtain ⟨var, -, h⟩ := bind_eq_ok_iff.1 h
    split at h
    · exact .inl (kind_of_rangeOfArgs (Except.ok.inj h))
    · obtain ⟨stop, -, h⟩ := bind_eq_ok_iff.1 h
      obtain rfl := Option.some.inj (Except.ok.inj h)
      exact .inl rfl
  case forCounted =>
    obtain rfl := Option.some.inj (Except.ok.inj h)
    cases hrange : rangeOfCounted (reading.get .initial) (reading.get .test)
        (reading.get .update) with
    | some range => exact .inr (kind_of_rangeOfCounted hrange)
    | none => exact .inl rfl
  case ifThen | elseIf | whileLoop =>
    obtain ⟨cond?, -, h⟩ := bind_eq_ok_iff.1 h
    obtain ⟨cond, -, rfl⟩ := Option.map_eq_some_iff.1 (Except.ok.inj h)
    exact .inl rfl
  case function | classDef | importModule =>
    obtain ⟨part, -, h⟩ := bind_eq_ok_iff.1 h
    obtain rfl := Option.some.inj (Except.ok.inj h)
    exact .inl rfl
  case forEach | importNames | assign =>
    obtain ⟨first, -, h⟩ := bind_eq_ok_iff.1 h
    obtain ⟨second, -, h⟩ := bind_eq_ok_iff.1 h
    obtain rfl := Option.some.inj (Except.ok.inj h)
    exact .inl rfl
  all_goals
    obtain rfl := Option.some.inj (Except.ok.inj h)
    exact .inl rfl

/-- The name that a form binds to a caught error. -/
def caughtVar? : Form → Option Text
  | catchClause _ excVar => excVar
  | _ => none

/-- The name of a caught error is the part that was read for it. -/
theorem get?_of_caughtVar? {kind : Kind} {source : Language} {reading : Reading} {form : Form}
    {var : Text} (h : ofReading kind source reading = .ok (some form))
    (hvar : form.caughtVar? = some var) : reading.get? .excVar = some var := by
  cases form <;> simp only [caughtVar?, reduceCtorEq] at hvar
  obtain rfl : Kind.catchClause = kind := (kind_of_ofReading h).resolve_right (by simp [Form.kind])
  have hform := Option.some.inj (Except.ok.inj h)
  rw [← hvar, ← (Form.catchClause.inj hform).2]

end Form

/-! ## Constructs -/

/-- The texts of the construct have the trait, and its indentation is plain.  Only output may stand
inside a line. -/
structure Construct.HasTrait (trait : Trait) (construct : Construct) : Prop where
  form : construct.form.HasTrait trait
  indent : construct.indent.all isPlain
  caughtVar : ∀ var ∈ construct.form.caughtVar?, var.all isPlain
  span : construct.span.isSome → construct.kind = .print

theorem Call.args_isInfix {callee line : Text} {call : Call} (h : find? callee line = some call) :
    call.args <:+: line := by
  simp only [find?] at h
  split at h
  · exact absurd h (by simp)
  · rename_i found hfound
    split at h
    · exact absurd h (by simp)
    · obtain rfl := Option.some.inj h
      obtain ⟨hstart, before, hread⟩ := Pattern.readAt_of_searchFrom hfound
      exact (List.take_prefix _ _).isInfix.trans
        ((Pattern.rest_suffix hread).trans hstart).isInfix

theorem Recognizer.isPlain_of_isClear {kind : Kind} {pattern : Pattern} {line part : Text}
    {reading : Reading} {slot : Slot} (hclear : (Recognizer.line kind pattern).isClear)
    (hread : pattern.readStart line = some reading) (hline : '\n' ∉ line)
    (hslot : slot = .indent ∨ slot = .excVar) (hpart : reading.get? slot = some part) :
    part.all isPlain := by
  have hout {c : Char} (hp : pattern.keepsOut c slot) : c ∉ part :=
    Pattern.notMem_of_keepsOut hp (Pattern.mem_outcomes_of_readStart hread)
      (by simp [Reading.start, Reading.get?]) part hpart
  have hslots : pattern.keepsOut '#' slot && pattern.keepsOut '/' slot := by
    apply List.all_eq_true.1 hclear slot
    simpa using hslot
  obtain ⟨hhash, hslash⟩ := Bool.and_eq_true_iff.1 hslots
  rw [List.all_eq_true]
  intro c hc
  refine isPlain_iff.2 ⟨?_, ?_, ?_⟩
  · rintro rfl
    exact hline ((Pattern.infix_of_get? hread hpart).subset hc)
  · rintro rfl
    exact hout hhash hc
  · rintro rfl
    exact hout hslash hc

/-- A construct has the traits of its line. -/
theorem Recognizer.recognize_hasTrait (trait : Trait) {recognizer : Recognizer}
    (source : Language) (line : Text) (hserved : recognizer.isServed) :
    Yields
      (fun construct? ↦ recognizer.isClear → trait.Holds line
        → ∀ construct ∈ construct?, construct.HasTrait trait)
      (recognizer.recognize source line) := by
  cases recognizer with
  | line kind pattern =>
    rw [recognize]
    split
    · simp
    · rename_i reading hread
      have hhas : kind.isServed reading.has :=
        Kind.isServed_mono (fun slot hkeeps ↦ Pattern.has_of_keeps hkeeps
          (Pattern.mem_outcomes_of_readStart hread)) hserved
      obtain ⟨form?, hok, hform?⟩ := Form.ofReading_yields trait hhas
      rw [hok, ok_bind, yields_pure]
      intro hclear hline construct hconstruct
      obtain ⟨form, rfl, rfl⟩ := Option.map_eq_some_iff.1 (Option.mem_def.1 hconstruct)
      have hparts (slot : Slot) : trait.Holds (reading.get slot) :=
        trait.of_infix (Pattern.get_isInfix hread slot) hline
      have hplain {slot : Slot} {part : Text} (hslot : slot = .indent ∨ slot = .excVar)
          (hpart : reading.get? slot = some part) : part.all isPlain :=
        isPlain_of_isClear hclear hread (trait.newline_notMem hline) hslot hpart
      refine ⟨hform? hparts form rfl, ?_, ?_, by simp⟩
      · rw [Reading.get]
        cases hindent : reading.get? .indent with
        | none => rfl
        | some indent => exact hplain (.inl rfl) hindent
      · exact fun var hvar ↦ hplain (.inr rfl) (Form.get?_of_caughtVar? hok hvar)
  | printCall callee =>
    rw [recognize]
    split
    · simp
    · rename_i call hcall
      rw [yields_ok]
      intro hclear hline construct hconstruct
      obtain rfl := Option.mem_some.1 hconstruct
      have hargs := trait.of_infix (Call.args_isInfix hcall) hline
      refine ⟨fun t ht ↦ Form.holds_of_mem_printArgs hargs ht, ?_, ?_, fun _ ↦ rfl⟩
      · rw [List.all_eq_true]
        intro c hc
        apply isPlain_of_isBlank (Text.isBlank_of_mem_indentation hc)
        rintro rfl
        exact trait.newline_notMem hline (Text.mem_of_mem_indentation hc)
      · intro var hvar
        exact absurd hvar (by simp [Form.caughtVar?])

/-- A recognizer that keeps what its kind needs never fails. -/
theorem Recognizer.recognize_yields {recognizer : Recognizer} (source : Language) (line : Text)
    (hserved : recognizer.isServed) :
    Yields
      (fun construct? ↦ recognizer.isClear → '\n' ∉ line
        → ∀ construct ∈ construct?, construct.form.IsSingleLine)
      (recognizer.recognize source line) :=
  (recognize_hasTrait .oneLine source line hserved).mono
    fun _ h hclear hline construct hconstruct ↦ (h hclear hline construct hconstruct).form

end Recast
