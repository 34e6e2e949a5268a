import Recast.Proofs.Grammar.ClassHeader

/-!
# Definition headers are read as they are written

Each language words the header of a function or a class in its own way, with placeholder types,
sigils and modifiers, and each grammar takes such a header apart again.  For names the two fit
together: the first recognizer of a language that accepts a header worded in that language finds
the very form that was worded.
-/

namespace Recast

open Text Emission

/-! ## Wordings -/

section Wordings

variable {params : List Text}

theorem ownParams_of_head? (hself : params.head? ≠ some ("self" : Text))
    (hcls : params.head? ≠ some ("cls" : Text)) (language : Language) :
    ownParams language params = params := by
  cases params with
  | nil => rfl
  | cons first others =>
    have hfirst : (first == "self" || first == "cls") = false := by
      rw [Bool.or_eq_false_iff]
      exact ⟨beq_false_of_ne fun h ↦ hself (congrArg some h),
        beq_false_of_ne fun h ↦ hcls (congrArg some h)⟩
    rw [ownParams, hfirst, Bool.and_false]
    rfl

theorem function_eq (language : Language) (name : Text) (hparams : ∀ param ∈ params, isName param)
    (hself : params.head? ≠ some ("self" : Text)) (hcls : params.head? ≠ some ("cls" : Text)) :
    ∃ warnings, Emission.function language.profile name params
      = (wording .function language.profile
          (functionHead? name (paramList language params) language)).map fun head ↦
        { text := language.profile.block
            (if language = .ruby && (paramList language params).isEmpty then "def " ++ name
              else head)
          warnings := warnings } := by
  have hrendered : params.map (renderParam language.profile)
      = params.map fun param ↦ (typedParam language param, []) := by
    apply List.map_congr_left
    intro param hparam
    exact renderParam_of_isName (hparams param hparam) language
  have hlist : (params.map (renderParam language.profile)).map Prod.fst
      = params.map (typedParam language) := by
    rw [hrendered, List.map_map]
    rfl
  refine ⟨(params.map (renderParam language.profile)).flatMap Prod.snd, ?_⟩
  simp only [Emission.function, Language.language_profile, ownParams_of_head? hself hcls, hlist,
    paramList]
  rfl

end Wordings

/-! ## Headers come back -/

section RoundTrip

variable {language : Language} {name : Text}

theorem header_eq (opening name list ending : Text) :
    opening ++ name ++ "(" ++ list ++ ")" ++ ending
      = opening ++ (name ++ '(' :: (list ++ ')' :: ending)) := by
  simp only [List.append_assoc]
  rfl

theorem function_round_trip (language : Language) {params : List Text} (hname : isName name)
    (hparams : ∀ param ∈ params, isName param) (hself : params.head? ≠ some ("self" : Text))
    (hcls : params.head? ≠ some ("cls" : Text)) :
    ∃ emission, Emission.function language.profile name params = .ok emission
      ∧ Recognizes language .functions emission.text (.function name params) := by
  obtain ⟨warnings, heq⟩ := function_eq language name hparams hself hcls
  have hread := Form.params_paramList hparams language
  have hlist (c : Char) (hc : c ∈ paramList language params) : isListChar c :=
    isListChar_of_mem_paramList hparams hc
  generalize paramList language params = list at heq hread hlist
  cases language with
  | python => exact ⟨_, heq, recognizes_python_function hname hlist hread (header_eq ..)⟩
  | javascript => exact ⟨_, heq, recognizes_script_function rfl hname hlist hread (header_eq ..)⟩
  | typescript => exact ⟨_, heq, recognizes_script_function rfl hname hlist hread (header_eq ..)⟩
  | java => exact ⟨_, heq, recognizes_java_function hname hlist hread (header_eq ..)⟩
  | cpp => exact ⟨_, heq, recognizes_cpp_function hname hlist hread (header_eq ..)⟩
  | go => exact ⟨_, heq, recognizes_go_function hname hlist hread (header_eq ..)⟩
  | rust => exact ⟨_, heq, recognizes_rust_function hname hlist hread (header_eq ..)⟩
  | csharp => exact ⟨_, heq, recognizes_csharp_function hname hlist hread (header_eq ..)⟩
  | php => exact ⟨_, heq, recognizes_php_function hname hlist hread (header_eq ..)⟩
  | ruby =>
    cases list with
    | nil =>
      obtain rfl : [] = params := hread
      exact ⟨_, heq, recognizes_ruby_function_bare hname
        (congrArg (("def " : Text) ++ ·) (List.append_nil name).symm)⟩
    | cons c list =>
      refine ⟨_, heq, recognizes_ruby_function hname hlist hread ?_⟩
      exact (List.append_nil _).symm.trans (header_eq "def " name (c :: list) [])

theorem filled_of_isName {base? : Option Text} (hbase : ∀ base ∈ base?, isName base) :
    filled base? = base? := by
  cases base? with
  | none => rfl
  | some base => simp [filled, ne_nil_of_isName (hbase base rfl)]

theorem class_round_trip {base? : Option Text} (hname : isName name)
    (hbase : ∀ base ∈ base?, isName base ∧ base ≠ "object" ∧ base ≠ "metaclass")
    (hstruct : language = .go ∨ language = .rust → base? = none) :
    ∃ emission, Emission.classDef language.profile name base? = .ok emission
      ∧ Recognizes language .classes emission.text (.classDef name base?) := by
  have hnames (base : Text) (h : base ∈ base?) : isName base := (hbase base h).1
  have hkept (base : Text) (h : base ∈ base?) : Form.baseClass base = some base :=
    baseClass_of_isName (hbase base h).1 (hbase base h).2.1 (hbase base h).2.2
  have hheader (opening clause ending : Text) :
      opening ++ name ++ clause ++ ending = opening ++ (name ++ (clause ++ ending)) := by
    simp only [List.append_assoc]
  rw [Emission.classDef, filled_of_isName hnames]
  cases language with
  | python => exact ⟨_, rfl, recognizes_python_class hname hnames hkept (hheader ..)⟩
  | javascript => exact ⟨_, rfl, recognizes_script_class rfl hname hnames hkept (hheader ..)⟩
  | typescript => exact ⟨_, rfl, recognizes_script_class rfl hname hnames hkept (hheader ..)⟩
  | java => exact ⟨_, rfl, recognizes_java_class hname hnames hkept (hheader ..)⟩
  | cpp => exact ⟨_, rfl, recognizes_cpp_class hname hnames hkept (hheader ..)⟩
  | csharp => exact ⟨_, rfl, recognizes_csharp_class hname hnames hkept (hheader ..)⟩
  | php => exact ⟨_, rfl, recognizes_php_class hname hnames hkept (hheader ..)⟩
  | ruby =>
    refine ⟨_, rfl, recognizes_ruby_class hname hnames hkept ?_⟩
    exact (List.append_nil _).symm.trans (hheader "class " (around " < " base? []) [])
  | go =>
    obtain rfl := hstruct (.inl rfl)
    exact ⟨_, rfl, recognizes_go_class hname (hheader ..)⟩
  | rust =>
    obtain rfl := hstruct (.inr rfl)
    exact ⟨_, rfl, recognizes_rust_class hname (List.append_assoc ..)⟩

/-- The header of a function or a class that a language words is recognized in that language as the
form that was worded: with the name and all the parameters of the function, with the name and the
base of the class. -/
theorem emitted_definition_recognized (language : Language) {context : Context}
    (htarget : context.target = language.profile) (closes : Bool) (hname : isName name) :
    (∀ params : List Text, (∀ param ∈ params, isName param) →
      params.head? ≠ some ("self" : Text) → params.head? ≠ some ("cls" : Text) →
      ∃ emission, (Form.function name params).emit context closes = .ok (emission, context)
        ∧ Recognizes language .functions emission.text (.function name params))
    ∧ ∀ base? : Option Text,
      (∀ base ∈ base?, isName base ∧ base ≠ "object" ∧ base ≠ "metaclass") →
      (language = .go ∨ language = .rust → base? = none) →
      ∃ emission, (Form.classDef name base?).emit context closes = .ok (emission, context)
        ∧ Recognizes language .classes emission.text (.classDef name base?) := by
  constructor
  · intro params hparams hself hcls
    obtain ⟨emission, hemission, hrecognized⟩ :=
      function_round_trip language hname hparams hself hcls
    refine ⟨emission, ?_, hrecognized⟩
    rw [Form.emit]
    simp only [htarget, hemission]
    rfl
  · intro base? hbase hstruct
    obtain ⟨emission, hemission, hrecognized⟩ := class_round_trip hname hbase hstruct
    refine ⟨emission, ?_, hrecognized⟩
    simp only [Form.emit, htarget, hemission]
    rfl

theorem emitted_definition_recognized_cpp :
    isName "Shape"
    ∧ (∃ emission, (Form.function "Shape" ["width", "_h2"]).emit (.start .python .cpp) false
          = .ok (emission, .start .python .cpp)
        ∧ Recognizes .cpp .functions emission.text (.function "Shape" ["width", "_h2"]))
    ∧ ∃ emission, (Form.classDef "Shape" (some ("Figure" : Text))).emit (.start .python .cpp) false
          = .ok (emission, .start .python .cpp)
        ∧ Recognizes .cpp .classes emission.text (.classDef "Shape" (some ("Figure" : Text))) := by
  have hname : isName "Shape" := by decide
  have h := emitted_definition_recognized .cpp (rfl : (Context.start .python .cpp).target = _)
    false hname
  refine ⟨hname, h.1 _ ?_ (by decide) (by decide), h.2 _ ?_ (by decide)⟩
  · simp only [List.forall_mem_cons]
    exact ⟨by decide, by decide, by simp⟩
  · rintro base ⟨⟩
    decide

end RoundTrip

end Recast
