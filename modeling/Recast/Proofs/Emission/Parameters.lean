import Recast.Construct.Reading
import Recast.Emission.Definition
import Recast.Proofs.Language.Profile
import Recast.Proofs.Pattern.Piecewise
import Recast.Proofs.Text.Name

/-!
# Lists of parameters

The header of a function lists its parameters with placeholder types or sigils, as the language
wants them.  Reading such a list takes them off again, so that names come back as they were.
-/

namespace Recast

open Pattern Text

/-! ## Lists of parameters -/

namespace Emission

variable {language : Language} {param : Text} {params : List Text} {c : Char}

/-- What a language writes in front of a parameter. -/
def typeBefore : Language → Text
  | .java => "Object "
  | .csharp => "object "
  | .cpp => "auto "
  | .php => "$"
  | _ => []

/-- What a language writes after a parameter. -/
def typeAfter : Language → Text
  | .go => " interface" ++ ['{', '}']
  | _ => []

theorem typedParam_eq (language : Language) (param : Text) :
    typedParam language param = typeBefore language ++ (param ++ typeAfter language) := by
  have hnil (before : Text) : before ++ param = before ++ (param ++ []) := by
    rw [List.append_nil]
  cases language with
  | go => exact List.append_assoc _ _ _
  | java => exact hnil "Object "
  | csharp => exact hnil "object "
  | cpp => exact hnil "auto "
  | php => exact hnil "$"
  | _ => exact hnil []

/-- The parameters as the header of a function lists them. -/
def paramList (language : Language) (params : List Text) : Text :=
  joinWith ", " (params.map (typedParam language))

theorem renderParam_of_isName (h : isName param) (language : Language) :
    renderParam language.profile param = (typedParam language param, []) := by
  have hcut : cut " = " param = (param, none) :=
    cut_of_notMem (List.mem_cons_self : ' ' ∈ (" = " : Text)) (notMem_of_isName h rfl)
  rw [renderParam, hcut, Language.language_profile]

/-- A character that may stand in a list of parameters. -/
def isListChar (c : Char) : Bool :=
  isNameChar c || [',', ' ', '$', '{', '}'].contains c

theorem isListChar_of_isNameChar (h : isNameChar c) : isListChar c := by
  simp [isListChar, h]

theorem isListChar_of_mem_typedParam (hparam : isName param) (h : c ∈ typedParam language param) :
    isListChar c := by
  have hbefore : (typeBefore language).all isListChar := by cases language <;> decide
  have hafter : (typeAfter language).all isListChar := by cases language <;> decide
  rw [typedParam_eq, List.mem_append, List.mem_append] at h
  rcases h with h | h | h
  · exact List.all_eq_true.1 hbefore c h
  · exact isListChar_of_isNameChar (isNameChar_of_mem hparam h)
  · exact List.all_eq_true.1 hafter c h

theorem isListChar_of_mem_paramList (hparams : ∀ param ∈ params, isName param)
    (h : c ∈ paramList language params) : isListChar c := by
  have hseparator : (", " : Text).all isListChar := by decide
  rcases mem_of_mem_joinWith h with h | ⟨piece, hpiece, h⟩
  · exact List.all_eq_true.1 hseparator c h
  · obtain ⟨param, hparam, rfl⟩ := List.mem_map.1 hpiece
    exact isListChar_of_mem_typedParam (hparams param hparam) h

theorem ne_of_isListChar {d : Char} (hc : isListChar c) (hd : isListChar d = false) : c ≠ d := by
  rintro rfl
  rw [hd] at hc
  exact Bool.false_ne_true hc

theorem isLevel_typedParam (h : isName param) (language : Language) :
    IsLevel (typedParam language param) := by
  rw [typedParam_eq]
  refine IsLevel.append ?_ ((isLevel_of_isName h).append ?_)
  · cases language <;> exact fun _ _ ↦ rfl
  · cases language <;> exact fun _ _ ↦ rfl

theorem typedParam_ne_nil (h : isName param) (language : Language) :
    typedParam language param ≠ [] := by
  simp [typedParam_eq, ne_nil_of_isName h]

theorem trim_typedParam (h : isName param) (language : Language) :
    trim (typedParam language param) = typedParam language param := by
  have hchar (c : Char) (hc : c ∈ param) : isBlank c = false :=
    isBlank_of_isNameChar (isNameChar_of_mem h hc)
  have hbefore : (typeBefore language).head?.all (!isBlank ·) := by cases language <;> decide
  have hafter : (typeAfter language).getLast?.all (!isBlank ·) := by cases language <;> decide
  rw [typedParam_eq]
  apply trim_eq_self
  · intro c hc
    rw [List.head?_append, List.head?_append, Option.mem_def, Option.or_eq_some_iff,
      Option.or_eq_some_iff] at hc
    rcases hc with hc | ⟨-, hc | ⟨hnil, -⟩⟩
    · simpa [hc] using hbefore
    · exact hchar c (List.mem_of_head? hc)
    · exact absurd (List.head?_eq_none_iff.1 hnil) (ne_nil_of_isName h)
  · intro c hc
    rw [List.getLast?_append, List.getLast?_append, Option.mem_def, Option.or_eq_some_iff,
      Option.or_eq_some_iff] at hc
    rcases hc with (hc | ⟨-, hc⟩) | ⟨hnil, -⟩
    · simpa [hc] using hafter
    · exact hchar c (List.mem_of_getLast? hc)
    · simp [ne_nil_of_isName h] at hnil

end Emission

/-! ## Parameters are read back -/

namespace Form

variable {language : Language} {name : Text}

theorem lastName_go_length (last? : Option Text) (t : Text) :
    lastName.go last? t.length t = last? := by
  induction t with
  | nil => rfl
  | cons c t ih => exact ih

theorem lastName_go_of_isName (h : isName name) (last? : Option Text) :
    lastName.go last? 0 name = some name := by
  cases name with
  | nil => exact absurd h Bool.false_ne_true
  | cons c rest =>
    have hstart : (c.isAlpha || c == '_') = true := (Bool.and_eq_true_iff.1 h).1
    have hrest : rest.takeWhile isWord = rest := List.takeWhile_eq_self_iff.2 fun d hd ↦
      isWord_of_isNameChar (isNameChar_of_mem h (List.mem_cons_of_mem c hd))
    rw [lastName.go, if_pos hstart, hrest]
    exact lastName_go_length _ rest

theorem words_go_append {u : Text} (h : ∀ c ∈ u, isBlank c = false) (word t : Text) :
    words.go word (u ++ t) = words.go (u.reverse ++ word) t := by
  induction u generalizing word with
  | nil => rfl
  | cons c u ih =>
    rw [List.cons_append, words.go, h c List.mem_cons_self, if_neg Bool.false_ne_true,
      ih fun d hd ↦ h d (List.mem_cons_of_mem c hd)]
    simp

theorem headD_words {t : Text} (h : isName name) (other : Text) :
    (words (name ++ ' ' :: t)).headD other = name := by
  have hblank (c : Char) (hc : c ∈ name) : isBlank c = false :=
    isBlank_of_isNameChar (isNameChar_of_mem h hc)
  have hspace : isBlank ' ' = true := rfl
  rw [words, words_go_append hblank, List.append_nil, words.go, if_pos hspace,
    if_neg (by simp [ne_nil_of_isName h]), List.reverse_reverse]
  rfl

theorem search_sigilName (h : isName name) :
    (sigilName.search ('$' :: name)).map (·.reading.get .name) = some name := by
  have hname : word.readAt ⟨some '$', name ++ [], []⟩ = some ⟨endOf (some '$') name, [], []⟩ :=
    readAt_most1_char (fun _ hc ↦ isWord_of_isNameChar (isNameChar_of_mem h hc))
      (ne_nil_of_isName h) (by simp)
  rw [List.append_nil] at hname
  have hread : sigilName.readAt ⟨none, '$' :: name, []⟩
      = some ⟨endOf (some '$') name, [], [⟨.name, name, []⟩]⟩ :=
    readAt_append rfl (readAt_keep hname)
  rw [search, searchFrom, hread]
  simp [Reading.get, Reading.get?, Capture.text]

theorem readStart_borrowMark (h : isName name) :
    borrowMark.readStart name = some ⟨none, name, []⟩ := by
  refine readAt_append (readAt_maybe_of_none ?_) (readAt_maybe_of_none ?_)
  · cases name with
    | nil => rfl
    | cons c rest =>
      have hc : c ≠ '&' := ne_of_isNameChar (isNameChar_of_mem h List.mem_cons_self) rfl
      exact if_neg (by simpa using hc)
  · exact readAt_append_most1_char_eq_none _ fun c hc ↦
      isBlank_of_isNameChar (isNameChar_of_mem h hc)

theorem bareParam_typedParam (h : isName name) (language : Language) :
    bareParam language (Emission.typedParam language name) = name := by
  have hplain : bareParam .python name = name := by
    have hcut : cut ":" name = (name, none) :=
      cut_of_notMem (List.mem_cons_self : ':' ∈ (":" : Text)) (notMem_of_isName h rfl)
    have htrim : trim name = name := Emission.trim_typedParam h .python
    have hmark : dropEndWhile (· == '?') name = name := dropEndWhile_eq_self fun c hc ↦
      beq_false_of_ne (ne_of_isNameChar (isNameChar_of_mem h (List.mem_of_getLast? hc)) rfl)
    simp only [bareParam, hcut, htrim, hmark, readStart_borrowMark h]
  have hlast (before : Text) (last? : Option Text)
      (hbefore : lastName.go none 0 (before ++ name) = lastName.go last? 0 name) :
      (lastName (before ++ name)).getD (before ++ name) = name := by
    rw [lastName, hbefore, lastName_go_of_isName h]
    rfl
  cases language with
  | java => exact hlast "Object " (some "Object") rfl
  | cpp => exact hlast "auto " (some "auto") rfl
  | csharp => exact hlast "object " (some "object") rfl
  | go =>
    change (words (name ++ " interface" ++ ['{', '}'])).headD _ = name
    rw [List.append_assoc]
    exact headD_words h _
  | php =>
    obtain ⟨found, hfound, hget⟩ := Option.map_eq_some_iff.1 (search_sigilName h)
    have hbare : bareParam .php ('$' :: name) = name := by simp only [bareParam, hfound, hget]
    exact hbare
  | _ => exact hplain

theorem param_typedParam (h : isName name) (language : Language) :
    param language (Emission.typedParam language name) = name := by
  have hcut : cut "=" (Emission.typedParam language name)
      = (Emission.typedParam language name, none) :=
    cut_of_notMem (List.mem_cons_self : '=' ∈ ("=" : Text))
      fun hmem ↦ Emission.ne_of_isListChar (Emission.isListChar_of_mem_typedParam h hmem) rfl rfl
  simp only [param, hcut, Emission.trim_typedParam h, bareParam_typedParam h]

/-- The parameters of a header are read back from their list. -/
theorem params_paramList {params : List Text} (h : ∀ param ∈ params, isName param)
    (language : Language) : Form.params language (Emission.paramList language params) = params := by
  have hsplit : splitTopLevel ',' (Emission.paramList language params)
      = params.map (Emission.typedParam language) := by
    apply splitTopLevel_joinWith
    intro piece hpiece
    obtain ⟨param, hparam, rfl⟩ := List.mem_map.1 hpiece
    exact ⟨Emission.isLevel_typedParam (h param hparam) language,
      Emission.typedParam_ne_nil (h param hparam) language,
      Emission.trim_typedParam (h param hparam) language⟩
  have hfilter : (params.map (Emission.typedParam language)).filter (!·.isEmpty)
      = params.map (Emission.typedParam language) := by
    rw [List.filter_eq_self, List.forall_mem_map]
    intro param hparam
    simp [Emission.typedParam_ne_nil (h param hparam) language]
  rw [Form.params, hsplit, hfilter, List.map_map]
  calc
    _ = params.map id := by
      apply List.map_congr_left
      intro param hparam
      exact param_typedParam (h param hparam) language
    _ = params := List.map_id params

end Form

end Recast
