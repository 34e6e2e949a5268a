import Recast.Session.Basic
import Recast.Proofs.Transformation.Completion

/-!
# What a session guarantees

Settings become active only as a whole and only if every one of them is within its bounds, and
nothing else changes them.  This is so whatever the conversion is through which they are read: the
bounds are checked behind it.  Under such settings a request fails for one reason only: a text that
is too long.  A transformation whose languages are left open is always between languages that are
known.
-/

namespace Recast

variable {conversion : Conversion}

/-! ## Settings -/

namespace Settings

/-- Whether the settings are within their bounds. -/
structure IsValid (settings : Settings) : Prop where
  chunkSize_pos : 1 ≤ settings.chunkSize
  chunkSize_le : settings.chunkSize ≤ 10000
  maxInput_pos : 1 ≤ settings.maxInput

theorem isValid_default : IsValid {} where
  chunkSize_pos := by decide
  chunkSize_le := by decide
  maxInput_pos := by decide

theorem bounds_of_integerWithin {least n : Int} {greatest? : Option Int} {value : Value}
    (h : conversion.integerWithin least greatest? value = .ok n) :
    least ≤ n ∧ ∀ greatest ∈ greatest?, n ≤ greatest := by
  rw [Conversion.integerWithin] at h
  cases hvalue : conversion.integer value with
  | error misfit => simp [hvalue, bind, Except.bind] at h
  | ok m =>
    simp only [hvalue, bind, Except.bind] at h
    split at h
    · exact absurd h (by simp)
    · next hleast =>
      split at h
      · exact absurd h (by simp)
      · next hgreatest =>
        obtain rfl := Except.ok.inj h
        refine ⟨Int.not_lt.1 hleast, fun greatest hmem ↦ ?_⟩
        rw [Option.mem_def.1 hmem] at hgreatest
        simpa using hgreatest

/-- A setting that was read is its default or was read from a value. -/
theorem eq_default_or_read_of_field {α : Type} {entries : List (Text × Value)} {setting : Setting}
    {default a : α} {read : Value → Except Misfit α}
    (h : field entries setting default read = .ok a) :
    a = default ∨ ∃ value, read value = .ok a := by
  rw [field] at h
  split at h
  · exact .inl (Except.ok.inj h).symm
  · next value _ =>
    split at h
    · next b hread => exact .inr ⟨value, Except.ok.inj h ▸ hread⟩
    · exact absurd h (by simp)

/-- Settings that can be read are within their bounds. -/
theorem isValid_of_ofEntries {entries : List (Text × Value)} {settings : Settings}
    (h : ofEntries entries conversion = .ok settings) : settings.IsValid := by
  simp only [ofEntries] at h
  split at h
  · next target chunk limit outline htarget hchunk hlimit houtline =>
    obtain rfl := Except.ok.inj h
    have hbounds : 1 ≤ chunk ∧ chunk ≤ greatestChunkSize := by
      rcases eq_default_or_read_of_field hchunk with rfl | ⟨value, hread⟩
      · decide
      · obtain ⟨hleast, hgreatest⟩ := bounds_of_integerWithin hread
        exact ⟨hleast, hgreatest _ rfl⟩
    have hlimit : 1 ≤ limit := by
      rcases eq_default_or_read_of_field hlimit with rfl | ⟨value, hread⟩
      · decide
      · exact (bounds_of_integerWithin hread).1
    exact ⟨hbounds.1, hbounds.2, hlimit⟩
  · exact absurd h (by simp)

/-! ## Requests -/

theorem checkLengths_eq_ok_iff (settings : Settings) (texts : List Text) :
    settings.checkLengths texts = .ok () ↔ ∀ t ∈ texts, (t.length : Int) ≤ settings.maxInput := by
  induction texts with
  | nil => simp [checkLengths]
  | cons t texts ih =>
    rw [checkLengths]
    split
    · next hlong => simpa using fun h ↦ absurd hlong (Int.not_lt.2 h)
    · next hshort => simp [ih, Int.not_lt.1 hshort]

/-- The check refuses nothing but a text that is too long. -/
theorem exists_of_checkLengths_eq_error {settings : Settings} {texts : List Text}
    {error : RequestError} (h : settings.checkLengths texts = .error error) :
    ∃ t ∈ texts, settings.maxInput < t.length ∧ error = .tooLong t.length settings.maxInput := by
  induction texts with
  | nil => simp [checkLengths] at h
  | cons t texts ih =>
    rw [checkLengths] at h
    split at h
    · next hlong => exact ⟨t, List.mem_cons_self, hlong, (Except.error.inj h).symm⟩
    · obtain ⟨other, hmem, hother⟩ := ih h
      exact ⟨other, List.mem_cons_of_mem t hmem, hother⟩

theorem exists_deliver? {settings : Settings} (h : settings.IsValid) (stream : Bool) (t : Text) :
    ∃ events?, settings.deliver? stream t = .ok events? := by
  have hsize : ¬settings.chunkSize < 1 := Int.not_lt.2 h.chunkSize_pos
  cases stream with
  | false => exact ⟨none, rfl⟩
  | true => simp [deliver?, Event.ofText, hsize]

theorem exists_answerWithin {settings : Settings} (h : settings.IsValid) (request : Request) :
    ∃ reply, settings.answerWithin request = .ok reply := by
  cases request with
  | transform code source target stream =>
    obtain ⟨events?, hevents⟩ := exists_deliver? h stream
      (Transformation.ofCode code source (some (settings.targetOr target))).code
    exact ⟨_, by rw [answerWithin, hevents]; rfl⟩
  | detect | detectMixed | outline | compare | listLanguages => exact ⟨_, rfl⟩

/-- A request is answered exactly if none of its texts is too long. -/
theorem exists_answer_iff {settings : Settings} (h : settings.IsValid) (request : Request) :
    (∃ reply, settings.answer request = .ok reply)
      ↔ ∀ t ∈ request.texts, (t.length : Int) ≤ settings.maxInput := by
  rw [← checkLengths_eq_ok_iff, answer]
  cases hcheck : settings.checkLengths request.texts with
  | error error => simp [bind, Except.bind]
  | ok checked =>
    obtain ⟨reply, hreply⟩ := exists_answerWithin h request
    simp [bind, Except.bind, hreply]

theorem exists_of_answer_eq_error {settings : Settings} (h : settings.IsValid) {request : Request}
    {error : RequestError} (herror : settings.answer request = .error error) :
    ∃ t ∈ request.texts, settings.maxInput < t.length
      ∧ error = .tooLong t.length settings.maxInput := by
  rw [answer] at herror
  cases hcheck : settings.checkLengths request.texts with
  | error refusal =>
    rw [hcheck] at herror
    obtain rfl : refusal = error := Except.error.inj herror
    exact exists_of_checkLengths_eq_error hcheck
  | ok checked =>
    obtain ⟨reply, hreply⟩ := exists_answerWithin h request
    simp [hcheck, bind, Except.bind, hreply] at herror

end Settings

/-! ## Languages that are left open -/

theorem Language.lookup?_name (language : Language) : lookup? language.name = some language := by
  cases language <;> decide

namespace Transformation

theorem identifier_name (language : Language) : identifier (some language.name) = language.name := by
  cases language <;> decide

theorem errors_of_run {code : Text} {source target : Language} {transformation : Transformation}
    (h : run code source target = .ok transformation) : transformation.errors = [] := by
  obtain ⟨engine, hengine, -⟩ := RecastCode.ofCode_yields source target
    (Normalization.ofCode (some source) (some target) code).text
  rw [run, hengine] at h
  rw [← Except.ok.inj h]

/-- Between languages that are known nothing goes wrong. -/
theorem errors_ofCode {code : Text} {sourceName targetName : Option Text}
    (source target : Language)
    (hsource : Language.lookup? (sourceIdentifier code sourceName) = some source)
    (htarget : Language.lookup? (identifier targetName) = some target) :
    (ofCode code sourceName targetName).errors = [] := by
  by_cases hsame : source = target
  · rw [ofCode, hsource, htarget, if_pos (.inr ⟨rfl, congrArg some hsame⟩)]
    rfl
  · exact errors_of_run (run_eq_ok_ofCode hsource htarget hsame)

/-- A source that is not named, or named `auto`, is detected. -/
theorem sourceIdentifier_of_open {sourceName : Option Text}
    (h : sourceName = none ∨ sourceName = some ("auto" : Text)) (code : Text) :
    sourceIdentifier code sourceName = (Language.detect code).name := by
  rcases h with rfl | rfl
  · rfl
  · have hauto : identifier (some ("auto" : Text)) = "auto" := by decide
    rw [sourceIdentifier, hauto]
    rfl

end Transformation

/-! ## Sessions -/

namespace Session

theorem step_configure_of_ok {settings new : Settings} {entries : List (Text × Value)}
    (h : Settings.ofEntries entries conversion = .ok new) :
    step settings (.configure entries) conversion = (new, .configured new) := by
  rw [step, h]

theorem step_configure_of_error {settings : Settings} {entries : List (Text × Value)}
    {errors : List SettingError} (h : Settings.ofEntries entries conversion = .error errors) :
    step settings (.configure entries) conversion = (settings, .unconfigured errors) := by
  rw [step, h]

theorem step_ask_fst (settings : Settings) (request : Request) :
    (step settings (.ask request) conversion).1 = settings := by
  rw [step]
  split <;> rfl

theorem step_ask_eq_failed_iff {settings : Settings} {request : Request} {error : RequestError} :
    (step settings (.ask request) conversion).2 = .failed error
      ↔ settings.answer request = .error error := by
  rw [step]
  split
  · next reply hreply => simp [hreply]
  · next other hother => simp [hother]

theorem isValid_step {settings : Settings} (h : settings.IsValid) (s : Step) :
    (step settings s conversion).1.IsValid := by
  cases s with
  | ask request => rwa [step_ask_fst]
  | configure entries =>
    cases hread : Settings.ofEntries entries conversion with
    | ok new =>
      rw [step_configure_of_ok hread]
      exact Settings.isValid_of_ofEntries hread
    | error errors => rwa [step_configure_of_error hread]

theorem isValid_run {settings : Settings} (h : settings.IsValid) (steps : List Step) :
    (run settings steps conversion).1.IsValid := by
  induction steps generalizing settings with
  | nil => exact h
  | cons s steps ih => exact ih (isValid_step h s)

/-- The last step of a run is taken under the settings that the steps before it leave. -/
theorem run_append_singleton (settings : Settings) (steps : List Step) (s : Step) :
    run settings (steps ++ [s]) conversion
      = ((step (run settings steps conversion).1 s conversion).1,
          (run settings steps conversion).2
            ++ [(step (run settings steps conversion).1 s conversion).2]) := by
  induction steps generalizing settings with
  | nil => rfl
  | cons first steps ih => simp only [List.cons_append, run, ih]

/-- A request fails exactly if one of its texts is too long. -/
theorem exists_step_ask_eq_failed_iff {settings : Settings} (h : settings.IsValid)
    (request : Request) :
    (∃ error, (step settings (.ask request) conversion).2 = .failed error)
      ↔ ∃ t ∈ request.texts, settings.maxInput < t.length := by
  simp only [step_ask_eq_failed_iff]
  constructor
  · rintro ⟨error, herror⟩
    obtain ⟨t, hmem, hlong, -⟩ := Settings.exists_of_answer_eq_error h herror
    exact ⟨t, hmem, hlong⟩
  · rintro ⟨t, hmem, hlong⟩
    cases hanswer : settings.answer request with
    | error error => exact ⟨error, rfl⟩
    | ok reply =>
      have hshort := (Settings.exists_answer_iff h request).1 ⟨reply, hanswer⟩ t hmem
      exact absurd hlong (Int.not_lt.2 hshort)

/-- A transformation that leaves both languages open goes from the language that is detected to the
default one, and nothing goes wrong. -/
theorem exists_step_transform_of_open {settings : Settings} (h : settings.IsValid) {code : Text}
    {source : Option Text} (stream : Bool) (hsource : source = none ∨ source = some ("auto" : Text))
    (hlength : (code.length : Int) ≤ settings.maxInput) :
    ∃ transformation events?,
      (step settings (.ask (.transform code source none stream)) conversion).2
        = .answered (.transformation transformation settings.includeOutline events?)
      ∧ transformation.errors = [] := by
  let transformation := Transformation.ofCode code source (some settings.defaultTarget.name)
  obtain ⟨events?, hevents⟩ := Settings.exists_deliver? h stream transformation.code
  have hcheck : settings.checkLengths [code] = .ok () := by
    rw [Settings.checkLengths_eq_ok_iff]
    simpa using hlength
  have hanswer : settings.answer (.transform code source none stream)
      = .ok (.transformation transformation settings.includeOutline events?) := by
    rw [Settings.answer, Request.texts, hcheck]
    simp only [Settings.answerWithin, Settings.targetOr, hevents, bind, Except.bind, transformation]
    rfl
  refine ⟨transformation, events?, ?_, ?_⟩
  · rw [step, hanswer]
  · apply Transformation.errors_ofCode (Language.detect code) settings.defaultTarget
    · rw [Transformation.sourceIdentifier_of_open hsource, Language.lookup?_name]
    · rw [Transformation.identifier_name, Language.lookup?_name]

/-- After any steps from the default settings, the settings are within their bounds, whatever the
conversion takes for a number, and the next step of the session is taken under them.  Settings that
can be read become active.  Settings that are refused, and requests whether they are answered or
not, leave them as they are.  A request fails exactly if one of its texts is too long, and that is
what its failure says.  A transformation that leaves both languages open and is not too long is
answered without errors. -/
theorem run_keeps_contract (conversion : Conversion) (steps : List Step) :
    let settings := (run {} steps conversion).1
    (∀ s, run {} (steps ++ [s]) conversion
      = ((step settings s conversion).1,
          (run {} steps conversion).2 ++ [(step settings s conversion).2]))
    ∧ (1 ≤ settings.chunkSize ∧ settings.chunkSize ≤ 10000 ∧ 1 ≤ settings.maxInput
      ∧ settings.defaultTarget.name ∈ Language.all.map Language.name)
    ∧ (∀ entries new, Settings.ofEntries entries conversion = .ok new →
      step settings (.configure entries) conversion = (new, .configured new))
    ∧ (∀ entries errors, Settings.ofEntries entries conversion = .error errors →
      step settings (.configure entries) conversion = (settings, .unconfigured errors))
    ∧ (∀ request, (step settings (.ask request) conversion).1 = settings)
    ∧ (∀ request, (∃ error, (step settings (.ask request) conversion).2 = .failed error)
      ↔ ∃ t ∈ request.texts, settings.maxInput < t.length)
    ∧ (∀ request error, (step settings (.ask request) conversion).2 = .failed error →
      ∃ t ∈ request.texts, settings.maxInput < t.length
        ∧ error = .tooLong t.length settings.maxInput)
    ∧ ∀ (code : Text) (source : Option Text) (stream : Bool),
      source = none ∨ source = some ("auto" : Text) → (code.length : Int) ≤ settings.maxInput →
      ∃ transformation events?,
        (step settings (.ask (.transform code source none stream)) conversion).2
          = .answered (.transformation transformation settings.includeOutline events?)
        ∧ transformation.errors = [] := by
  intro settings
  have hvalid : settings.IsValid := isValid_run Settings.isValid_default steps
  refine ⟨run_append_singleton {} steps,
    ⟨hvalid.chunkSize_pos, hvalid.chunkSize_le, hvalid.maxInput_pos,
      List.mem_map_of_mem (Language.mem_all settings.defaultTarget)⟩,
    fun _ _ ↦ step_configure_of_ok, fun _ _ ↦ step_configure_of_error, step_ask_fst settings,
    exists_step_ask_eq_failed_iff hvalid, fun request error herror ↦ ?_,
    fun code source stream ↦ exists_step_transform_of_open hvalid stream⟩
  exact Settings.exists_of_answer_eq_error hvalid (step_ask_eq_failed_iff.1 herror)

end Session

end Recast
