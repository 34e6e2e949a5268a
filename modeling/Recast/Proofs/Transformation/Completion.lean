import Recast.Transformation
import Recast.Proofs.Normalization.Lines
import Recast.Proofs.Recasting.Progress

/-!
# Transformations come to an end, line by line

Recasting never fails: a program in a language that is known is recast into any other, and the
result has one record for each of its lines.
-/

namespace Recast

theorem Language.canRecast_eq_true (source target : Language) : source.canRecast target = true := by
  have hany : (Category.all.any fun category ↦ !(source.recognizers category).isEmpty) = true := by
    cases source <;> decide
  rw [canRecast, hany, Bool.or_true]

/-- Every program is recast, into as many lines as it has. -/
theorem RecastCode.ofCode_yields (source target : Language) (code : Text) :
    Yields
      (fun engine ↦ engine.lines.length = (Text.lines code).length
        ∧ ∀ recast ∈ engine.lines, '\n' ∉ recast.text)
      (ofCode source target code) := by
  refine (RecastLine.ofLines_yields _ _ _).bind fun (recasts, after) ⟨hlength, hrecasts⟩ ↦ ?_
  refine yields_pure.2 ⟨hlength, hrecasts (Context.isSingleLine_start source target) ?_⟩
  exact fun line hline ↦ Text.newline_notMem_of_mem_lines hline

/-- Each line of the program is recast in the context that the lines before it leave. -/
theorem RecastCode.ofLine_of_ofCode {source target : Language} {code : Text} {engine : RecastCode}
    (h : ofCode source target code = .ok engine) {i : Nat} {line : Text} {recast : RecastLine}
    (hline : (Text.lines code)[i]? = some line) (hrecast : engine.lines[i]? = some recast) :
    ∃ before after,
      RecastLine.ofLines (Rule.between source target) (.start source target)
          ((Text.lines code).take i) = .ok (engine.lines.take i, before)
        ∧ RecastLine.ofLine (Rule.between source target) before line = .ok (recast, after) := by
  obtain ⟨⟨recasts, final⟩, hlines, -⟩ := RecastLine.ofLines_yields (Rule.between source target)
    (.start source target) (Text.lines code)
  rw [ofCode, hlines] at h
  obtain rfl : (⟨recasts⟩ : RecastCode) = engine := Except.ok.inj h
  exact RecastLine.ofLine_of_ofLines hlines hline hrecast

namespace Transformation

/-! ## Completion -/

theorem run_yields (code : Text) (source target : Language) :
    Yields
      (fun transformation ↦ ∃ engine,
        RecastCode.ofCode source target
            (Normalization.ofCode (some source) (some target) code).text = .ok engine
          ∧ transformation.lines = recordsFrom 1 (Text.splitLines code) engine.lines)
      (run code source target) := by
  obtain ⟨engine, hengine, -⟩ := RecastCode.ofCode_yields source target
    (Normalization.ofCode (some source) (some target) code).text
  rw [run, hengine]
  exact yields_pure.2 ⟨engine, rfl, rfl⟩

variable {code : Text} {sourceName targetName : Option Text} {source target : Language}

/-- Between different languages a transformation is what recasting comes to. -/
theorem run_eq_ok_ofCode
    (hsource : Language.lookup? (sourceIdentifier code sourceName) = some source)
    (htarget : Language.lookup? (identifier targetName) = some target) (hne : source ≠ target) :
    run code source target = .ok (ofCode code sourceName targetName) := by
  have hidentifiers : sourceIdentifier code sourceName ≠ identifier targetName := by
    intro heq
    rw [heq, htarget] at hsource
    exact hne (Option.some.inj hsource).symm
  have hlookups : ¬(some source : Option Language) = some target := by simpa using hne
  obtain ⟨transformation, hrun, -⟩ := run_yields code source target
  rw [hrun, ofCode, hsource, htarget]
  simp [hidentifiers, hlookups, Language.canRecast_eq_true, hrun]

/-- If a language is not known, nothing is recast, unless both go by one name. -/
theorem ofCode_eq_unsupported (hne : sourceIdentifier code sourceName ≠ identifier targetName)
    (h : Language.lookup? (sourceIdentifier code sourceName) = none
      ∨ Language.lookup? (identifier targetName) = none) :
    ofCode code sourceName targetName
      = unsupported code (sourceIdentifier code sourceName) (identifier targetName)
        (Language.lookup? (sourceIdentifier code sourceName))
        (Language.lookup? (identifier targetName)) := by
  rcases h with h | h
  · simp [ofCode, h, hne]
  · cases hsource : Language.lookup? (sourceIdentifier code sourceName) <;>
      simp [ofCode, h, hsource, hne]

/-- A transformation never ends in a failure.  A program stays as it is if it is in the target
language already, it comes back as unsupported if a language is not known, and otherwise it is
recast.  Behind this, in every pair of languages: a recognizer of the source reads every line
without a fault, and what it recognizes has a wording unless the target lacks its kind. -/
theorem ofCode_never_fails :
    (∀ (code : Text) (sourceName targetName : Option Text),
      let sourceId := sourceIdentifier code sourceName
      let targetId := identifier targetName
      let source? := Language.lookup? sourceId
      let target? := Language.lookup? targetId
      (sourceId = targetId ∨ source?.isSome ∧ source? = target?)
          ∧ ofCode code sourceName targetName = identity code sourceId targetId source?
        ∨ (source? = none ∨ target? = none)
          ∧ ofCode code sourceName targetName = unsupported code sourceId targetId source? target?
        ∨ ∃ source target, source ≠ target ∧ source? = some source ∧ target? = some target
          ∧ run code source target = .ok (ofCode code sourceName targetName))
    ∧ ∀ (source target : Language), source ≠ target →
      ∀ category, ∀ recognizer ∈ source.recognizers category, ∀ line,
        ∃ construct?, recognizer.recognize source line = .ok construct?
          ∧ ∀ construct ∈ construct?, construct.kind.lack? target = none →
            ∀ context : Context, context.target = target.profile →
              ∃ result, construct.form.emit context construct.closes = .ok result := by
  refine ⟨?_, ?_⟩
  · intro code sourceName targetName sourceId targetId source? target?
    by_cases hsame : sourceId = targetId ∨ source?.isSome ∧ source? = target?
    · exact .inl ⟨hsame, if_pos hsame⟩
    · obtain ⟨hne, hlookups⟩ := not_or.1 hsame
      right
      cases hsource : source? with
      | none => exact .inl ⟨.inl rfl, hsource ▸ ofCode_eq_unsupported hne (.inl hsource)⟩
      | some source =>
        cases htarget : target? with
        | none =>
          exact .inl ⟨.inr rfl, hsource ▸ htarget ▸ ofCode_eq_unsupported hne (.inr htarget)⟩
        | some target =>
          have hdistinct : source ≠ target := by
            rintro rfl
            exact hlookups ⟨by simp [hsource], hsource.trans htarget.symm⟩
          exact .inr ⟨source, target, hdistinct, rfl, rfl,
            run_eq_ok_ofCode hsource htarget hdistinct⟩
  · intro source target _ category recognizer hrecognizer line
    obtain ⟨construct?, hrecognize, -⟩ := Recognizer.recognize_yields source line
      (Language.isServed_of_mem_recognizers hrecognizer)
    refine ⟨construct?, hrecognize, fun construct _ hlack context hcontext ↦ ?_⟩
    have hwording : construct.kind.lack? context.target.language = none := by
      rw [hcontext, Language.language_profile]
      exact hlack
    obtain ⟨result, hresult, -⟩ := Form.emit_yields construct.closes hwording
    exact ⟨result, hresult⟩

/-! ## Records -/

theorem length_recordsFrom (number : Nat) (inputs : List Text) (recasts : List RecastLine) :
    (recordsFrom number inputs recasts).length = min inputs.length recasts.length := by
  induction inputs generalizing number recasts with
  | nil => simp [recordsFrom]
  | cons input inputs ih =>
    cases recasts with
    | nil => simp [recordsFrom]
    | cons recast others => simp [recordsFrom, ih]

theorem getElem?_recordsFrom {number : Nat} {inputs : List Text} {recasts : List RecastLine}
    {i : Nat} {input : Text} {recast : RecastLine} (hinput : inputs[i]? = some input)
    (hrecast : recasts[i]? = some recast) :
    (recordsFrom number inputs recasts)[i]? = some
      { number := number + i
        input := input
        transformed := recast.text
        warnings := recast.warnings } := by
  induction inputs generalizing number recasts i with
  | nil => simp at hinput
  | cons first inputs ih =>
    cases recasts with
    | nil => simp at hrecast
    | cons kept others =>
      cases i with
      | zero => simp_all [recordsFrom]
      | succ i =>
        rw [recordsFrom, List.getElem?_cons_succ,
          ih (by simpa using hinput) (by simpa using hrecast), Nat.add_assoc, Nat.add_comm 1 i]

/-- Between different languages a transformation has one record for each line of the program: the
record of a line holds its number, the line as it was given, and what the line at the same place of
the normalized program was recast to, in the context that the lines before it left.

The parts that follow say why no line is lost.  Cutting a program at its line ends and writing every
line end as a line feed first come to the same; the normalized program and the recast one have as
many lines; and no correction, no rule and no wording puts a line feed into a line. -/
theorem records_match_lines
    (hsource : Language.lookup? (sourceIdentifier code sourceName) = some source)
    (htarget : Language.lookup? (identifier targetName) = some target) (hne : source ≠ target) :
    let pieces := Text.splitLines code
    let normalized := (Normalization.ofCode (some source) (some target) code).text
    let records := (ofCode code sourceName targetName).lines
    let rules := Rule.between source target
    (∃ engine, RecastCode.ofCode source target normalized = .ok engine
      ∧ records.length = pieces.length
      ∧ (∀ i piece, pieces[i]? = some piece →
        ∃ record line recast before after, records[i]? = some record
          ∧ record.number = i + 1 ∧ record.input = piece ∧ record.transformed = recast.text
          ∧ (Text.lines normalized)[i]? = some line ∧ engine.lines[i]? = some recast
          ∧ RecastLine.ofLines rules (.start source target) ((Text.lines normalized).take i)
            = .ok (engine.lines.take i, before)
          ∧ RecastLine.ofLine rules before line = .ok (recast, after)
          ∧ '\n' ∉ recast.text)
      ∧ engine.lines.length = pieces.length)
    ∧ pieces = Text.lines
      (Text.substitute ['\r'] ['\n'] (Text.substitute ['\r', '\n'] ['\n'] code))
    ∧ (Text.lines normalized).length = pieces.length
    ∧ (∀ (correction : Correction) (lines : List Text),
      KeepsLines lines (correction.apply (some source.profile) (some target.profile) lines))
    ∧ (∀ (rule : Rule) (context : Context) (line : Text), context.IsSingleLine → '\n' ∉ line →
      ∃ outcome after, rule.apply context line = .ok (outcome, after)
        ∧ '\n' ∉ outcome.text ∧ after.IsSingleLine)
    ∧ ∀ (form : Form) (context : Context) (closes : Bool),
      form.kind.lack? context.target.language = none → context.IsSingleLine → form.IsSingleLine →
      ∃ emission after, form.emit context closes = .ok (emission, after)
        ∧ '\n' ∉ emission.text ∧ after.IsSingleLine := by
  intro pieces normalized records rules
  have hkept := Normalization.ofCode_keepsLines (some source) (some target) code
  have hlines : (Text.lines normalized).length = pieces.length := by
    rw [Normalization.lines_text]
    exact hkept.length_eq
  obtain ⟨engine, hengine, hlength, hnewline⟩ := RecastCode.ofCode_yields source target normalized
  rw [hlines] at hlength
  have hrecords : records = recordsFrom 1 pieces engine.lines := by
    obtain ⟨transformation, hrun, engine', hengine', hrecords⟩ := run_yields code source target
    obtain rfl := Except.ok.inj (hengine.symm.trans hengine')
    obtain rfl := Except.ok.inj (hrun.symm.trans (run_eq_ok_ofCode hsource htarget hne))
    exact hrecords
  refine ⟨⟨engine, hengine, ?_, ?_, hlength⟩, ?_, hlines, ?_, ?_, ?_⟩
  · rw [hrecords, length_recordsFrom, hlength, Nat.min_self]
  · intro i piece hpiece
    obtain ⟨hi, -⟩ := List.getElem?_eq_some_iff.1 hpiece
    obtain ⟨line, hline⟩ : ∃ line, (Text.lines normalized)[i]? = some line :=
      ⟨_, List.getElem?_eq_getElem (by omega)⟩
    obtain ⟨recast, hrecast⟩ : ∃ recast, engine.lines[i]? = some recast :=
      ⟨_, List.getElem?_eq_getElem (by omega)⟩
    obtain ⟨before, after, htake, hof⟩ := RecastCode.ofLine_of_ofCode hengine hline hrecast
    refine ⟨_, line, recast, before, after, hrecords ▸ getElem?_recordsFrom hpiece hrecast,
      Nat.add_comm 1 i, rfl, rfl, hline, hrecast, htake, hof, ?_⟩
    exact hnewline recast (List.mem_of_getElem? hrecast)
  · rw [← Text.unifyLineEnds_eq_substitute]
    exact Text.splitLines_eq_lines code
  · exact fun correction lines ↦ Correction.apply_keepsLines correction _
      (by simp [target.isSingleLine_profile]) lines
  · intro rule context line hcontext hline
    obtain ⟨⟨outcome, after⟩, hok, h⟩ := rule.apply_yields context line
    exact ⟨outcome, after, hok, h hcontext hline⟩
  · intro form context closes hlack hcontext hform
    obtain ⟨⟨emission, after⟩, hok, h⟩ := Form.emit_yields closes hlack
    exact ⟨emission, after, hok, h hcontext hform⟩

/-- A program with all three line ends, the last of which starts an empty line. -/
theorem records_match_lines_mixed :
    Language.lookup? (sourceIdentifier "def f(x):\r\n\r  print(x)\n" (some "Python"))
        = some .python
      ∧ Language.lookup? (identifier (some " JS ")) = some .javascript
      ∧ (ofCode "def f(x):\r\n\r  print(x)\n" (some "Python") (some " JS ")).lines.length = 4
      ∧ ∃ record : LineRecord,
        (ofCode "def f(x):\r\n\r  print(x)\n" (some "Python") (some " JS ")).lines[2]? = some record
          ∧ record.number = 3 ∧ record.input = ("  print(x)" : Text)
          ∧ '\n' ∉ record.transformed := by
  have hsource : Language.lookup? (sourceIdentifier "def f(x):\r\n\r  print(x)\n" (some "Python"))
      = some .python := by decide
  have htarget : Language.lookup? (identifier (some " JS ")) = some .javascript := by decide
  obtain ⟨⟨engine, -, hlength, hrecords, -⟩, -⟩ :=
    records_match_lines hsource htarget (by decide)
  obtain ⟨record, -, recast, -, -, hrecord, hnumber, hinput, htext, -, -, -, -, hnewline⟩ :=
    hrecords 2 "  print(x)" (by decide)
  exact ⟨hsource, htarget, hlength, record, hrecord, hnumber, hinput, htext ▸ hnewline⟩

end Transformation

end Recast
