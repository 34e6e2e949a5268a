import Recast.Language.Detection
import Recast.Proofs.Language.Profile
import Recast.Proofs.Pattern.Surroundings

/-!
# More lines, no less evidence

The patterns that betray a language look at no more of their surroundings than the edges of words
and the ends of lines, and these stay where they are when other lines are put around a program.  So
each pattern that was found is found again: no language loses in score or in weight, and a program
that shows traces of several languages still does, of the same ones at least.
-/

namespace Recast

open Pattern

@[simp]
theorem endures_lineOf {p : Pattern} : (lineOf p).Endures ↔ p.Endures := by
  simp [lineOf]

@[simp]
theorem endures_callOf {p : Pattern} : (callOf p).Endures ↔ p.Endures := by
  simp [callOf]

theorem MixedReport.ofCode_of_detected {code : Text} (h : (ofCode code).detected) :
    ofCode code = ofScores (Language.scores code) ∧ Text.isVoid code = false := by
  rw [ofCode] at h ⊢
  split at h
  · exact absurd h (by simp [ofScores])
  · rename_i hvoid
    exact ⟨if_neg hvoid, by simpa using hvoid⟩

namespace Language

/-- The patterns that are counted for a language and those that are weighed. -/
def evidence (language : Language) : List Pattern :=
  language.fingerprints ++ language.clues.map Prod.fst

theorem endures_of_mem_evidence (language : Language) : ∀ p ∈ language.evidence, p.Endures := by
  cases language <;>
    simp [evidence, fingerprints, clues, defHead, colonHeader, pythonLiteral, scriptBinding,
      annotatedType, interfaceHead, typeAlias, publicMember, includeLine, packageLine, fmtCall,
      fnHead, letMut, usingSystem, consoleWrite, namespaceLine, sigilAssignment, echoLine, endLine,
      putsLine, blockArgument, requireLine, anything]

variable {language : Language} {code : Text}

theorem occurs_of_mem_evidence {p : Pattern} (hp : p ∈ language.evidence) (h : p.occurs code)
    (pre post : Text) : p.occurs (pre ++ '\n' :: code ++ '\n' :: post) :=
  occurs_amid_lines (language.endures_of_mem_evidence p hp) h pre post

/-! ## Scores and weights -/

theorem score_le_amid_lines (language : Language) (pre code post : Text) :
    language.score code ≤ language.score (pre ++ '\n' :: code ++ '\n' :: post) := by
  apply List.countP_mono_left
  intro p hp h
  exact occurs_of_mem_evidence (List.mem_append_left _ hp) h pre post

theorem total_filter_le {α : Type} {measure : α → Nat} {p q : α → Bool} {items : List α}
    (h : ∀ a ∈ items, p a → q a) :
    total measure (items.filter p) ≤ total measure (items.filter q) := by
  induction items with
  | nil => exact Nat.le_refl _
  | cons a items ih =>
    obtain ⟨ha, hitems⟩ := List.forall_mem_cons.1 h
    have hrest := ih hitems
    simp only [List.filter_cons]
    split
    · rename_i hp
      rw [if_pos (ha hp)]
      exact Nat.add_le_add_left hrest _
    · split
      · exact Nat.le_add_left_of_le hrest
      · exact hrest

theorem weight_le_amid_lines (language : Language) (pre code post : Text) :
    language.weight code ≤ language.weight (pre ++ '\n' :: code ++ '\n' :: post) := by
  apply total_filter_le
  intro clue hclue h
  exact occurs_of_mem_evidence (List.mem_append_right _ (List.mem_map_of_mem hclue)) h pre post

/-! ## What is reported -/

/-- The number of a language in a list of numbers by language, which leaves out zeros. -/
def tally (entries : List (Language × Nat)) (language : Language) : Nat :=
  (entries.lookup language).getD 0

theorem tally_filter (measure : Language → Nat) (languages : List Language) (language : Language) :
    tally ((languages.map fun language ↦ (language, measure language)).filter (·.2 ≠ 0)) language
      = if language ∈ languages then measure language else 0 := by
  induction languages with
  | nil => rfl
  | cons other languages ih =>
    by_cases hzero : measure other = 0
    · rw [List.map_cons, List.filter_cons_of_neg (by simpa using hzero), ih]
      by_cases hother : language = other <;> simp_all
    · rw [List.map_cons, List.filter_cons_of_pos (by simpa using hzero), tally, List.lookup_cons]
      by_cases hother : language = other
      · simp [hother]
      · rw [beq_false_of_ne hother]
        simpa [hother, tally] using ih

theorem tally_scores (code : Text) (language : Language) :
    tally (scores code) language = language.score code := by
  rw [scores, tally_filter (·.score code), if_pos language.mem_all]

theorem tally_weights (code : Text) (language : Language) :
    tally (weights code) language = language.weight code := by
  have hmem : language ∈ byTrust := by cases language <;> decide
  rw [weights, tally_filter (·.weight code), if_pos hmem]

theorem mem_languages_ofScores {code : Text} :
    language ∈ (MixedReport.ofScores (scores code)).languages ↔ language.score code ≠ 0 := by
  simp [MixedReport.ofScores, scores, mem_all]

theorem length_scores (code : Text) : (scores code).length = all.countP (·.score code ≠ 0) := by
  rw [scores, List.filter_map, List.length_map, List.countP_eq_length_filter]
  rfl

/-- A language that was found is found among other lines. -/
theorem score_ne_zero_amid_lines (h : language.score code ≠ 0) (pre post : Text) :
    language.score (pre ++ '\n' :: code ++ '\n' :: post) ≠ 0 := by
  have hle := language.score_le_amid_lines pre code post
  omega

theorem length_scores_le_amid_lines (pre code post : Text) :
    (scores code).length ≤ (scores (pre ++ '\n' :: code ++ '\n' :: post)).length := by
  rw [length_scores, length_scores]
  apply List.countP_mono_left
  intro language _ h
  exact decide_eq_true (score_ne_zero_amid_lines (of_decide_eq_true h) pre post)

/-- Lines around a program take no evidence away: no language loses in score or weight, and if the
program shows traces of several languages, all of them are reported with the lines around it. -/
theorem evidence_amid_lines (pre code post : Text) :
    let extended := pre ++ '\n' :: code ++ '\n' :: post
    (∀ language, tally (scores code) language ≤ tally (scores extended) language)
      ∧ (∀ language, tally (weights code) language ≤ tally (weights extended) language)
      ∧ ((MixedReport.ofCode code).detected →
        (MixedReport.ofCode extended).detected
          ∧ (MixedReport.ofCode code).languages ⊆ (MixedReport.ofCode extended).languages) := by
  intro extended
  refine ⟨fun language ↦ ?_, fun language ↦ ?_, fun hdetected ↦ ?_⟩
  · rw [tally_scores, tally_scores]
    exact language.score_le_amid_lines pre code post
  · rw [tally_weights, tally_weights]
    exact language.weight_le_amid_lines pre code post
  · obtain ⟨hreport, hvoid⟩ := MixedReport.ofCode_of_detected hdetected
    have hextended : MixedReport.ofCode extended = .ofScores (scores extended) := by
      have hvoid' : Text.isVoid extended = false := by simp_all [extended, Text.isVoid]
      rw [MixedReport.ofCode, hvoid', if_neg Bool.false_ne_true]
    rw [hreport] at hdetected ⊢
    rw [hextended]
    constructor
    · have hseveral : 1 < (scores code).length := of_decide_eq_true hdetected
      exact decide_eq_true (Nat.lt_of_lt_of_le hseveral (length_scores_le_amid_lines pre code post))
    · intro language hlanguage
      rw [mem_languages_ofScores] at hlanguage ⊢
      exact score_ne_zero_amid_lines hlanguage pre post

/-- The line before ends in a letter, and still the word starts where it did. -/
theorem evidence_amid_lines_two_languages :
    (MixedReport.ofCode "print(x) := y").detected
      ∧ (MixedReport.ofCode ("re" ++ '\n' :: "print(x) := y" ++ '\n' :: "z")).detected :=
  have hdetected : (MixedReport.ofCode "print(x) := y").detected := by decide +kernel
  ⟨hdetected, ((evidence_amid_lines "re" "print(x) := y" "z").2.2 hdetected).1⟩

end Language

end Recast
