import Recast.Language.Logic
import Recast.Language.Profile
import Recast.Proofs.Pattern.Outcomes
import Recast.Proofs.Text.Code
import Recast.Proofs.Text.Trait

/-!
# What all languages have in common

The words and marks that a language contributes to a line are a matter of one line.
-/

namespace Recast

theorem Language.mem_all (language : Language) : language ∈ all := by
  cases language <;> decide

@[simp]
theorem Language.language_profile (language : Language) :
    language.profile.language = language := by
  cases language <;> rfl

/-- The words of a profile that go into wordings hold no line feed. -/
structure Profile.IsSingleLine (profile : Profile) : Prop where
  elseIfKeyword : '\n' ∉ profile.elseIfKeyword
  trueLiteral : '\n' ∉ profile.trueLiteral
  falseLiteral : '\n' ∉ profile.falseLiteral
  nullLiteral : '\n' ∉ profile.nullLiteral
  lineComment : '\n' ∉ profile.lineComment
  terminator : ∀ terminator ∈ profile.terminator, '\n' ∉ terminator
  blockClose : ∀ closer ∈ profile.blockClose, '\n' ∉ closer
  indentUnit : '\n' ∉ profile.indentUnit
  topLevel : ∀ topLevel ∈ profile.topLevel, '\n' ∉ topLevel.declaration

theorem Language.isSingleLine_profile (language : Language) : language.profile.IsSingleLine := by
  constructor <;> cases language <;> decide

/-- The words of a profile that go into wordings leave a trait to the line that they go into. -/
structure Profile.HasTrait (trait : Trait) (profile : Profile) : Prop where
  elseIfKeyword : trait.Holds profile.elseIfKeyword
  trueLiteral : trait.Joins profile.trueLiteral
  falseLiteral : trait.Joins profile.falseLiteral
  nullLiteral : trait.Joins profile.nullLiteral
  terminator : ∀ terminator ∈ profile.terminator, trait.Joins terminator
  blockClose : ∀ closer ∈ profile.blockClose, trait.Holds closer

theorem Profile.IsSingleLine.hasTrait {profile : Profile} (h : profile.IsSingleLine) :
    profile.HasTrait .oneLine where
  elseIfKeyword := h.elseIfKeyword
  trueLiteral := Trait.joins_oneLine h.trueLiteral
  falseLiteral := Trait.joins_oneLine h.falseLiteral
  nullLiteral := Trait.joins_oneLine h.nullLiteral
  terminator terminator hmem := Trait.joins_oneLine (h.terminator terminator hmem)
  blockClose := h.blockClose

theorem Language.hasTrait_profile (trait : Trait) (language : Language) :
    language.profile.HasTrait trait where
  elseIfKeyword := Trait.holds_of_plain (by cases language <;> decide)
  trueLiteral := Trait.joins_of_plain (by cases language <;> decide) (by cases language <;> decide)
  falseLiteral := Trait.joins_of_plain (by cases language <;> decide) (by cases language <;> decide)
  nullLiteral := Trait.joins_of_plain (by cases language <;> decide) (by cases language <;> decide)
  terminator terminator hmem := by
    have hplain : ∀ t ∈ language.profile.terminator, t.all isPlain ∧ t ≠ [] := by
      cases language <;> decide
    exact Trait.joins_of_plain (hplain terminator hmem).1 (hplain terminator hmem).2
  blockClose closer hmem := by
    have hplain : ∀ t ∈ language.profile.blockClose, t.all isPlain := by
      cases language <;> decide
    exact Trait.holds_of_plain (hplain closer hmem)

/-! ## Marks -/

/-- The characters that the marks of all languages are made of. -/
def markChars : Text :=
  ['\\', '"', '\'', '`', '/', '#']

theorem Language.isNeutral_of_notMem (language : Language) {c : Char} (h : c ∉ markChars) :
    language.profile.markers.isNeutral c := by
  rw [Markers.isNeutral_iff]
  simp only [markChars, List.mem_cons, not_or] at h
  cases language <;> simp [profile, curlyProfile, Text.allQuotes, h]

theorem notMem_markChars_of_isBlank {c : Char} (h : isBlank c) : c ∉ markChars := by
  have hmarks : markChars.all (!isBlank ·) := by decide
  intro hc
  have hblank := List.all_eq_true.1 hmarks c hc
  simp [h] at hblank

theorem Language.isNeutral_of_isBlank (language : Language) {c : Char} (h : isBlank c) :
    language.profile.markers.isNeutral c :=
  language.isNeutral_of_notMem (notMem_markChars_of_isBlank h)

theorem Language.isNeutral_of_eq_or_isBlank (language : Language) {mark c : Char}
    (hmark : mark ∉ markChars) (h : c == mark || isBlank c) :
    language.profile.markers.isNeutral c := by
  rcases Bool.or_eq_true_iff.1 h with h | h
  · rw [eq_of_beq h]
    exact language.isNeutral_of_notMem hmark
  · exact language.isNeutral_of_isBlank h

/-- Whether no character of the text is part of a mark. -/
def isUnmarked (t : Text) : Bool :=
  t.all (!markChars.contains ·)

theorem isUnmarked_iff {t : Text} : isUnmarked t ↔ ∀ c ∈ t, c ∉ markChars := by
  simp [isUnmarked]

theorem isUnmarked_append {t u : Text} : isUnmarked (t ++ u) = (isUnmarked t && isUnmarked u) :=
  List.all_append

/-! ## Logical operators -/

namespace Logic

theorem Operator.newline_notMem_toWord (op : Operator) {t : Text} (hword : '\n' ∉ op.word)
    (h : '\n' ∉ t) : '\n' ∉ op.toWord t := by
  refine Pattern.notMem_replace_const (Pattern.notMem_replace h ?_) (by simp [hword])
  intro before stretch reading hstretch hread
  have hindent : '\n' ∉ reading.get .indent :=
    fun hc ↦ hstretch (Pattern.mem_of_mem_get hread hc)
  simp [hindent, hword]

theorem newline_notMem_toWords {t : Text} (h : '\n' ∉ t) : '\n' ∉ toWords t := by
  have hand := conjunction.newline_notMem_toWord (by decide) h
  exact disjunction.newline_notMem_toWord (by decide) hand

theorem newline_notMem_toSymbols {t : Text} (h : '\n' ∉ t) : '\n' ∉ toSymbols t := by
  have hand : '\n' ∉ conjunction.spaced.replace (fun _ ↦ " " ++ conjunction.symbol ++ " ") t :=
    Pattern.notMem_replace_const h (by decide)
  exact Pattern.notMem_replace_const hand (by decide)

end Logic

end Recast
