import Recast.Language.Detection
import Recast.Normalization.Correction

/-!
# Normalization

A program is tidied and then corrected, one kind of mistake after another.  The result names the
corrections that changed something, and the lines that they changed.
-/

namespace Recast

/-- A normalized program. -/
structure Normalization where
  lines : List Text
  warnings : List Text
  /-- The corrections that changed something, in order. -/
  corrections : List Correction
  /-- The report on the program as it was given. -/
  mixed : MixedReport

namespace Normalization

/-- The normalized program as one text. -/
def text (normalization : Normalization) : Text :=
  Text.unlines normalization.lines

/-- The numbers, from `number` on, of the lines that differ. -/
def changedFrom : (number : Nat) → List Text → List Text → List Nat
  | number, old :: olds, new :: news =>
    if old == new then changedFrom (number + 1) olds news
    else number :: changedFrom (number + 1) olds news
  | _, _, _ => []

/-- Makes one correction and records it if it changed anything. -/
def correct (source? target? : Option Profile) (normalization : Normalization)
    (correction : Correction) : Normalization :=
  let corrected := correction.apply source? target? normalization.lines
  match changedFrom 1 normalization.lines corrected with
  | [] => normalization
  | changed =>
    { normalization with
      lines := corrected
      corrections := normalization.corrections ++ [correction]
      warnings := normalization.warnings ++
        ["Normalizing: " ++ correction.description ++ " (lines "
          ++ Text.joinWith ", " (changed.map Text.ofNat) ++ ")"] }

/-- The program before any correction. -/
def start (source? : Option Profile) (code : Text) : Normalization :=
  let mixed := MixedReport.ofCode code
  { lines := tidyLines source? code
    warnings :=
      if mixed.detected then
        ["Mixed languages detected: " ++ Text.joinWith ", " (mixed.languages.map Language.name)]
      else []
    corrections := []
    mixed := mixed }

/-- Normalizes a program, given its language and the language it is recast into, as far as they
are known. -/
def ofCode (source? target? : Option Language) (code : Text) : Normalization :=
  let sourceProfile? := source?.map Language.profile
  let targetProfile? := target?.map Language.profile
  Correction.all.foldl (correct sourceProfile? targetProfile?) (start sourceProfile? code)

end Normalization

end Recast
