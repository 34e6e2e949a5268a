import Recast.Language.Evidence

/-!
# Detection

The language of a program is the one whose clues weigh most.  A program is mixed when the
fingerprints of several languages are found in it.
-/

namespace Recast

namespace Language

/-- The summed weight of the clues found in the program. -/
def weight (language : Language) (code : Text) : Nat :=
  total Prod.snd (language.clues.filter fun clue ↦ clue.1.occurs code)

/-- The number of fingerprints found in the program. -/
def score (language : Language) (code : Text) : Nat :=
  language.fingerprints.countP (·.occurs code)

/-- The languages from the one whose clues are trusted most to the one trusted least. -/
def byTrust : List Language :=
  [python, go, rust, cpp, java, csharp, typescript, php, ruby, javascript]

/-- The languages with some weight, by trust, and their weights. -/
def weights (code : Text) : List (Language × Nat) :=
  (byTrust.map fun language ↦ (language, language.weight code)).filter (·.2 ≠ 0)

/-- The languages with some score, as listed, and their scores. -/
def scores (code : Text) : List (Language × Nat) :=
  (all.map fun language ↦ (language, language.score code)).filter (·.2 ≠ 0)

/-- Of the weighed languages the first with the greatest weight. -/
def heaviest : List (Language × Nat) → Option (Language × Nat)
  | [] => none
  | entry :: others =>
    match heaviest others with
    | none => some entry
    | some best => if entry.2 < best.2 then some best else some entry

/-- The language of the program, or the fallback when nothing speaks for any. -/
def detect (code : Text) : Language :=
  if Text.isVoid code then fallback
  else ((heaviest (weights code)).map Prod.fst).getD fallback

end Language

/-- How sure a report is of its languages. -/
inductive Confidence where
  | none
  | mixed
  | single
  deriving DecidableEq, Repr

/-- Confidence in tenths of certainty. -/
def Confidence.tenths : Confidence → Nat
  | none => 0
  | mixed => 5
  | single => 9

/-- Which languages a program shows traces of. -/
structure MixedReport where
  /-- More than one language was found. -/
  detected : Bool
  /-- The languages found, those with the higher score first. -/
  languages : List Language
  confidence : Confidence
  /-- The score of each language found, as listed. -/
  scores : List (Language × Nat)
  deriving DecidableEq, Repr

/-- The report on a list of scored languages; of equal scores the one listed first comes first. -/
def MixedReport.ofScores (scores : List (Language × Nat)) : MixedReport where
  detected := scores.length > 1
  languages := (scores.mergeSort fun a b ↦ b.2 ≤ a.2).map Prod.fst
  confidence := match scores with
    | [] => .none
    | [_] => .single
    | _ => .mixed
  scores := scores

/-- The report on a program; a blank one shows no language. -/
def MixedReport.ofCode (code : Text) : MixedReport :=
  if Text.isVoid code then ofScores [] else ofScores (Language.scores code)

end Recast
