import Recast.Delivery.Event
import Recast.Diff
import Recast.Settings.Basic
import Recast.Transformation

/-!
# Requests

What can be asked of a session, and the answers.  The settings bound the texts of a request; a
request whose texts are within the bound is always answered.
-/

namespace Recast

/-- A request. -/
inductive Request where
  /-- Recast a program; the target may be left to the settings and the source to detection. -/
  | transform (code : Text) (source target : Option Text) (stream : Bool)
  | detect (code : Text)
  | detectMixed (code : Text)
  /-- Outline a program, whose language may be left to detection. -/
  | outline (code : Text) (language : Option Text)
  | compare (before after : Text)
  | listLanguages
  deriving DecidableEq, Repr

namespace Request

/-- The texts that a request brings. -/
def texts : Request → List Text
  | transform code .. | detect code | detectMixed code | outline code _ => [code]
  | compare before after => [before, after]
  | listLanguages => []

end Request

/-- The answer to a request. -/
inductive Reply where
  /-- A transformation, with its outline or without, and its delivery if that was asked for. -/
  | transformation (transformation : Transformation) (withOutline : Bool)
    (events? : Option (List Event))
  | detected (language : Language)
  | mixed (report : MixedReport)
  /-- An outline, the language that it was made for as it was named, and how many nodes it has. -/
  | outlined (language : Text) (nodes : List Node) (size : Nat)
  /-- A comparison, and how many of its lines met each fate. -/
  | compared (differences : List Difference) (counts : ChangeCounts)
  /-- The profiles of the languages, each with the languages into which it can be recast, and the
  default target. -/
  | languages (languages : List (Profile × List Language)) (defaultTarget : Language)

/-- Why a request is not answered. -/
inductive RequestError where
  | tooLong (length : Nat) (limit : Int)
  | delivery (error : DeliveryError)
  deriving DecidableEq, Repr

/-- The wording of the failure. -/
def RequestError.message : RequestError → Text
  | tooLong length limit =>
    "Input is " ++ Text.ofNat length ++ " characters; the limit is " ++ Text.ofInt limit
  | delivery error => error.message

namespace Settings

/-- Refuses the first text that is too long. -/
def checkLengths (settings : Settings) : List Text → Except RequestError Unit
  | [] => .ok ()
  | t :: others =>
    if settings.maxInput < t.length then .error (.tooLong t.length settings.maxInput)
    else checkLengths settings others

/-- The delivery of a text in pieces, if it is asked for. -/
def deliver? (settings : Settings) (stream : Bool) (t : Text) :
    Except RequestError (Option (List Event)) :=
  if stream then
    match Event.ofText settings.chunkSize t with
    | .ok events => .ok (some events)
    | .error error => .error (.delivery error)
  else .ok none

/-- The target that a request names, or else the default. -/
def targetOr (settings : Settings) : Option Text → Text
  | none | some [] => settings.defaultTarget.name
  | some target => target

/-- The languages into which a language can be recast, in the order in which they are listed. -/
def targetsOf (source : Language) : List Language :=
  Language.all.filter fun target ↦ target ≠ source && source.canRecast target

/-- The language that a request names, or else the one that is detected. -/
def languageOr (code : Text) : Option Text → Text
  | none | some [] => (Language.detect code).name
  | some language =>
    if Text.lower language == "auto" then (Language.detect code).name else language

/-- Answers a request whose texts are not too long. -/
def answerWithin (settings : Settings) : Request → Except RequestError Reply
  | .transform code source target stream => do
    let transformation := Transformation.ofCode code source (some (settings.targetOr target))
    let events? ← settings.deliver? stream transformation.code
    return .transformation transformation settings.includeOutline events?
  | .detect code => .ok (.detected (Language.detect code))
  | .detectMixed code => .ok (.mixed (MixedReport.ofCode code))
  | .outline code language =>
    let language := languageOr code language
    let nodes := Outline.ofCode (Language.resolve (some language)).profile code
    .ok (.outlined language nodes (Outline.size nodes))
  | .compare before after =>
    let differences := compareTexts before after
    .ok (.compared differences (ChangeCounts.ofDifferences differences))
  | .listLanguages =>
    .ok (.languages (Language.all.map fun language ↦ (language.profile, targetsOf language))
      settings.defaultTarget)

/-- Answers a request. -/
def answer (settings : Settings) (request : Request) : Except RequestError Reply := do
  settings.checkLengths request.texts
  settings.answerWithin request

end Settings

end Recast
