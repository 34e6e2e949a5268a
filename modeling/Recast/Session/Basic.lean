import Recast.Session.Request

/-!
# Sessions

A session answers requests one after another under settings that can be exchanged in between.
-/

namespace Recast

namespace Session

/-- A step of a session. -/
inductive Step where
  /-- Exchange the settings. -/
  | configure (entries : List (Text × Value))
  /-- Answer a request. -/
  | ask (request : Request)

/-- What a step leads to. -/
inductive Outcome where
  | configured (settings : Settings)
  | unconfigured (errors : List SettingError)
  | answered (reply : Reply)
  | failed (error : RequestError)

/-- Takes a step under the active settings; only settings that can be read become active. -/
def step (settings : Settings) (s : Step) (conversion : Conversion := .lenient) :
    Settings × Outcome :=
  match s with
  | .configure entries =>
    match Settings.ofEntries entries conversion with
    | .ok settings => (settings, .configured settings)
    | .error errors => (settings, .unconfigured errors)
  | .ask request =>
    match settings.answer request with
    | .ok reply => (settings, .answered reply)
    | .error error => (settings, .failed error)

/-- Takes steps one after another. -/
def run (settings : Settings) (steps : List Step) (conversion : Conversion := .lenient) :
    Settings × List Outcome :=
  match steps with
  | [] => (settings, [])
  | s :: steps =>
    let (settings, outcome) := step settings s conversion
    let (settings, outcomes) := run settings steps conversion
    (settings, outcome :: outcomes)

end Session

end Recast
