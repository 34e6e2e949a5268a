import Recast.Settings.File

/-!
# Workspaces

A folder with all that it holds, in which paths are looked up.
-/

namespace Recast

/-- A folder: the files below it with their contents, and the folders below it, by their paths. -/
structure Workspace where
  files : List (Text × Text) := []
  folders : List Text := []

namespace Workspace

/-- The steps of a path. -/
def steps (path : Text) : List Text :=
  Text.splitOn '/' path

/-- The steps that lead on. -/
def properSteps (path : Text) : List Text :=
  (steps path).filter fun step ↦ !step.isEmpty && step != "."

/-- Whether the steps lead to a folder: to the workspace itself, to a folder that is listed, or to
one that holds something. -/
def isFolder (workspace : Workspace) (place : List Text) : Bool :=
  place.isEmpty
    || workspace.folders.any (fun folder ↦ place.isPrefixOf (properSteps folder))
    || workspace.files.any fun (file, _) ↦
      place.length < (properSteps file).length && place.isPrefixOf (properSteps file)

/-- The content of the file to which the steps lead. -/
def content? (workspace : Workspace) (place : List Text) : Option Text :=
  (workspace.files.find? fun (file, _) ↦ properSteps file == place).map Prod.snd

/-- Where a path leads. -/
inductive Place where
  /-- A place in the workspace, by the steps that lead there. -/
  | inside (steps : List Text)
  /-- A folder that holds the workspace. -/
  | above
  deriving DecidableEq

/-- Where the steps lead from a place, if every place on the way is a folder.  Of what is outside,
only the folders that hold the workspace are known. -/
def walk (workspace : Workspace) (place : Place) : List Text → Option Place
  | [] => some place
  | step :: steps =>
    match place with
    | .above =>
      if step.isEmpty || step == "." || step == ".." then walk workspace .above steps else none
    | .inside trail =>
      if !workspace.isFolder trail then none
      else if step.isEmpty || step == "." then walk workspace place steps
      else if step == ".." then
        walk workspace (if trail.isEmpty then .above else .inside trail.dropLast) steps
      else walk workspace (.inside (trail ++ [step])) steps

/-- Where a path leads; the empty path leads nowhere. -/
def place? (workspace : Workspace) (path : Text) : Option Place :=
  if path.isEmpty then none
  else workspace.walk (if path.head? == some '/' then .above else .inside []) (steps path)

/-- What is found at a path. -/
def find? (workspace : Workspace) (path : Text) : Option Found := do
  match ← workspace.place? path with
  | .above => some .folder
  | .inside trail =>
    match workspace.content? trail with
    | some content => some (.file content)
    | none => if workspace.isFolder trail then some .folder else none

/-- Whether two paths lead to the same place. -/
def samePlace (workspace : Workspace) (path other : Text) : Bool :=
  let place := workspace.place? path
  place.isSome && place == workspace.place? other

/-- The workspace with an empty file at the path, if there was none; no path, no file. -/
def withFile? (workspace : Workspace) : Option Text → Workspace
  | none => workspace
  | some path =>
    match workspace.find? path with
    | some _ => workspace
    | none => { workspace with files := workspace.files ++ [(path, [])] }

end Workspace

end Recast
