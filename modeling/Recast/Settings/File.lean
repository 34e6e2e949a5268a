import Recast.Settings.Basic
import Recast.Yaml.Document

/-!
# Settings files

Settings are kept in a YAML document.  A file is refused for the first thing that is wrong with it.
-/

namespace Recast

/-- What is found at a path. -/
inductive Found where
  | file (content : Text)
  | folder

/-- Why a settings file is refused. -/
inductive FileFlaw where
  | missing
  | notFile
  | malformed
  | empty
  | notTable
  | invalid
  deriving DecidableEq, Repr

/-- The wording of a flaw. -/
def FileFlaw.message : FileFlaw → Text
  | missing => "File does not exist"
  | notFile => "Path is not a file"
  | malformed => "YAML parsing failed"
  | empty => "Config file is empty"
  | notTable => "Config must be a YAML dictionary"
  | invalid => "Validation failed"

/-- A settings file that is refused. -/
structure FileError where
  path : Text
  flaw : FileFlaw
  deriving DecidableEq, Repr

/-- The wording of the refusal. -/
def FileError.message (error : FileError) : Text :=
  "Invalid configuration at " ++ error.path ++ ": " ++ error.flaw.message

namespace Settings

/-- The entries of a table whose keys are all texts. -/
def namedEntries? : List (Value × Value) → Option (List (Text × Value))
  | [] => some []
  | (.text key, value) :: entries => (namedEntries? entries).map ((key, value) :: ·)
  | _ => none

/-- Reads settings from the table of a document. -/
def ofTable (entries : List (Value × Value)) : Except FileFlaw Settings :=
  match (namedEntries? entries).map (ofEntries ·) with
  | some (.ok settings) => .ok settings
  | _ => .error .invalid

/-- Reads settings from a document. -/
def ofDocument (content : Text) : Except FileFlaw Settings :=
  match Yaml.document? content with
  | none => .error .malformed
  | some .null => .error .empty
  | some (.table entries) => ofTable entries
  | some _ => .error .notTable

/-- Reads settings from what was found at a path. -/
def ofFound : Option Found → Except FileFlaw Settings
  | none => .error .missing
  | some .folder => .error .notFile
  | some (.file content) => ofDocument content

/-- Reads settings from a path, given what was found there. -/
def ofPath (path : Text) (found? : Option Found) : Except FileError Settings :=
  match ofFound found? with
  | .ok settings => .ok settings
  | .error flaw => .error { path := path, flaw := flaw }

end Settings

end Recast
