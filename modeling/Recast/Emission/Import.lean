import Recast.Emission.Basic

/-!
# Imports
-/

namespace Recast.Emission

open Pattern

/-- What separates the components of a module path. -/
def pathSeparator? : Language → Option Text
  | .python | .java | .csharp => some "."
  | .javascript | .typescript | .cpp | .go | .ruby => some "/"
  | .rust => some "::"
  | .php => some "\\"

/-- The file extensions that a module path may end in. -/
def moduleExtensions : List Text :=
  [".php", ".rb", ".js", ".ts", ".h", ".hpp"]

/-- The path without its file extension. -/
def dropExtension (path : Text) : Text :=
  match moduleExtensions.find? (Text.endsWith path ·) with
  | some extension => path.take (path.length - extension.length)
  | none => path

/-- Any separator between the components of a module path. -/
def anySeparator : Pattern :=
  anyOf ["::", '\\', '/', '.']

/-- The components of a module path of any language. -/
def pathComponents (module : Text) : List Text :=
  (anySeparator.split (dropExtension (Text.trim module))).filter (!·.isEmpty)

/-- Whether a module is named by its place relative to the file. -/
def isRelative (module : Text) : Bool :=
  Text.startsWithAny module ["./", "../"]

/-- The module path in the target language. -/
def modulePath (kind : Kind) (target : Profile) (module : Text) : Except Fault Text := do
  let separator ← wording kind target (pathSeparator? target.language)
  let path := Text.joinWith separator (pathComponents module)
  match target.language with
  | .javascript | .typescript => return if isRelative module then "./" ++ path else path
  | _ => return path

/-- The statement that imports a whole module, for the languages that give it no name. -/
def moduleImport? (path : Text) : Language → Option Text
  | .java => some ("import " ++ path ++ ".*;")
  | .cpp => some ("#include <" ++ path ++ ">")
  | .csharp => some ("using " ++ path ++ ";")
  | .go => some ("import \"" ++ path ++ "\"")
  | .rust => some ("use " ++ path ++ ";")
  | .php => some ("require_once '" ++ path ++ "';")
  | .ruby => some ("require '" ++ path ++ "'")
  | .python | .javascript | .typescript => none

/-- What follows the last separator of a path. -/
def lastComponent (separators path : Text) : Text :=
  ((Pattern.split (.char (oneOf separators)) path).getLast?).getD []

def importModule (target : Profile) (module : Text) (localName : Option Text) :
    Except Fault Emission := do
  let path ← modulePath .importModule target module
  match target.language with
  | .python =>
    match (filled localName).filter (· ≠ lastComponent "." path) with
    | some localName => return { text := "import " ++ path ++ " as " ++ localName }
    | none => return { text := "import " ++ path }
  | .javascript | .typescript =>
    let name := (filled localName).getD (lastComponent "/." path)
    return { text := "import " ++ name ++ " from '" ++ path ++ "'" }
  | language => return { text := ← wording .importModule target (moduleImport? path language) }

def importNames (target : Profile) (module : Text) (names : List Text) : Except Fault Emission := do
  let path ← modulePath .importNames target module
  let list := Text.joinWith ", " names
  let whole : Except Fault Emission := do
    let whole ← importModule target module none
    return {
      text := whole.text
      warnings := [target.displayName ++ " has no selective import, importing whole module"] }
  match target.language, names with
  | .python, _ => return { text := "from " ++ path ++ " import " ++ list }
  | .javascript, _ | .typescript, _ =>
    return { text := "import " ++ ['{', ' '] ++ list ++ [' ', '}'] ++ " from '" ++ path ++ "'" }
  | .rust, _ => return { text := "use " ++ path ++ "::" ++ ['{'] ++ list ++ ['}', ';'] }
  | .php, _ => return { text := "use " ++ path ++ "\\" ++ ['{'] ++ list ++ ['}', ';'] }
  | .java, [name] =>
    if name.contains ' ' then whole else return { text := "import " ++ path ++ "." ++ name ++ ";" }
  | _, _ => whole

end Recast.Emission
