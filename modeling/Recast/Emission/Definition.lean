import Recast.Emission.Basic

/-!
# Functions and classes
-/

namespace Recast.Emission

/-- The head of a function. -/
def functionHead? (name params : Text) : Language → Option Text
  | .python | .ruby => some ("def " ++ name ++ "(" ++ params ++ ")")
  | .javascript | .typescript | .php => some ("function " ++ name ++ "(" ++ params ++ ")")
  | .java => some ("public static Object " ++ name ++ "(" ++ params ++ ")")
  | .cpp => some ("void " ++ name ++ "(" ++ params ++ ")")
  | .csharp => some ("public static object " ++ name ++ "(" ++ params ++ ")")
  | .go => some ("func " ++ name ++ "(" ++ params ++ ")")
  | .rust => some ("fn " ++ name ++ "(" ++ params ++ ")")

/-- A parameter, with a placeholder where the language wants its type. -/
def typedParam (target : Language) (name : Text) : Text :=
  match target with
  | .java => "Object " ++ name
  | .csharp => "object " ++ name
  | .cpp => "auto " ++ name
  | .go => name ++ " interface" ++ ['{', '}']
  | .php => '$' :: name
  | _ => name

/-- Whether parameters may have default values. -/
def allowsDefaults : Language → Bool
  | .java | .go | .rust => false
  | _ => true

/-- A parameter in the target language, and a warning if its default value was dropped. -/
def renderParam (target : Profile) (param : Text) : Text × List Text :=
  match Text.cut " = " param with
  | (name, none) => (typedParam target.language name, [])
  | (name, some value) =>
    if allowsDefaults target.language then
      (typedParam target.language name ++ " = " ++ value, [])
    else
      (typedParam target.language name,
       [target.displayName ++ " has no default parameter values, dropped default for '" ++ name
         ++ "'"])

/-- The parameters without the receiver, which only Python writes. -/
def ownParams (target : Language) : List Text → List Text
  | first :: others =>
    if target ≠ .python && (first == "self" || first == "cls") then others else first :: others
  | [] => []

def function (target : Profile) (name : Text) (params : List Text) : Except Fault Emission := do
  let rendered := (ownParams target.language params).map (renderParam target)
  let list := Text.joinWith ", " (rendered.map Prod.fst)
  let head ← wording .function target (functionHead? name list target.language)
  let head := if target.language = .ruby && list.isEmpty then "def " ++ name else head
  return { text := target.block head, warnings := rendered.flatMap Prod.snd }

/-- The head of a class, with its base if it has one. -/
def classHead? (name : Text) (base? : Option Text) : Language → Option Text
  | .python =>
    some ("class " ++ name ++ Text.around "(" base? ")")
  | .javascript | .typescript | .php =>
    some ("class " ++ name ++ Text.around " extends " base? [])
  | .java => some ("public class " ++ name ++ Text.around " extends " base? [])
  | .cpp => some ("class " ++ name ++ Text.around " : public " base? [])
  | .csharp => some ("public class " ++ name ++ Text.around " : " base? [])
  | .ruby => some ("class " ++ name ++ Text.around " < " base? [])
  | .go | .rust => none

/-- The head of the structure that stands for a class. -/
def structHead? (name : Text) : Language → Option Text
  | .go => some ("type " ++ name ++ " struct")
  | .rust => some ("struct " ++ name)
  | _ => none

def classDef (target : Profile) (name : Text) (base : Option Text) : Except Fault Emission := do
  let base? := filled base
  match structHead? name target.language with
  | some head =>
    let dropped : List Text := match base? with
      | some base =>
        [target.displayName ++ " has no inheritance, dropped base class '" ++ base ++ "'"]
      | none => []
    return {
      text := target.block head
      warnings := (target.displayName ++ " has no classes, using struct instead") :: dropped }
  | none =>
    let head ← wording .classDef target (classHead? name base? target.language)
    return { text := target.block head }

end Recast.Emission
