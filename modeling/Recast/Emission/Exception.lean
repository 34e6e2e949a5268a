import Recast.Emission.Basic

/-!
# Exceptions
-/

namespace Recast.Emission

/-- The types that stand for any error. -/
def isGenericError (type : Text) : Bool :=
  let generic : List Text :=
    ["Exception", "Error", "std::exception", "StandardError", "\\Exception"]
  generic.contains type

/-- The type under which any error is caught. -/
def catchType? : Language → Option Text
  | .python | .java | .csharp | .php => some "Exception"
  | .cpp => some "std::exception"
  | .ruby => some "StandardError"
  | _ => none

/-- The type of an error that has none of its own. -/
def raiseType? : Language → Option Text
  | .python | .csharp | .php => some "Exception"
  | .javascript | .typescript => some "Error"
  | .java => some "RuntimeException"
  | .cpp => some "std::runtime_error"
  | .ruby => some "RuntimeError"
  | .go | .rust => none

def tryBlock (target : Profile) : Emission :=
  if target.language = .ruby then { text := "begin" } else { text := target.block "try" }

/-- The wording of a catch clause for a type, unless any error is caught, and a name, unless none
is bound.  `bound` is the name for a language that always binds one. -/
def catchText (context : Context) (closes : Bool) (type? var? : Option Text) (bound : Text) :
    Except Fault Text := do
  let target := context.target
  match target.language with
  | .python =>
    if type?.isNone && var?.isNone then return "except:"
    let type ← match type? with
      | some type => pure type
      | none => wording .catchClause target (catchType? target.language)
    return "except " ++ type ++ Text.around " as " var? [] ++ ":"
  | .ruby =>
    return "rescue" ++ Text.around " " type? [] ++ Text.around " => " var? []
  | .javascript | .typescript =>
    return closing context closes ++ "catch (" ++ bound ++ ")" ++ [' ', '{']
  | _ =>
    let type ← match type? with
      | some type => pure type
      | none => wording .catchClause target (catchType? target.language)
    if target.language = .cpp then
      return closing context closes ++ "catch (const " ++ type ++ "& " ++ bound ++ ")" ++ [' ', '{']
    return closing context closes ++ "catch (" ++ type ++ " " ++ target.variableName bound ++ ")"
      ++ [' ', '{']

/-- A catch clause; the context keeps the name that it binds. -/
def catchClause (context : Context) (closes : Bool) (excType excVar : Option Text) :
    Except Fault (Emission × Context) := do
  let type? := filled (excType.filter fun type ↦ !(isGenericError type || type == "..."))
  let var? := filled excVar
  let context := { context with catchVar := var?.getD context.catchVar }
  return ({ text := ← catchText context closes type? var? context.catchVar }, context)

def finallyBlock (context : Context) (closes : Bool) : Emission :=
  if context.target.language = .ruby then { text := "ensure" }
  else { text := closing context closes ++ context.target.block "finally" }

/-- What a language without exceptions panics with. -/
def panicPayload (context : Context) (error value message : Option Text) : Text :=
  match filled message, filled value, filled error with
  | some message, _, _ => message
  | none, some value, _ => value
  | none, none, some error => "\"" ++ error ++ "\""
  | none, none, none => context.catchVar

/-- The wording for an error of a type with a message. -/
def raiseText (target : Language) (error message : Text) : Text :=
  match target with
  | .python => "raise " ++ error ++ "(" ++ message ++ ")"
  | .ruby => if message.isEmpty then "raise " ++ error else "raise " ++ error ++ ", " ++ message
  | .cpp => "throw " ++ error ++ "(" ++ message ++ ")"
  | _ => "throw new " ++ error ++ "(" ++ message ++ ")"

/-- Whether an error type is replaced by the target's own. -/
def isReplacedError (target : Language) (error : Text) : Bool :=
  isGenericError error || error == "RuntimeError" && target ≠ .python

def raise (context : Context) (error value message : Option Text) : Except Fault Emission := do
  let target := context.target
  match target.language with
  | .go => return { text := "panic(" ++ panicPayload context error value message ++ ")" }
  | .rust =>
    let payload := panicPayload context error value message
    if Text.startsWith payload ['"'] then return { text := "panic!(" ++ payload ++ ")" }
    return { text := "panic!(" ++ ['"', '{', '}', '"'] ++ ", " ++ payload ++ ")" }
  | language =>
    let keyword : Text := if language = .python || language = .ruby then "raise" else "throw"
    match error, value, message with
    | none, none, none =>
      match language with
      | .python | .ruby | .cpp => return { text := keyword }
      | _ => return { text := keyword ++ " " ++ target.variableName context.catchVar }
    | _, some value, _ => return { text := keyword ++ " " ++ target.variableName value }
    | error, none, message =>
      let error ← match error.filter (!isReplacedError language ·) with
        | some error => pure error
        | none => wording .raise target (raiseType? language)
      return { text := raiseText language error (message.getD []) }

end Recast.Emission
