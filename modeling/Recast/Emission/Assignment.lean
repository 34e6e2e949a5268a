import Recast.Emission.Basic

/-!
# Assignments
-/

namespace Recast.Emission

/-- The declaration of a variable with its first value. -/
def declarationText? (name value : Text) : Language → Option Text
  | .python | .ruby => some (name ++ " = " ++ value)
  | .javascript | .typescript => some ("let " ++ name ++ " = " ++ value)
  | .java => some ("Object " ++ name ++ " = " ++ value)
  | .cpp => some ("auto " ++ name ++ " = " ++ value)
  | .csharp => some ("var " ++ name ++ " = " ++ value)
  | .go => some (name ++ " := " ++ value)
  | .rust => some ("let mut " ++ name ++ " = " ++ value)
  | .php => some ("$" ++ name ++ " = " ++ value)

/-- Gives a variable a value; the first time it is also declared. -/
def assign (context : Context) (name value : Text) : Except Fault (Emission × Context) := do
  let target := context.target
  if context.declared.contains name then
    return ({ text := terminate target (target.variableName name ++ " = " ++ value) }, context)
  let text ← wording .assign target (declarationText? name value target.language)
  return ({ text := terminate target text }, context.declare name)

end Recast.Emission
