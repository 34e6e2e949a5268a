import Recast.Emission.Assignment
import Recast.Emission.Definition
import Recast.Emission.Exception
import Recast.Emission.Import
import Recast.Emission.Loop
import Recast.Emission.Output

/-!
# The wording of every construct

`Construct.emit` words a construct in the target language.  Some kinds have no equivalent there;
`Kind.lack?` says so, and the line is then left as it is.
-/

namespace Recast

/-- Why the target language cannot express a kind of construct. -/
def Kind.lack? : Kind → Language → Option Text
  | .forCounted, .python => some "Python has no counted for loop; line left unchanged"
  | .forCounted, .ruby => some "Ruby has no counted for loop; line left unchanged"
  | .forCounted, .rust => some "Rust has no counted for loop; line left unchanged"
  | .tryBlock, .go | .catchClause, .go | .finallyBlock, .go =>
    some "Go has no try/catch; line left unchanged"
  | .tryBlock, .rust | .catchClause, .rust | .finallyBlock, .rust =>
    some "Rust has no try/catch; line left unchanged"
  | .finallyBlock, .cpp => some "C++ has no finally block; line left unchanged"
  | _, _ => none

/-- The warning that the target language has no equivalent for what goes by a name. -/
def lackWarning (target : Profile) (name : Text) : Text :=
  match (Kind.ofName? name).bind (·.lack? target.language) with
  | some warning => warning
  | none =>
    "No " ++ target.displayName ++ " equivalent for "
      ++ name.map (fun c ↦ if c == '_' then ' ' else c) ++ "; line left unchanged"

/-- The wording of a form in the target language, and the context after it. -/
def Form.emit (context : Context) (closes : Bool) (form : Form) :
    Except Fault (Emission × Context) := do
  let target := context.target
  match form with
  | .function name params => return (← Emission.function target name params, context)
  | .classDef name base => return (← Emission.classDef target name base, context)
  | .ifThen cond => return ({ text := target.conditionBlock "if" cond }, context)
  | .elseIf cond =>
    return ({ text := closing context closes ++ target.conditionBlock target.elseIfKeyword cond },
      context)
  | .elseThen => return ({ text := closing context closes ++ target.block "else" }, context)
  | .blockEnd => return ({ text := target.blockClose.getD ['}'] }, context)
  | .pass =>
    if target.language = .python then return ({ text := "pass" }, context)
    return ({ text := target.lineComment ++ " pass" }, context)
  | .forRange var start stop step =>
    return (← Emission.forRange target var start stop step, context)
  | .forEach var iterable => return (← Emission.forEach target var iterable, context)
  | .forCounted initial test update =>
    return (Emission.forCounted target initial test update, context)
  | .whileLoop cond => return (Emission.whileLoop target cond, context)
  | .tryBlock => return (Emission.tryBlock target, context)
  | .catchClause excType excVar => Emission.catchClause context closes excType excVar
  | .finallyBlock => return (Emission.finallyBlock context closes, context)
  | .raise error value message => return (← Emission.raise context error value message, context)
  | .print args dropped => return (Emission.print target args dropped, context)
  | .importModule module localName =>
    return (← Emission.importModule target module localName, context)
  | .importNames module names => return (← Emission.importNames target module names, context)
  | .prologue => return ({ text := [] }, context)
  | .assign name value => Emission.assign context name value

end Recast
