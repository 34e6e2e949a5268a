import Recast.Emission.All
import Recast.Grammar.All
import Recast.Recasting.Token

/-!
# Rules

A line is recast by rules, applied one after another.  A structural rule recognizes constructs
of one category and words them in the target language; a token rule exchanges tokens.
-/

namespace Recast

/-- A step of the recasting of a line. -/
inductive Rule where
  | structural (category : Category)
  | literals
  | operators
  | endings
  deriving DecidableEq, Repr

/-- A line after a rule. -/
structure Outcome where
  text : Text
  warnings : List Text := []
  /-- What was recognized in the line. -/
  construct? : Option Construct := none

namespace Rule

/-- All rules, in the order in which they are applied. -/
def all : List Rule :=
  Category.all.map structural ++ [literals, operators, endings]

/-- The name under which a rule is reported. -/
def name : Rule → Text
  | structural category => category.name
  | literals => "booleans"
  | operators => "operators"
  | endings => "endings"

/-- The rule with the given name. -/
def ofName? (t : Text) : Option Rule :=
  all.find? (·.name == t)

/-- The first construct that one of the recognizers finds in the line. -/
def firstConstruct (source : Language) (line : Text) :
    List Recognizer → Except Fault (Option Construct)
  | [] => .ok none
  | recognizer :: others => do
    match ← recognizer.recognize source line with
    | some construct => return some construct
    | none => firstConstruct source line others

/-- Puts the wording of a construct back into its line. -/
def place (construct : Construct) (line wording : Text) : Text :=
  match construct.span with
  | some (start, stop) => line.take start ++ wording ++ line.drop stop
  | none => if wording.isEmpty then [] else construct.indent ++ wording

/-- Words a construct in the target language, or leaves the line if the target lacks its kind. -/
def express (context : Context) (construct : Construct) (line : Text) :
    Except Fault (Outcome × Context) := do
  match construct.kind.lack? context.target.language with
  | some _ =>
    return ({ text := line
              warnings := [lackWarning context.target construct.kind.name]
              construct? := some construct }, context)
  | none =>
    let (emission, context) ← construct.form.emit context construct.closes
    return ({ text := place construct line emission.text
              warnings := emission.warnings
              construct? := some construct }, context)

/-- Recognizes a construct of the category and words it.  A header is no assignment. -/
def restate (category : Category) (context : Context) (line : Text) :
    Except Fault (Outcome × Context) := do
  if category = .assignments && isHeaderLine line then return ({ text := line }, context)
  let source := context.source.language
  match ← firstConstruct source line (source.recognizers category) with
  | some construct => express context construct line
  | none => return ({ text := line }, context)

/-- Applies the rule to a line. -/
def apply (rule : Rule) (context : Context) (line : Text) : Except Fault (Outcome × Context) := do
  match rule with
  | structural .assignments =>
    let (outcome, context) ← restate .assignments context line
    return ({ outcome with text := Token.identifiers context outcome.text }, context)
  | structural category => restate category context line
  | literals => return ({ text := Token.literals context line }, context)
  | operators => return ({ text := Token.operators context line }, context)
  | endings => return ({ text := Token.endings context line }, context)

/-- Whether the rule does anything between two languages. -/
def appliesTo (rule : Rule) (source target : Language) : Bool :=
  source ≠ target && match rule with
    | structural .assignments => true
    | structural category => !(source.recognizers category).isEmpty
    | _ => true

/-- The rules between two languages, in order. -/
def between (source target : Language) : List Rule :=
  all.filter (·.appliesTo source target)

end Rule

/-- Whether programs in the one language can be recast into the other. -/
def Language.canRecast (source target : Language) : Bool :=
  source = target || Category.all.any fun category ↦ !(source.recognizers category).isEmpty

end Recast
