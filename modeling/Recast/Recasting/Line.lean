import Recast.Recasting.Rule

/-!
# Recasting a program line by line

Every line goes through all rules; a comment at its end is split off before and comes back with
the target's marker.  The context passes from line to line, so that a name is declared once.
-/

namespace Recast

/-- A line after all rules. -/
structure RecastLine where
  text : Text
  warnings : List Text := []
  /-- The kinds of constructs that were recognized, in order. -/
  kinds : List Kind := []

namespace Construct

/-- The name that a parameter binds. -/
def paramName (param : Text) : Text :=
  (Text.trim (Text.cut " = " param).1).dropWhile ['*', '&', '$'].contains

/-- The names that the header of a function or loop binds. -/
def boundNames (construct : Construct) : List Text :=
  match construct.form with
  | .function _ params => params.map paramName
  | .forRange var .. | .forEach var _ =>
    ((Text.splitOn ',' var).map Text.trim).filter (!·.isEmpty)
  | _ => []

end Construct

namespace RecastLine

/-- Applies one rule to a line under recasting. -/
def step (state : RecastLine × Context) (rule : Rule) :
    Except Fault (RecastLine × Context) := do
  let (line, context) := state
  let (outcome, context) ← rule.apply context line.text
  let warnings := line.warnings ++ outcome.warnings
  match outcome.construct? with
  | some construct =>
    return ({ text := outcome.text, warnings := warnings, kinds := line.kinds ++ [construct.kind] },
      construct.boundNames.foldl Context.declare context)
  | none => return ({ text := outcome.text, warnings := warnings, kinds := line.kinds }, context)

/-- What a comment says, without its marker. -/
def commentBody (source : Profile) (comment : Text) : Text :=
  match source.markers.comments.find? (Text.startsWith comment ·) with
  | some marker => comment.drop marker.length
  | none => comment

/-- Puts the comment back behind the code, or in its place if no code is left. -/
def reattach (context : Context) (indent gap comment text : Text) : Text :=
  let comment := context.target.lineComment ++ commentBody context.source comment
  if Text.isVoid text then indent ++ comment else text ++ Text.orElse gap " " ++ comment

/-- Recasts a line; blank lines and comments stay as they are. -/
def ofLine (rules : List Rule) (context : Context) (line : Text) :
    Except Fault (RecastLine × Context) := do
  let trimmed := Text.trim line
  if trimmed.isEmpty || context.source.isComment trimmed then return ({ text := line }, context)
  let (code, comment) := context.source.markers.splitComment line
  let (recast, context) ← rules.foldlM step ({ text := Text.trimEnd code }, context)
  if comment.isEmpty then return (recast, context)
  return ({ recast with
            text := reattach context (Text.indentation line) (Text.gap code) comment recast.text },
    context)

/-- Recasts lines in order. -/
def ofLines (rules : List Rule) (context : Context) :
    List Text → Except Fault (List RecastLine × Context)
  | [] => .ok ([], context)
  | line :: lines => do
    let (recast, context) ← ofLine rules context line
    let (others, context) ← ofLines rules context lines
    return (recast :: others, context)

end RecastLine

/-- A program after all rules. -/
structure RecastCode where
  lines : List RecastLine

namespace RecastCode

/-- The lines of the program. -/
def texts (code : RecastCode) : List Text :=
  code.lines.map RecastLine.text

/-- The program. -/
def text (code : RecastCode) : Text :=
  Text.unlines code.texts

/-- How many constructs of some kinds were recognized. -/
def countKinds (code : RecastCode) (p : Kind → Bool) : Nat :=
  (code.lines.flatMap RecastLine.kinds).countP p

def functions (code : RecastCode) : Nat :=
  code.countKinds (· = .function)

def classes (code : RecastCode) : Nat :=
  code.countKinds (· = .classDef)

def imports (code : RecastCode) : Nat :=
  code.countKinds fun kind ↦ kind = .importModule || kind = .importNames

/-- Recasts a normalized program. -/
def ofCode (source target : Language) (code : Text) : Except Fault RecastCode := do
  let (lines, _) ←
    RecastLine.ofLines (Rule.between source target) (.start source target) (Text.lines code)
  return { lines := lines }

end RecastCode

end Recast
