import Recast.Layout.Finish
import Recast.Normalization.Basic
import Recast.Outline
import Recast.Recasting.Line

/-!
# Transformations

A program is recast in one call: its language is detected if need be, the program is normalized, its
lines are recast one by one, and the result is laid out.  A call never fails; what goes wrong is
told in the result.
-/

namespace Recast

/-- What became of a line under a transformation. -/
inductive LineClass where
  | unchanged
  | changed
  | warning
  deriving DecidableEq, Repr

/-- A line of the input and what it was recast to. -/
structure LineRecord where
  /-- The number of the line, from one. -/
  number : Nat
  input : Text
  transformed : Text
  warnings : List Text

/-- What became of the line; a warning outweighs a change. -/
def LineRecord.classification (line : LineRecord) : LineClass :=
  if !line.warnings.isEmpty then .warning
  else if line.transformed ≠ line.input then .changed
  else .unchanged

/-- The figures of a transformation. -/
structure Statistics where
  functions : Nat := 0
  classes : Nat := 0
  imports : Nat := 0
  linesTransformed : Nat := 0
  mixedLanguages : Bool := false
  normalized : Bool := false

/-- The result of recasting a program. -/
structure Transformation where
  code : Text
  input : Text
  source : Text
  target : Text
  lines : List LineRecord := []
  warnings : List Text := []
  errors : List Text := []
  statistics : Statistics := {}
  outline : List Node := []

namespace Transformation

/-- A language as the caller named it, trimmed and in lower case; empty if it was not named. -/
def identifier (name : Option Text) : Text :=
  Text.lower (Text.trim (name.getD []))

/-- The source language as the caller named it, or as it is detected if it was left open. -/
def sourceIdentifier (code : Text) (name : Option Text) : Text :=
  let identifier := identifier name
  if identifier.isEmpty || identifier == "auto" then (Language.detect code).name else identifier

/-- The name of a language that may be unknown. -/
def nameOr (language? : Option Language) (identifier : Text) : Text :=
  match language? with
  | some language => language.name
  | none => identifier

/-- The outline in a language that may be unknown. -/
def outlineOr (language? : Option Language) (code : Text) : List Node :=
  match language? with
  | some language => Outline.ofCode language.profile code
  | none => []

/-- The records of the input lines, from `number` on, with the lines they were recast to. -/
def recordsFrom : (number : Nat) → List Text → List RecastLine → List LineRecord
  | number, input :: inputs, recast :: others =>
    { number := number
      input := input
      transformed := recast.text
      warnings := recast.warnings } :: recordsFrom (number + 1) inputs others
  | _, _, _ => []

/-- The records of lines that stay as they are. -/
def identityRecords (number : Nat) : List Text → List LineRecord
  | [] => []
  | line :: lines =>
    { number := number, input := line, transformed := line, warnings := [] }
      :: identityRecords (number + 1) lines

/-- A program that is already in the target language. -/
def identity (code source target : Text) (language? : Option Language) : Transformation where
  code := code
  input := code
  source := nameOr language? source
  target := nameOr language? target
  lines := identityRecords 1 (Text.splitLines code)
  outline := outlineOr language? code

/-- A pair of languages between which nothing can be recast: the program comes back behind a
comment that says so. -/
def unsupported (code source target : Text) (source? target? : Option Language) :
    Transformation :=
  let message : Text :=
    "Unsupported language pair: " ++ Text.orElse source "unknown" ++ " -> "
      ++ Text.orElse target "unknown"
  let marker : Text := match target? <|> source? with
    | some language => language.profile.lineComment
    | none => "//"
  { code := marker ++ " " ++ message ++ "\n" ++ code
    input := code
    source := nameOr source? source
    target := nameOr target? target
    warnings := [message]
    errors := [message]
    outline := outlineOr source? code }

/-- A transformation that could not be carried out. -/
def failure (code source target : Text) (fault : Fault) : Transformation :=
  let message : Text := "Transformation failed: " ++ fault.message
  { code := code
    input := code
    source := source
    target := target
    warnings := [message]
    errors := [message] }

/-- The texts without repetition, in the order in which they are first seen. -/
def dedupe (texts : List Text) : List Text :=
  go [] texts
where
  /-- `seen` are the texts that have been met. -/
  go (seen : List Text) : List Text → List Text
    | [] => []
    | t :: others => if seen.contains t then go seen others else t :: go (t :: seen) others

/-- Recasts a program from one language into a different one. -/
def run (code : Text) (source target : Language) : Except Fault Transformation := do
  let normalization := Normalization.ofCode (some source) (some target) code
  let recast ← RecastCode.ofCode source target normalization.text
  let closeByIndent :=
    source.profile.blockStyle = .indent && target.profile.blockStyle ≠ .indent
  let final := Layout.finish target.profile (some source.profile) closeByIndent recast.text
  let lines := recordsFrom 1 (Text.splitLines code) recast.lines
  return {
    code := final
    input := code
    source := source.name
    target := target.name
    lines := lines
    warnings := dedupe (normalization.warnings ++ lines.flatMap LineRecord.warnings)
    statistics :=
      { functions := recast.functions
        classes := recast.classes
        imports := recast.imports
        linesTransformed := lines.countP (·.classification ≠ .unchanged)
        mixedLanguages := normalization.mixed.detected
        normalized := normalization.text ≠ code }
    outline := Outline.ofCode target.profile final }

/-- Recasts a program between languages as the caller names them; a source that is not named, or
named `auto`, is detected. -/
def ofCode (code : Text) (source target : Option Text) : Transformation :=
  let sourceId := sourceIdentifier code source
  let targetId := identifier target
  let source? := Language.lookup? sourceId
  let target? := Language.lookup? targetId
  if sourceId = targetId ∨ source?.isSome ∧ source? = target? then
    identity code sourceId targetId source?
  else match source?, target? with
    | some source, some target =>
      if source.canRecast target then
        match run code source target with
        | .ok transformation => transformation
        | .error fault => failure code sourceId targetId fault
      else unsupported code sourceId targetId source? target?
    | _, _ => unsupported code sourceId targetId source? target?

end Transformation

end Recast
