import Recast.Language.Basic
import Recast.Settings.Conversion

/-!
# Settings

The settings of a session and their reading from named values.  Every setting is read, so that all
that is wrong is told at once.
-/

namespace Recast

/-- The settings of a session. -/
structure Settings where
  /-- The language into which a program is recast if a call names none. -/
  defaultTarget : Language := .fallback
  /-- How many characters are delivered at a time. -/
  chunkSize : Int := 50
  /-- How many characters a program may have. -/
  maxInput : Int := 200000
  /-- Whether the outline is part of a transformation's report. -/
  includeOutline : Bool := true
  deriving DecidableEq, Repr

/-- A setting. -/
inductive Setting where
  | defaultTarget
  | chunkSize
  | maxInput
  | includeOutline
  deriving DecidableEq, Repr

/-- The key under which a setting is given. -/
def Setting.key : Setting → Text
  | defaultTarget => "default_target_language"
  | chunkSize => "stream_chunk_size"
  | maxInput => "max_input_chars"
  | includeOutline => "include_structure"

/-- A setting that cannot be read. -/
structure SettingError where
  setting : Setting
  misfit : Misfit
  deriving DecidableEq, Repr

namespace Conversion

/-! ## Reading single settings -/

/-- A language, by its name or an alias. -/
def language (conversion : Conversion) (value : Value) : Except Misfit Language := do
  let name ← conversion.text value
  match Language.lookup? name with
  | some language => .ok language
  | none => .error .unknownLanguage

/-- An integer that is not below `least` and not above `greatest?`. -/
def integerWithin (conversion : Conversion) (least : Int) (greatest? : Option Int) (value : Value) :
    Except Misfit Int := do
  let n ← conversion.integer value
  if n < least then .error .tooSmall
  else if greatest?.any (· < n) then .error .tooLarge
  else .ok n

end Conversion

namespace Settings

/-! ## Reading settings -/

/-- The largest number of characters that can be delivered at a time. -/
def greatestChunkSize : Int :=
  10000

/-- The value under a key; the last one counts. -/
def valueOf? (entries : List (Text × Value)) (key : Text) : Option Value :=
  (entries.reverse.find? (·.1 == key)).map Prod.snd

/-- Reads one setting, which keeps its default if it is not given. -/
def field {α : Type} (entries : List (Text × Value)) (setting : Setting) (default : α)
    (read : Value → Except Misfit α) : Except SettingError α :=
  match valueOf? entries setting.key with
  | none => .ok default
  | some value =>
    match read value with
    | .ok a => .ok a
    | .error misfit => .error { setting := setting, misfit := misfit }

/-- What went wrong, if anything did. -/
def errorOf {α : Type} : Except SettingError α → List SettingError
  | .ok _ => []
  | .error e => [e]

/-- Reads settings from named values; keys of no setting are passed over. -/
def ofEntries (entries : List (Text × Value)) (conversion : Conversion := .lenient) :
    Except (List SettingError) Settings :=
  let default : Settings := {}
  let target := field entries .defaultTarget default.defaultTarget conversion.language
  let chunk :=
    field entries .chunkSize default.chunkSize (conversion.integerWithin 1 (some greatestChunkSize))
  let limit := field entries .maxInput default.maxInput (conversion.integerWithin 1 none)
  let outline := field entries .includeOutline default.includeOutline conversion.switch
  match target, chunk, limit, outline with
  | .ok target, .ok chunk, .ok limit, .ok outline =>
    .ok
      { defaultTarget := target
        chunkSize := chunk
        maxInput := limit
        includeOutline := outline }
  | target, chunk, limit, outline =>
    .error (errorOf target ++ errorOf chunk ++ errorOf limit ++ errorOf outline)

end Settings

end Recast
