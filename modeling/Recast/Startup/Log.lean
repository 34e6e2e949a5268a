import Recast.Settings.File
import Recast.Text.Json

/-!
# The log

Records of what happened at start-up.  A record is written if it is at least as severe as the log
asks for.
-/

namespace Recast

/-- How severe a record is. -/
inductive Severity where
  | debug
  | info
  | warning
  | error
  deriving DecidableEq, Repr

namespace Severity

/-- All severities, the mildest first. -/
def all : List Severity :=
  [debug, info, warning, error]

/-- The name by which a severity is asked for. -/
def name : Severity → Text
  | debug => "DEBUG"
  | info => "INFO"
  | warning => "WARNING"
  | error => "ERROR"

/-- The rank of a severity. -/
def rank : Severity → Nat
  | debug => 10
  | info => 20
  | warning => 30
  | error => 40

/-- The severity with exactly this name. -/
def ofName? (t : Text) : Option Severity :=
  all.find? (·.name == t)

/-- A letter in upper case, as far as the names of severities need it. -/
def upper (c : Char) : Char :=
  if c == 'ı' then 'I' else c.toUpper

/-- The severity with this name in any case; information if there is none. -/
def resolve (t : Text) : Severity :=
  (ofName? (t.map upper)).getD info

end Severity

/-- A record of the log. -/
inductive Record where
  /-- Settings are active, from the given path if there is one. -/
  | loaded (path? : Option Text) (settings : Settings)
  /-- A settings file was refused. -/
  | refused (error : FileError)

namespace Record

/-- How severe the record is. -/
def severity : Record → Severity
  | loaded .. => .info
  | refused _ => .error

/-- The records that are severe enough to be written. -/
def written (threshold : Severity) (records : List Record) : List Record :=
  records.filter fun record ↦ threshold.rank ≤ record.severity.rank

/-- The record as a line of the log. -/
def line : Record → Text
  | loaded path? settings =>
    Text.jsonRecord
      [Text.jsonField "event" (Text.json "config_loaded"),
       Text.jsonField "level" (Text.json "info"),
       Text.jsonField "config_path" ((path?.map Text.json).getD "null"),
       Text.jsonField "default_target_language" (Text.json settings.defaultTarget.name),
       Text.jsonField "stream_chunk_size" (Text.ofInt settings.chunkSize)]
  | refused error =>
    Text.jsonRecord
      [Text.jsonField "event" (Text.json "config_validation_failed"),
       Text.jsonField "level" (Text.json "error"),
       Text.jsonField "config_path" (Text.json error.path),
       Text.jsonField "error" (Text.json error.message)]

end Record

end Recast
