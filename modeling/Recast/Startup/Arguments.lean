import Recast.Startup.Log
import Recast.Text.Digit

/-!
# Arguments

The arguments of the program are options with values.  An option may be cut short as long as it
stays unambiguous, its value follows it or is joined to it by an equals sign, and the last value
counts.
-/

namespace Recast

/-- An option. -/
inductive Flag where
  | help
  | config
  | logLevel
  | logFile
  deriving DecidableEq, Repr

namespace Flag

/-- The spellings of the options. -/
def spellings : List (Text × Flag) :=
  [("-h", help), ("--help", help), ("--config", config), ("--log-level", logLevel),
   ("--log-file", logFile)]

/-- The option with exactly this spelling. -/
def ofSpelling? (t : Text) : Option Flag :=
  (spellings.find? (·.1 == t)).map Prod.snd

/-- The options whose spelling starts so. -/
def ofBeginning (t : Text) : List Flag :=
  (spellings.filter fun (spelling, _) ↦ Text.startsWith spelling t).map Prod.snd

end Flag

/-- How an argument reads by itself. -/
inductive Argument where
  /-- An argument that is no option. -/
  | value (t : Text)
  /-- An option, and what is joined to it. -/
  | given (flag : Flag) (joined? : Option Text)
  /-- What looks like an option and is none. -/
  | stray
  /-- The beginning of several options. -/
  | ambiguous
  /-- What ends the options. -/
  | separator
  deriving DecidableEq, Repr

namespace Argument

/-- The text without a line end behind it. -/
def dropLineEnd (t : Text) : Text :=
  if t.getLast? == some '\n' then t.dropLast else t

/-- Whether a text is a negative number; a line end may follow it. -/
def isNegativeNumber : Text → Bool
  | '-' :: t =>
    match Text.cut "." (dropLineEnd t) with
    | (whole, none) => !whole.isEmpty && whole.all isDecimalDigit
    | (whole, some fraction) =>
      whole.all isDecimalDigit && !fraction.isEmpty && fraction.all isDecimalDigit
  | _ => false

/-- The text up to the first equals sign, and the text behind it. -/
def splitJoined (t : Text) : Text × Option Text :=
  Text.cut "=" t

/-- The short request for help with letters behind it.  They may repeat the request; any others
are joined to it. -/
def helpLetters (letters : Text) : Argument :=
  .given .help (if !letters.isEmpty && letters.all (· == 'h') then none else some letters)

/-- An argument that starts with a dash and is no spelling of an option. -/
def ofDashed (t : Text) : Argument :=
  let (beginning, joined?) := splitJoined t
  match joined?, Flag.ofSpelling? beginning with
  | some joined, some flag =>
    if beginning == "-h" then helpLetters joined else .given flag (some joined)
  | _, _ =>
    if Text.startsWith t "-h" then helpLetters (t.drop 2)
    else
      match if Text.startsWith t "--" then Flag.ofBeginning beginning else [] with
      | [flag] => .given flag joined?
      | [] => if isNegativeNumber t || t.contains ' ' then .value t else .stray
      | _ => .ambiguous

/-- How an argument reads by itself. -/
def ofText (t : Text) : Argument :=
  match Flag.ofSpelling? t with
  | some flag => .given flag none
  | none => if t.head? == some '-' && t.length ≠ 1 then ofDashed t else .value t

/-- How the arguments read; behind the separator there are no options. -/
def ofTexts : List Text → List Argument
  | [] => []
  | t :: ts => if t == "--" then .separator :: ts.map .value else ofText t :: ofTexts ts

end Argument

/-- The values of the options. -/
structure Options where
  config? : Option Text := none
  logLevel? : Option Severity := none
  logFile? : Option Text := none
  deriving DecidableEq, Repr

/-- What the arguments ask for. -/
inductive Command where
  | start (options : Options)
  | help
  | misuse
  deriving DecidableEq, Repr

namespace Command

/-- The options with the value of one of them replaced, if it suits the option.  The separator
counts as no value, and a request for help takes none. -/
def assign (options : Options) (flag : Flag) (value : Text) : Option Options :=
  let value? := if value == "--" then none else some value
  match flag, value? with
  | .config, _ => some { options with config? := value? }
  | .logFile, _ => some { options with logFile? := value? }
  | .logLevel, some name =>
    (Severity.ofName? name).map fun severity ↦ { options with logLevel? := some severity }
  | .logLevel, none => some { options with logLevel? := none }
  | .help, _ => none

/-- Goes through the arguments.  A request for help is met at once; `extra` tells that there was an
argument that belongs to no option. -/
def read (options : Options) (extra : Bool) : List Argument → Command
  | [] => if extra then misuse else start options
  | .given .help none :: _ => help
  | .given flag (some joined) :: arguments =>
    match assign options flag joined with
    | some options => read options extra arguments
    | none => misuse
  | .given flag none :: .value value :: arguments =>
    match assign options flag value with
    | some options => read options extra arguments
    | none => misuse
  | .given _ none :: _ => misuse
  | _ :: arguments => read options true arguments

/-- What the arguments ask for.  An ambiguous argument is misuse wherever it stands. -/
def ofArguments (ts : List Text) : Command :=
  let arguments := Argument.ofTexts ts
  if arguments.contains .ambiguous then misuse else read {} false arguments

end Command

end Recast
