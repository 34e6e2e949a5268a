import Recast.Emission.Basic

/-!
# Loops

A loop over a range is put in the way of the target language: as a call with the bounds, as an
iteration over an interval, or as a counted loop.  The header is first a value, `RangeHeader`, and
then its wording.
-/

namespace Recast

/-- How the target language puts a loop over a range. -/
inductive RangeHeader where
  /-- Over `range` with one to three arguments. -/
  | call (args : List Text)
  /-- `count` times, from zero. -/
  | times (count : Text)
  /-- Over the interval from `start` short of `stop`. -/
  | interval (start stop : Text)
  /-- From `start` by `step` up to `limit`. -/
  | walk (start limit step : Text)
  /-- Over the interval from `start` short of `stop`, taking every so many if `every` says so. -/
  | spanUp (start stop : Text) (every : Option Text)
  /-- Down over the interval from `high` to what follows `low`, taking every so many if `every`
  says so. -/
  | spanDown (low high : Text) (every : Option Text)
  /-- Counts from `start` by `amount` while less than `stop`, or while greater if `down`. -/
  | counted (start stop : Text) (down : Bool) (amount : Text)
  deriving DecidableEq, Repr

namespace RangeHeader

/-- What a step downwards subtracts, if the step starts with a minus sign. -/
def downAmount? : Text → Option Text
  | '-' :: amount => some (Text.trim amount)
  | _ => none

/-- The amount, unless it is one. -/
def unlessOne (amount : Text) : Option Text :=
  if amount = "1" then none else some amount

/-- The header for a loop from `start` by `step` short of `stop`. -/
def ofBounds (target : Language) (start stop step : Text) : RangeHeader :=
  match target with
  | .python =>
    if step ≠ "1" then .call [start, stop, step]
    else if start ≠ "0" then .call [start, stop]
    else .call [stop]
  | .ruby =>
    if step ≠ "1" then .walk start stop step
    else if start = "0" then .times stop
    else .interval start stop
  | .rust =>
    match downAmount? step with
    | some amount => .spanDown stop start (unlessOne amount)
    | none => .spanUp start stop (unlessOne step)
  | _ =>
    match downAmount? step with
    | some amount => .counted start stop true amount
    | none => .counted start stop false step

/-- What a counted loop does after each round. -/
def update (var : Text) (down : Bool) (amount : Text) : Text :=
  if amount = "1" then var ++ (if down then "--" else "++")
  else var ++ (if down then " -= " else " += ") ++ amount

/-- What declares the variable of a counted loop. -/
def declaration? : Language → Option Text
  | .javascript | .typescript => some "let "
  | .java | .cpp | .csharp => some "int "
  | .php => some ""
  | _ => none

/-- The wording of the header. -/
def render (target : Profile) (var : Text) : RangeHeader → Except Fault Text
  | .call args => .ok ("for " ++ var ++ " in range(" ++ Text.joinWith ", " args ++ "):")
  | .times count => .ok (count ++ ".times do |" ++ var ++ "|")
  | .interval start stop => .ok ("(" ++ start ++ "..." ++ stop ++ ").each do |" ++ var ++ "|")
  | .walk start limit step =>
    .ok (start ++ ".step(" ++ limit ++ ", " ++ step ++ ") do |" ++ var ++ "|")
  | .spanUp start stop none => .ok ("for " ++ var ++ " in " ++ start ++ ".." ++ stop ++ [' ', '{'])
  | .spanUp start stop (some every) =>
    .ok ("for " ++ var ++ " in (" ++ start ++ ".." ++ stop ++ ").step_by(" ++ every ++ ")"
      ++ [' ', '{'])
  | .spanDown low high every =>
    .ok ("for " ++ var ++ " in (" ++ low ++ " + 1..=" ++ high ++ ").rev()"
      ++ Text.around ".step_by(" every ")" ++ [' ', '{'])
  | .counted start stop down amount => do
    let name := target.variableName var
    let test := name ++ (if down then " > " else " < ") ++ stop
    if target.language = .go then
      return "for " ++ name ++ " := " ++ start ++ "; " ++ test ++ "; " ++ update name down amount
        ++ [' ', '{']
    let declaration ← wording .forRange target (declaration? target.language)
    return "for (" ++ declaration ++ name ++ " = " ++ start ++ "; " ++ test ++ "; "
      ++ update name down amount ++ ")" ++ [' ', '{']

end RangeHeader

namespace Emission

def forRange (target : Profile) (var start stop step : Text) : Except Fault Emission := do
  return { text := ← (RangeHeader.ofBounds target.language start stop step).render target var }

/-- The header of a loop over a collection. -/
def forEachHeader? (var iterable : Text) : Language → Option Text
  | .python => some ("for " ++ var ++ " in " ++ iterable ++ ":")
  | .javascript => some ("for (let " ++ var ++ " of " ++ iterable ++ ")" ++ [' ', '{'])
  | .typescript => some ("for (const " ++ var ++ " of " ++ iterable ++ ")" ++ [' ', '{'])
  | .java => some ("for (Object " ++ var ++ " : " ++ iterable ++ ")" ++ [' ', '{'])
  | .cpp => some ("for (auto " ++ var ++ " : " ++ iterable ++ ")" ++ [' ', '{'])
  | .csharp => some ("foreach (var " ++ var ++ " in " ++ iterable ++ ")" ++ [' ', '{'])
  | .go => some ("for _, " ++ var ++ " := range " ++ iterable ++ [' ', '{'])
  | .rust => some ("for " ++ var ++ " in " ++ iterable ++ [' ', '{'])
  | .php => some ("foreach (" ++ iterable ++ " as " ++ var ++ ")" ++ [' ', '{'])
  | .ruby => some (iterable ++ ".each do |" ++ var ++ "|")

/-- Several loop variables as one pattern, where the language has such patterns. -/
def destructured? (names : Text) : Language → Option Text
  | .python | .ruby => some names
  | .javascript | .typescript | .cpp | .php => some ("[" ++ names ++ "]")
  | .csharp | .rust => some ("(" ++ names ++ ")")
  | .java | .go => none

def forEach (target : Profile) (var iterable : Text) : Except Fault Emission := do
  let header (var : Text) : Except Fault Text :=
    wording .forEach target (forEachHeader? var iterable target.language)
  match (Text.splitOn ',' var).map fun name ↦ target.variableName (Text.trim name) with
  | [name] => return { text := ← header name }
  | names =>
    let joined := Text.joinWith ", " names
    if target.language = .go && names.length = 2 then
      return { text := "for " ++ joined ++ " := range " ++ iterable ++ [' ', '{'] }
    match destructured? joined target.language with
    | some pattern => return { text := ← header pattern }
    | none =>
      return {
        text := ← header joined
        warnings := [target.displayName ++ " cannot destructure loop variables; '" ++ joined
          ++ "' left as written"] }

def forCounted (target : Profile) (initial test update : Text) : Emission :=
  let parts := initial ++ "; " ++ test ++ "; " ++ update
  if target.language = .go then { text := "for " ++ parts ++ [' ', '{'] }
  else { text := "for (" ++ parts ++ ")" ++ [' ', '{'] }

/-- An endless loop has the condition that always holds. -/
def whileLoop (target : Profile) (cond : Text) : Emission :=
  let cond := Text.orElse cond target.trueLiteral
  if target.language = .go then { text := "for " ++ cond ++ [' ', '{'] }
  else { text := target.conditionBlock "while" cond }

end Emission

end Recast
