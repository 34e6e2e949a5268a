import Recast.Construct.Basic
import Recast.Text.Brackets

/-!
# From the parts of a line to its form

A pattern cuts a line into named parts.  This module turns the parts into a form: it trims them,
splits lists, takes types off parameters, and recognizes the counted loops that run over a range.
It may also find that the parts do not make up the form after all.
-/

namespace Recast

open Pattern

/-- The text of a part that the kind needs. -/
def Reading.require (reading : Reading) (kind : Kind) (slot : Slot) : Except Fault Text :=
  match reading.get? slot with
  | some part => .ok part
  | none => .error (.missingPart kind slot)

namespace Form

/-! ## Parameters -/

/-- The last name in a declaration with the type in front. -/
def lastName (t : Text) : Option Text :=
  go none 0 t
where
  /-- `last?` is the last name so far; `skip` counts its characters that are still to be
  skipped. -/
  go (last? : Option Text) : (skip : Nat) → Text → Option Text
    | _, [] => last?
    | skip + 1, _ :: rest => go last? skip rest
    | 0, c :: rest =>
      if c.isAlpha || c == '_' then
        let tail := rest.takeWhile isWord
        go (some (c :: tail)) tail.length rest
      else go last? 0 rest

/-- A name after a sigil. -/
def sigilName : Pattern :=
  '$' ++ keep .name word

/-- What a reference or mutability marker adds in front of a parameter. -/
def borrowMark : Pattern :=
  maybe ('&' ++ blanks) ++ maybe ("mut" ++ blanks1)

/-- The bare name of a parameter, without its type. -/
def bareParam (source : Language) (head : Text) : Text :=
  match source with
  | .java | .cpp | .csharp => (lastName head).getD head
  | .go => (Text.words head).headD head
  | .php =>
    match sigilName.search head with
    | some found => found.reading.get .name
    | none => head
  | _ =>
    let name := Text.dropEndWhile (· == '?') (Text.trim (Text.cut ":" head).1)
    match borrowMark.readStart name with
    | some reading => reading.rest
    | none => name

/-- A parameter reduced to its name and its default value, if it has one. -/
def param (source : Language) (part : Text) : Text :=
  match Text.cut "=" part with
  | (head, none) => bareParam source (Text.trim head)
  | (head, some value) => bareParam source (Text.trim head) ++ " = " ++ Text.trim value

/-- The parameters of a list, reduced to names and default values. -/
def params (source : Language) (list : Text) : List Text :=
  ((Text.splitTopLevel ',' list).filter (!·.isEmpty)).map (param source)

/-! ## Classes and conditions -/

/-- The first base class that is worth keeping. -/
def baseClass (list : Text) : Option Text :=
  (Text.splitTopLevel ',' list).find? fun base ↦
    !base.isEmpty && base != "object" && base != "metaclass"

/-- The condition of a header, without parentheses around it.  If the pattern has read the
parentheses, they have to belong together. -/
def condition (kind : Kind) (reading : Reading) : Except Fault (Option Text) := do
  let cond := Text.trim (← reading.require kind .cond)
  let negated (cond : Text) : Text := if reading.has .negate then "!(" ++ cond ++ ")" else cond
  if reading.has .paren then
    return if Text.unwrapParens ("(" ++ cond ++ ")") = cond then some (negated cond) else none
  else return some (negated (Text.unwrapParens cond))

/-! ## Loops -/

/-- The bounds in the argument list of a range. -/
def rangeOfArgs (var args : Text) : Option Form :=
  match Text.splitTopLevel ',' args with
  | [stop] => some (.forRange var "0" stop "1")
  | [start, stop] => some (.forRange var start stop "1")
  | [start, stop, step] => some (.forRange var start stop step)
  | _ => none

/-- `var = start`, with a declaration in front or not. -/
def countedStart : Pattern :=
  blanks ++ maybe (anyOf ["let", "var", "const", "int", "long", "size_t", "auto", "unsigned"])
    ++ blanks ++ maybe '$' ++ keep .var word ++ blanks ++ maybe ':' ++ '=' ++ blanks
    ++ keep .start little1 ++ blanks ++ textEnd

/-- `var < stop` or `var <= stop`. -/
def countedTest : Pattern :=
  blanks ++ maybe '$' ++ keep .var word ++ blanks ++ keep .comparison ("<=" <|> "<") ++ blanks
    ++ keep .stop little1 ++ blanks ++ textEnd

/-- `var++`, `++var` or `var += step`. -/
def countedUpdate : Pattern :=
  blanks
    ++ (maybe '$' ++ keep .var word ++ blanks ++ ("++" <|> "+=" ++ blanks ++ keep .step word)
      <|> "++" ++ maybe '$' ++ keep .preVar word)
    ++ blanks ++ textEnd

/-- The range that a counted loop runs over, if its three parts speak of one variable. -/
def rangeOfCounted (initial test update : Text) : Option Form := do
  let start ← countedStart.readStart initial
  let test ← countedTest.readStart test
  let update ← countedUpdate.readStart update
  let var := start.get .var
  guard (test.get .var = var)
  guard (((update.get? .var).orElse fun _ ↦ update.get? .preVar) = some var)
  let stop := test.get .stop
  return .forRange var (start.get .start)
    (if test.get .comparison = "<=" then stop ++ " + 1" else stop)
    ((update.get? .step).getD "1")

/-! ## Output -/

/-- What separates the parts of an output stream. -/
def streamArrow : Pattern :=
  blanks ++ "<<" ++ blanks

/-- A format string of placeholders only. -/
def placeholders : Pattern :=
  '"' ++ most1 ('{' ++ '}' ++ maybe (.char isBlank)) ++ '"'

/-- An argument that says how to print and not what. -/
def printOption : Pattern :=
  anyOf ["sep", "end", "file", "flush"] ++ blanks ++ '='

/-- The arguments that are printed, and whether others were left out. -/
def printArgs (source : Language) (list : Text) : List Text × Bool :=
  match source with
  | .cpp =>
    (((streamArrow.split list).map Text.trim).filter fun part ↦
      !part.isEmpty && part != ['"', ' ', '"'] && part != ['\'', ' ', '\''], false)
  | .rust =>
    match (Text.splitTopLevel ',' list).filter (!·.isEmpty) with
    | format :: second :: others =>
      if (placeholders.readStart format).any (·.rest.isEmpty) then (second :: others, false)
      else (format :: second :: others, false)
    | parts => (parts, false)
  | .python =>
    let parts := (Text.splitTopLevel ',' list).filter (!·.isEmpty)
    let kept := parts.filter (!printOption.accepts ·)
    (kept, kept.length != parts.length)
  | _ => ((Text.splitTopLevel ',' list).filter (!·.isEmpty), false)

/-! ## Forms -/

/-- The form of a kind that has been read in a line of the source language; none if the parts do
not make up the form. -/
def ofReading (kind : Kind) (source : Language) (reading : Reading) :
    Except Fault (Option Form) := do
  match kind with
  | .function =>
    let name := Text.dropEndWhile (fun c ↦ c == '?' || c == '!') (← reading.require kind .name)
    return some (.function name (params source (reading.get .params)))
  | .classDef =>
    return some (.classDef (← reading.require kind .name) (baseClass (reading.get .base)))
  | .ifThen => return (← condition kind reading).map ifThen
  | .elseIf => return (← condition kind reading).map elseIf
  | .elseThen => return some .elseThen
  | .blockEnd => return some .blockEnd
  | .pass => return some .pass
  | .forRange =>
    let var ← reading.require kind .var
    match reading.get? .rangeArgs with
    | some args => return rangeOfArgs var args
    | none =>
      let stop := Text.trim (← reading.require kind .stop)
      return some (.forRange var (Text.trim ((reading.get? .start).getD "0"))
        (if reading.has .inclusive then Text.trim (stop ++ " + 1") else stop) "1")
  | .forEach =>
    return some (.forEach (Text.trimChars "$ " (← reading.require kind .var))
      (Text.trim (← reading.require kind .iterable)))
  | .forCounted =>
    let initial := reading.get .initial
    let test := reading.get .test
    let update := reading.get .update
    return some ((rangeOfCounted initial test update).getD
      (.forCounted (Text.trim initial) (Text.trim test) (Text.trim update)))
  | .whileLoop => return (← condition kind reading).map whileLoop
  | .tryBlock => return some .tryBlock
  | .catchClause =>
    return some (.catchClause
      ((reading.get? .excType).map fun t ↦ Text.trimChars "()" (Text.trim t))
      (reading.get? .excVar))
  | .finallyBlock => return some .finallyBlock
  | .raise =>
    return some (.raise (reading.get? .error) (reading.get? .value)
      ((reading.get? .message).orElse fun _ ↦ reading.get? .lateMessage))
  | .print =>
    match printArgs source (reading.get .args) with
    | (args, dropped) => return some (.print args dropped)
  | .importModule =>
    return some (.importModule (← reading.require kind .module) (reading.get? .localName))
  | .importNames =>
    let module ← reading.require kind .module
    let names := Text.trimChars "()" (Text.trim (← reading.require kind .names))
    return some (.importNames module
      (((Text.splitOn ',' names).map Text.trim).filter (!·.isEmpty)))
  | .prologue => return some .prologue
  | .assign =>
    return some (.assign (← reading.require kind .name) (Text.trim (← reading.require kind .value)))

end Form

end Recast
