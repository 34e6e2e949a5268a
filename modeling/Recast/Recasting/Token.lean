import Recast.Emission.Basic
import Recast.Language.Logic

/-!
# Tokens

Literals, operators, receivers and sigils are exchanged token by token, in the code of a line only:
strings stay as they are.  The line has no comment any more, so no comment marker is looked for.
-/

namespace Recast.Token

open Pattern

/-- Recasts the code of a line of the source language. -/
def inCode (context : Context) (f : Text → Text) (line : Text) : Text :=
  Markers.mapCode { comments := [], quotes := context.source.markers.quotes } f line

/-! ## Literals -/

/-- The literals whose spelling changes, each with its new spelling. -/
def literalPairs (source target : Profile) : List (Text × Text) :=
  let pairs :=
    [(source.trueLiteral, target.trueLiteral), (source.falseLiteral, target.falseLiteral),
     (source.nullLiteral, target.nullLiteral)]
  let undefined : List (Text × Text) :=
    match source.language with
    | .javascript | .typescript => [("undefined", target.nullLiteral)]
    | _ => []
  (pairs ++ undefined).filter fun pair ↦ pair.1 ≠ pair.2

/-- One of the tokens, not part of a longer name and not a member of anything. -/
def wholeToken (tokens : List Text) : Pattern :=
  notAfter (wordOr "$.") ++ keep .keyword (anyOf (tokens.map text)) ++ notAhead (.char (wordOr "$"))

/-- Exchanges the tokens of a piece of code. -/
def exchange (pairs : List (Text × Text)) (code : Text) : Text :=
  (wholeToken (pairs.map Prod.fst)).replace
    (fun reading ↦
      let token := reading.get .keyword
      (pairs.lookup token).getD token)
    code

/-- Spells the literals the way the target does. -/
def literals (context : Context) (line : Text) : Text :=
  inCode context (exchange (literalPairs context.source context.target)) line

/-! ## Operators -/

/-- A word that is not part of a longer name. -/
def wholeWord (p : Pattern) : Pattern :=
  notAfter (wordOr "$") ++ p ++ notAhead (.char (wordOr "$"))

/-- A negation before anything but a membership test. -/
def wordNot : Pattern :=
  notAfter (wordOr "$") ++ "not" ++ blanks1 ++ notAhead ("in" ++ edge)

/-- Identity tests as comparisons, strict ones if the target has them. -/
def identityToSymbols (strict : Bool) (code : Text) : Text :=
  let differs : Text := if strict then "!==" else "!="
  let equals : Text := if strict then "===" else "=="
  (wholeWord "is").replace (fun _ ↦ equals)
    ((wholeWord ("is" ++ blanks1 ++ "not")).replace (fun _ ↦ differs) code)

/-- Symbols for the logical words of a piece of code. -/
def wordsToSymbols (source : Language) (strict : Bool) (code : Text) : Text :=
  let code := if source = .python then identityToSymbols strict code else code
  let code := (wholeWord "and").replace (fun _ ↦ "&&") code
  let code := (wholeWord "or").replace (fun _ ↦ "||") code
  wordNot.replace (fun _ ↦ "!") code

/-- Plain comparisons for strict ones. -/
def relaxEquality (code : Text) : Text :=
  Text.substitute "===" "==" (Text.substitute "!==" "!=" code)

/-- A negation sign that is not part of another operator. -/
def symbolNot : Pattern :=
  notAfter (fun c ↦ wordOr ")]!=<>" c || c == '\'' || c == '"') ++ '!' ++ notAhead '=' ++ blanks

/-- Words for the logical symbols of a piece of code. -/
def symbolsToWords (code : Text) : Text :=
  symbolNot.replace (fun _ ↦ "not ") (Logic.toWords (relaxEquality code))

/-- Whether comparison has a strict form. -/
def hasStrictEquality : Language → Bool
  | .javascript | .typescript | .php => true
  | _ => false

/-- Spells the logical operators and comparisons the way the target does. -/
def operators (context : Context) (line : Text) : Text :=
  let source := context.source
  let target := context.target
  let strict := hasStrictEquality target.language
  if target.logicStyle = .word ∧ source.logicStyle ≠ .word then inCode context symbolsToWords line
  else
    let line :=
      if target.logicStyle ≠ .word ∧ source.logicStyle ≠ .symbol then
        inCode context (wordsToSymbols source.language strict) line
      else line
    if hasStrictEquality source.language && !strict then inCode context relaxEquality line else line

/-! ## Statement ends -/

/-- Adds the target's terminator where the line needs one. -/
def endings (context : Context) (line : Text) : Text :=
  match context.target.terminator with
  | some terminator => if needsTerminator line then Text.trimEnd line ++ terminator else line
  | none => line

/-! ## Receivers and sigils -/

/-- What stands in front of a member of the current object. -/
def receiver? : Language → Option Text
  | .python | .ruby | .rust => some "self."
  | .javascript | .typescript | .java | .csharp => some "this."
  | .cpp => some "this->"
  | .php => some "$this->"
  | .go => none

/-- Exchanges the receivers of a piece of code. -/
def exchangeReceivers (old new code : Text) : Text :=
  (notAfter (wordOr "$") ++ text old).replace (fun _ ↦ new) code

/-- A sigil in front of a name. -/
def sigil : Pattern :=
  '$' ++ ahead (.char fun c ↦ c.isAlpha || c == '_')

/-- Takes the sigils off, and writes the target's member access. -/
def dropSigils (target : Language) (code : Text) : Text :=
  let member : Text := if target = .cpp then "->" else "."
  sigil.replace (fun _ ↦ []) (Text.substitute "->" member code)

/-- Exchanges receivers and takes off sigils. -/
def identifiers (context : Context) (line : Text) : Text :=
  let source := context.source.language
  let target := context.target.language
  let line :=
    match receiver? source, receiver? target with
    | some old, some new =>
      if old ≠ new then inCode context (exchangeReceivers old new) line else line
    | _, _ => line
  if source = .php ∧ target ≠ .php then inCode context (dropSigils target) line else line

end Recast.Token
