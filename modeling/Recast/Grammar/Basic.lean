import Recast.Construct.Call
import Recast.Construct.Reading

/-!
# Recognizers

A recognizer understands one way to write one kind of construct in one language.  A grammar is the
list of recognizers of a language, sorted into categories; within a category the first recognizer
that accepts a line decides.
-/

namespace Recast

open Pattern

/-- A family of constructs that are recognized together. -/
inductive Category where
  | functions
  | classes
  | conditionals
  | loops
  | exceptions
  | prints
  | imports
  | assignments
  deriving DecidableEq, Repr

namespace Category

/-- All categories, in the order in which they are tried. -/
def all : List Category :=
  [functions, classes, conditionals, loops, exceptions, prints, imports, assignments]

/-- The name under which a category is reported. -/
def name : Category → Text
  | functions => "functions"
  | classes => "classes"
  | conditionals => "conditionals"
  | loops => "loops"
  | exceptions => "exceptions"
  | prints => "prints"
  | imports => "imports"
  | assignments => "variables"

end Category

/-- One way to write a construct. -/
inductive Recognizer where
  /-- A whole line that fits a pattern. -/
  | line (kind : Kind) (pattern : Pattern)
  /-- A call that prints, anywhere in the line. -/
  | printCall (callee : Text)

/-- The construct that the recognizer finds in a line of the source language. -/
def Recognizer.recognize (source : Language) (line : Text) :
    Recognizer → Except Fault (Option Construct)
  | .line kind pattern =>
    match pattern.readStart line with
    | none => .ok none
    | some reading => do
      let form? ← Form.ofReading kind source reading
      return form?.map fun form ↦
        { form := form
          indent := reading.get .indent
          closes := reading.has .closes
          span := none }
  | .printCall callee =>
    match Call.find? callee line with
    | none => .ok none
    | some call =>
      match Form.printArgs source call.args with
      | (args, dropped) =>
        .ok (some
          { form := .print args dropped
            indent := Text.indentation line
            closes := false
            span := some (call.start, call.stop) })

/-- The recognizers of a language with their categories. -/
abbrev Grammar := List (Category × Recognizer)

/-- The recognizers of a category, in order. -/
def Grammar.recognizers (grammar : Grammar) (category : Category) : List Recognizer :=
  grammar.filterMap fun entry ↦ if entry.1 = category then some entry.2 else none

namespace Grammar

/-- A category with one way to write a kind of construct. -/
def entry (category : Category) (kind : Kind) (pattern : Pattern) : Category × Recognizer :=
  (category, .line kind pattern)

/-! ## Pieces of lines -/

/-- The indentation of the line. -/
def indent : Pattern :=
  keep .indent blanks

/-- The end of the block before, at the start of a line that goes on with it. -/
def closer? : Pattern :=
  maybe (keep .closes ('}' ++ blanks))

/-- Any spelling of the keyword of a further branch. -/
def elseIf : Pattern :=
  anyOf ["else" ++ blanks ++ "if", "elif", "elsif", "elseif"]

/-- One of the keywords and the blanks after it. -/
def modifier (keywords : List Pattern) : Pattern :=
  anyOf keywords ++ blanks1

/-- A brace that may be missing, at the end of the line. -/
def brace? : Pattern :=
  maybe '{' ++ textEnd

/-- A terminator that may be missing, at the end of the line. -/
def terminator? : Pattern :=
  maybe ';' ++ textEnd

/-- Characters other than the given ones, as many as possible. -/
def without (chars : Text) : Pattern :=
  most (.char (noneOf chars))

/-- Characters other than the given ones, as many as possible and at least one. -/
def without1 (chars : Text) : Pattern :=
  most1 (.char (noneOf chars))

/-- Characters other than the given ones, as few as possible and at least one. -/
def littleWithout1 (chars : Text) : Pattern :=
  fewest1 (.char (noneOf chars))

/-- Word characters and the given ones, at least one. -/
def wordsOr (chars : Text) : Pattern :=
  most1 (.char (wordOr chars))

/-- Type arguments in angle brackets. -/
def typeArgs : Pattern :=
  '<' ++ without ">" ++ '>'

/-- A quote of either sort. -/
def quote : Pattern :=
  .char (oneOf ['\'', '"'])

/-- The path of a module between quotes. -/
def quotedModule : Pattern :=
  quote ++ keep .module (without1 ['\'', '"']) ++ quote

/-- An equals sign that does not start a comparison. -/
def assigns : Pattern :=
  '=' ++ notAhead '='

end Grammar

end Recast
