import Recast.Language.Basic
import Recast.Pattern.Basic
import Recast.Text.Segment

/-!
# Language profiles

The profile of a language records its surface: how it marks comments and strings, how it delimits
blocks, how it spells literals and operators.  Everything that depends on a language and not on a
particular construct is read off its profile.
-/

namespace Recast

/-- How a language delimits nested blocks. -/
inductive BlockStyle where
  /-- By a colon and deeper indentation. -/
  | indent
  /-- By curly braces. -/
  | brace
  /-- By an opening keyword and `end`. -/
  | keyword
  deriving DecidableEq, Repr

/-- How a language spells its logical operators. -/
inductive LogicStyle where
  /-- With the words `and`, `or` and `not`. -/
  | word
  /-- With the symbols `&&`, `||` and `!`. -/
  | symbol
  /-- Either way. -/
  | mixed
  deriving DecidableEq, Repr

/-- A line that has to stand in every file, and how an existing one is told. -/
structure TopLevel where
  declaration : Text
  present : Pattern

/-- The surface of a language. -/
structure Profile where
  language : Language
  displayName : Text
  /-- The file extensions, the usual one first. -/
  extensions : List Text
  markers : Markers
  /-- What ends a statement, if anything does. -/
  terminator : Option Text
  blockStyle : BlockStyle
  /-- One level of indentation. -/
  indentUnit : Text
  trueLiteral : Text
  falseLiteral : Text
  nullLiteral : Text
  logicStyle : LogicStyle
  elseIfKeyword : Text
  /-- Whether single quotes mark characters and not strings. -/
  charLiterals : Bool
  topLevel : Option TopLevel
  /-- Found in the code of a line that opens a block. -/
  blockOpen : Pattern
  /-- Found in the code of a line that ends one branch of a block and opens the next. -/
  blockContinue : Pattern
  /-- The line that closes a block. -/
  blockClose : Option Text

namespace Profile

/-- What starts a line comment. -/
def lineComment (profile : Profile) : Text :=
  profile.markers.comments.headD []

def usesBraces (profile : Profile) : Bool :=
  profile.blockStyle = .brace

/-- Whether a line with this code opens a block. -/
def opensBlock (profile : Profile) (code : Text) : Bool :=
  profile.blockOpen.occurs code

/-- Whether a line with this code ends one branch and opens the next. -/
def continuesBlock (profile : Profile) (code : Text) : Bool :=
  profile.blockContinue.occurs code

/-- Whether a line with this code closes a block and does nothing else. -/
def closesBlock (profile : Profile) (code : Text) : Bool :=
  profile.blockClose == some code

/-- Whether a trimmed line is a comment, or a line of a block comment. -/
def isComment (profile : Profile) (trimmed : Text) : Bool :=
  Text.startsWithAny trimmed profile.markers.comments
    || profile.usesBraces && (Text.startsWithAny trimmed ["/*", "*/", "* "] || trimmed == "*")

end Profile

open Pattern

/-- A brace at the end of the line. -/
def braceOpen : Pattern :=
  '{' ++ blanks ++ textEnd

/-- A line between two braces. -/
def braceContinue : Pattern :=
  textStart ++ '}' ++ anything ++ '{' ++ blanks ++ textEnd

/-- One of the keywords at the start of the line. -/
def startsWithKeyword (keywords : List Pattern) : Pattern :=
  textStart ++ anyOf keywords ++ edge

/-- What the languages with curly braces have in common. -/
def curlyProfile (language : Language) (displayName : Text) (extensions : List Text) : Profile where
  language := language
  displayName := displayName
  extensions := extensions
  markers := { comments := ["//"], quotes := ['"', '\''] }
  terminator := some ";"
  blockStyle := .brace
  indentUnit := "    "
  trueLiteral := "true"
  falseLiteral := "false"
  nullLiteral := "null"
  logicStyle := .symbol
  elseIfKeyword := "else if"
  charLiterals := false
  topLevel := none
  blockOpen := braceOpen
  blockContinue := braceContinue
  blockClose := some '}'

namespace Language

/-- The surface of each language. -/
def profile : Language → Profile
  | python =>
    { language := python
      displayName := "Python"
      extensions := [".py", ".pyi"]
      markers := { comments := ["#"], quotes := ['"', '\''] }
      terminator := none
      blockStyle := .indent
      indentUnit := "    "
      trueLiteral := "True"
      falseLiteral := "False"
      nullLiteral := "None"
      logicStyle := .word
      elseIfKeyword := "elif"
      charLiterals := false
      topLevel := none
      blockOpen := ':' ++ blanks ++ textEnd
      blockContinue := startsWithKeyword ["elif", "else", "except", "finally"]
      blockClose := none }
  | javascript =>
    { curlyProfile javascript "JavaScript" [".js", ".jsx", ".mjs", ".cjs"] with
      markers := { comments := ["//"], quotes := Text.allQuotes }
      indentUnit := "  " }
  | typescript =>
    { curlyProfile typescript "TypeScript" [".ts", ".tsx"] with
      markers := { comments := ["//"], quotes := Text.allQuotes }
      indentUnit := "  " }
  | java =>
    { curlyProfile java "Java" [".java"] with
      charLiterals := true }
  | cpp =>
    { curlyProfile cpp "C++" [".cpp", ".hpp", ".cc", ".cxx", ".h"] with
      nullLiteral := "nullptr"
      charLiterals := true }
  | go =>
    { curlyProfile go "Go" [".go"] with
      markers := { comments := ["//"], quotes := Text.allQuotes }
      terminator := none
      indentUnit := ['\t']
      nullLiteral := "nil"
      charLiterals := true
      topLevel := some
        { declaration := "package main"
          present := lineStart ++ blanks ++ "package" ++ blanks1 ++ word } }
  | rust =>
    { curlyProfile rust "Rust" [".rs"] with
      markers := { comments := ["//"], quotes := ['"'] }
      nullLiteral := "None"
      charLiterals := true }
  | csharp =>
    { curlyProfile csharp "C#" [".cs"] with
      charLiterals := true }
  | php =>
    { curlyProfile php "PHP" [".php"] with
      markers := { comments := ["//", "#"], quotes := ['"', '\''] }
      logicStyle := .mixed
      elseIfKeyword := "elseif"
      topLevel := some
        { declaration := "<?php"
          present := lineStart ++ blanks ++ "<?php" } }
  | ruby =>
    { language := ruby
      displayName := "Ruby"
      extensions := [".rb"]
      markers := { comments := ["#"], quotes := ['"', '\''] }
      terminator := none
      blockStyle := .keyword
      indentUnit := "  "
      trueLiteral := "true"
      falseLiteral := "false"
      nullLiteral := "nil"
      logicStyle := .mixed
      elseIfKeyword := "elsif"
      charLiterals := false
      topLevel := none
      blockOpen :=
        startsWithKeyword
            ["def", "class", "module", "if", "unless", "while", "until", "for", "begin", "case"]
          <|> edge ++ "do" ++ maybe (blanks ++ '|' ++ most (.char (noneOf "|")) ++ '|') ++ blanks
            ++ textEnd
      blockContinue := startsWithKeyword ["elsif", "else", "rescue", "ensure", "when"]
      blockClose := some "end" }

end Language

end Recast
