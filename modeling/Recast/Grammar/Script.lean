import Recast.Grammar.Curly

/-!
# The grammar of JavaScript and TypeScript

One grammar reads both: type annotations may stand where TypeScript has them.
-/

namespace Recast.Grammar

open Pattern

/-- What declares a variable. -/
def binding : Pattern :=
  anyOf ["const", "let", "var"]

/-- The annotated type of a result, up to the brace. -/
def resultType? : Pattern :=
  maybe (':' ++ blanks ++ littleWithout1 ['{'])

def script : Grammar :=
  [entry .functions .function
     (indent ++ maybe (modifier ["export"]) ++ maybe (modifier ["default"])
       ++ maybe (modifier ["async"]) ++ "function" ++ blanks ++ maybe '*' ++ blanks
       ++ keep .name word ++ blanks ++ maybe typeArgs ++ blanks ++ '(' ++ keep .params anything
       ++ ')' ++ blanks ++ resultType? ++ blanks ++ brace?),
   entry .functions .function
     (indent ++ maybe (modifier ["export"]) ++ binding ++ blanks1 ++ keep .name word ++ blanks
       ++ '=' ++ blanks ++ maybe (modifier ["async"]) ++ '(' ++ keep .params anything ++ ')'
       ++ blanks ++ maybe (':' ++ blanks ++ littleWithout1 "=") ++ blanks ++ "=>" ++ blanks ++ '{'
       ++ textEnd),
   entry .functions .function
     (indent ++ most (modifier ["public", "private", "protected", "static", "async", "readonly"])
       ++ notKeyword ++ keep .name word ++ blanks ++ '(' ++ keep .params (without ";") ++ ')'
       ++ blanks ++ resultType? ++ blanks ++ '{' ++ textEnd),
   entry .classes .classDef
     (indent ++ maybe (modifier ["export"]) ++ maybe (modifier ["default"])
       ++ maybe (modifier ["abstract"]) ++ "class" ++ blanks1 ++ keep .name word ++ maybe typeArgs
       ++ maybe (blanks1 ++ "extends" ++ blanks1 ++ keep .base (wordsOr ".") ++ maybe typeArgs)
       ++ maybe
         (blanks1 ++ "implements" ++ blanks1 ++ most1 (.char fun c ↦ wordOr ".,<>" c || isBlank c))
       ++ blanks ++ brace?)]
  ++ curlyConditionals ++
  [curlyFor,
   entry .loops .forEach
     (indent ++ "for" ++ blanks ++ '(' ++ blanks ++ binding ++ blanks1
       ++ keep .var (word <|> '[' ++ without "]" ++ ']') ++ blanks1 ++ "of" ++ blanks1
       ++ keep .iterable anything1 ++ ')' ++ blanks ++ brace?),
   curlyWhile,
   curlyTry,
   entry .exceptions .catchClause
     (indent ++ closer? ++ "catch" ++ blanks
       ++ maybe
         ('(' ++ blanks ++ keep .excVar word ++ maybe (blanks ++ ':' ++ blanks ++ word) ++ blanks
           ++ ')')
       ++ blanks ++ brace?),
   curlyFinally,
   curlyThrowNew,
   entry .exceptions .raise
     (indent ++ "throw" ++ blanks1 ++ keep .error capitalized ++ blanks ++ '('
       ++ keep .message anything ++ ')' ++ blanks ++ terminator?),
   curlyRethrow,
   (.prints, .printCall "console.log"),
   entry .imports .importNames
     (indent ++ "import" ++ blanks ++ '{' ++ blanks ++ keep .names (without ['}']) ++ '}' ++ blanks
       ++ "from" ++ blanks ++ quotedModule ++ blanks ++ terminator?),
   entry .imports .importModule
     (indent ++ "import" ++ blanks1 ++ maybe ('*' ++ blanks1 ++ "as" ++ blanks1)
       ++ keep .localName word
       ++ blanks1 ++ "from" ++ blanks ++ quotedModule ++ blanks ++ terminator?),
   entry .imports .importModule
     (indent ++ binding ++ blanks1 ++ keep .localName word ++ blanks ++ '=' ++ blanks ++ "require("
       ++ blanks ++ quotedModule ++ blanks ++ ')' ++ blanks ++ terminator?),
   entry .assignments .assign
     (indent ++ maybe (modifier ["export"]) ++ binding ++ blanks1 ++ keep .name word ++ blanks
       ++ maybe (':' ++ blanks ++ littleWithout1 "=") ++ blanks ++ assigns ++ blanks
       ++ terminatedValue)]

end Recast.Grammar
