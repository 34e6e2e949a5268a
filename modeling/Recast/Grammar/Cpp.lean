import Recast.Grammar.Curly

/-!
# The grammar of C++
-/

namespace Recast.Grammar

open Pattern

/-- The namespace of the standard library, which may be left out. -/
def std? : Pattern :=
  maybe "std::"

def cpp : Grammar :=
  [entry .functions .function
     (indent ++ most (modifier ["static", "inline", "virtual", "constexpr", "explicit"])
       ++ notKeyword ++ wordsOr ":<>,"
       ++ (blanks ++ most1 (.char (oneOf "*&")) ++ blanks <|> blanks1)
       ++ keep .name word ++ blanks ++ '(' ++ keep .params (without ";") ++ ')' ++ blanks
       ++ maybe ("const" ++ blanks) ++ maybe ("override" ++ blanks) ++ '{' ++ textEnd),
   entry .classes .classDef
     (indent ++ anyOf ["class", "struct"] ++ blanks1 ++ keep .name word
       ++ maybe
         (blanks ++ ':' ++ blanks ++ maybe (anyOf ["public", "protected", "private"]) ++ blanks
           ++ keep .base (wordsOr ":"))
       ++ blanks ++ brace?)]
  ++ curlyConditionals ++
  [curlyFor,
   entry .loops .forEach
     (indent ++ "for" ++ blanks ++ '(' ++ blanks ++ maybe (modifier ["const"]) ++ wordsOr ":<>"
       ++ blanks ++ most (.char (oneOf "&*")) ++ blanks ++ keep .var word ++ blanks ++ ':' ++ blanks
       ++ keep .iterable anything1 ++ ')' ++ blanks ++ brace?),
   curlyWhile,
   curlyTry,
   entry .exceptions .catchClause
     (indent ++ closer? ++ "catch" ++ blanks ++ '(' ++ blanks ++ maybe (modifier ["const"])
       ++ keep .excType (wordsOr ":" <|> "...") ++ blanks ++ maybe '&' ++ blanks
       ++ maybe (keep .excVar word) ++ blanks ++ ')' ++ blanks ++ brace?),
   entry .exceptions .raise
     (indent ++ "throw" ++ blanks1 ++ keep .error (wordsOr ":") ++ blanks ++ '('
       ++ keep .message anything ++ ')' ++ blanks ++ terminator?),
   curlyRethrow,
   curlyBareRethrow,
   entry .prints .print
     (indent ++ std? ++ "cout" ++ blanks ++ "<<" ++ blanks ++ keep .args little1
       ++ maybe (blanks ++ "<<" ++ blanks ++ std? ++ "endl") ++ blanks ++ terminator?),
   entry .imports .importModule
     (indent ++ "#include" ++ blanks ++ .char (oneOf ['<', '"'])
       ++ keep .module (without1 ['>', '"'])
       ++ .char (oneOf ['>', '"']) ++ textEnd),
   entry .assignments .assign
     (indent ++ maybe (modifier ["const"])
       ++ anyOf
         ["auto", "int", "long", "double", "float", "bool", "char", "size_t",
          "std::" ++ word ++ maybe ('<' ++ without "=" ++ '>'), capitalized]
       ++ blanks ++ maybe (.char (oneOf "*&")) ++ blanks1 ++ keep .name word ++ blanks ++ assigns
       ++ blanks ++ terminatedValue)]

end Recast.Grammar
