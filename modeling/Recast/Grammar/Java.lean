import Recast.Grammar.Curly

/-!
# The grammar of Java
-/

namespace Recast.Grammar

open Pattern

def java : Grammar :=
  [curlyMethod
     ["public", "private", "protected", "static", "final", "abstract", "synchronized", "native"],
   entry .functions .function
     (indent ++ notKeyword ++ typeName ++ blanks1 ++ keep .name word ++ blanks ++ '('
       ++ keep .params (without ";") ++ ')' ++ blanks ++ throwsClause? ++ '{' ++ textEnd),
   entry .classes .classDef
     (indent ++ most (modifier ["public", "private", "protected", "abstract", "final", "static"])
       ++ "class" ++ blanks1 ++ keep .name word ++ maybe typeArgs
       ++ maybe (blanks1 ++ "extends" ++ blanks1 ++ keep .base (wordsOr ".") ++ maybe typeArgs)
       ++ maybe
         (blanks1 ++ "implements" ++ blanks1 ++ most1 (.char fun c ↦ wordOr ".,<>" c || isBlank c))
       ++ blanks ++ brace?)]
  ++ curlyConditionals ++
  [curlyFor,
   entry .loops .forEach
     (indent ++ "for" ++ blanks ++ '(' ++ blanks ++ maybe (modifier ["final"]) ++ typeName
       ++ blanks1 ++ keep .var word ++ blanks ++ ':' ++ blanks ++ keep .iterable anything1
       ++ ')' ++ blanks ++ brace?),
   curlyWhile,
   curlyTry,
   entry .exceptions .catchClause
     (indent ++ closer? ++ "catch" ++ blanks ++ '(' ++ blanks ++ maybe (modifier ["final"])
       ++ keep .excType (fewest1 (.char fun c ↦ wordOr ".|" c || isBlank c)) ++ blanks1
       ++ keep .excVar word ++ blanks ++ ')' ++ blanks ++ brace?),
   curlyFinally,
   curlyThrowNew,
   curlyRethrow,
   (.prints, .printCall "System.out.println"),
   entry .imports .importModule
     (indent ++ "import" ++ blanks1 ++ maybe (modifier ["static"]) ++ keep .module (wordsOr ".")
       ++ ".*" ++ blanks ++ terminator?),
   entry .imports .importNames
     (indent ++ "import" ++ blanks1 ++ maybe (modifier ["static"]) ++ keep .module (wordsOr ".")
       ++ '.' ++ keep .names word ++ blanks ++ terminator?),
   entry .assignments .assign
     (indent ++ maybe (modifier ["final"])
       ++ anyOf
         ["var", "int", "long", "double", "float", "boolean", "char", "byte", "short", generic]
       ++ blanks1 ++ keep .name word ++ blanks ++ assigns ++ blanks ++ terminatedValue)]

end Recast.Grammar
