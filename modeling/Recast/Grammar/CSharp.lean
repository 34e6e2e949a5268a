import Recast.Grammar.Curly

/-!
# The grammar of C#
-/

namespace Recast.Grammar

open Pattern

def csharp : Grammar :=
  [curlyMethod
     ["public", "private", "protected", "internal", "static", "virtual", "override", "async",
      "abstract", "sealed", "extern"],
   entry .classes .classDef
     (indent
       ++ most
         (modifier
           ["public", "private", "protected", "internal", "abstract", "sealed", "static",
            "partial"])
       ++ "class" ++ blanks1 ++ keep .name word ++ maybe typeArgs
       ++ maybe
         (blanks ++ ':' ++ blanks ++ keep .base (wordsOr ".") ++ maybe typeArgs
           ++ most (blanks ++ ',' ++ blanks ++ wordsOr ".<>"))
       ++ blanks ++ brace?)]
  ++ curlyConditionals ++
  [curlyFor,
   entry .loops .forEach
     (indent ++ "foreach" ++ blanks ++ '(' ++ blanks ++ typeName ++ blanks1 ++ keep .var word
       ++ blanks1 ++ "in" ++ blanks1 ++ keep .iterable anything1 ++ ')' ++ blanks ++ brace?),
   curlyWhile,
   curlyTry,
   entry .exceptions .catchClause
     (indent ++ closer? ++ "catch"
       ++ maybe
         (blanks ++ '(' ++ blanks ++ keep .excType (wordsOr ".")
           ++ maybe (blanks1 ++ keep .excVar word) ++ blanks ++ ')')
       ++ blanks ++ brace?),
   curlyFinally,
   curlyThrowNew,
   curlyRethrow,
   curlyBareRethrow,
   (.prints, .printCall "Console.WriteLine"),
   entry .imports .importModule
     (indent ++ "using" ++ blanks1 ++ maybe (modifier ["static"]) ++ keep .module (wordsOr ".")
       ++ blanks ++ terminator?),
   entry .assignments .assign
     (indent
       ++ anyOf
         ["var", "int", "long", "double", "float", "bool", "string", "char", "decimal", "object",
          generic]
       ++ blanks1 ++ keep .name word ++ blanks ++ assigns ++ blanks ++ terminatedValue)]

end Recast.Grammar
