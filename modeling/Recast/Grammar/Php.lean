import Recast.Grammar.Curly

/-!
# The grammar of PHP
-/

namespace Recast.Grammar

open Pattern

def php : Grammar :=
  [entry .functions .function
     (indent ++ most (modifier ["public", "private", "protected", "static", "abstract", "final"])
       ++ "function" ++ blanks1 ++ maybe '&' ++ keep .name word ++ blanks ++ '('
       ++ keep .params anything ++ ')' ++ blanks
       ++ maybe (':' ++ blanks ++ maybe '?' ++ wordsOr "\\") ++ blanks ++ brace?),
   entry .classes .classDef
     (indent ++ maybe (modifier ["abstract", "final"]) ++ "class" ++ blanks1 ++ keep .name word
       ++ maybe (blanks1 ++ "extends" ++ blanks1 ++ keep .base (wordsOr "\\"))
       ++ maybe
         (blanks1 ++ "implements" ++ blanks1 ++ most1 (.char fun c ↦ wordOr "\\," c || isBlank c))
       ++ blanks ++ brace?)]
  ++ curlyConditionals ++
  [curlyFor,
   entry .loops .forEach
     (indent ++ "foreach" ++ blanks ++ '(' ++ blanks ++ keep .iterable little1 ++ blanks1 ++ "as"
       ++ blanks1 ++ maybe ('$' ++ word ++ blanks ++ "=>" ++ blanks) ++ '$' ++ keep .var word
       ++ blanks ++ ')' ++ blanks ++ brace?),
   curlyWhile,
   curlyTry,
   entry .exceptions .catchClause
     (indent ++ closer? ++ "catch" ++ blanks ++ '(' ++ blanks ++ keep .excType (wordsOr "\\|")
       ++ blanks1 ++ '$' ++ keep .excVar word ++ blanks ++ ')' ++ blanks ++ brace?),
   curlyFinally,
   curlyThrowNew,
   entry .prints .print
     (indent ++ anyOf ["echo", "print"] ++ blanks1 ++ keep .args little1 ++ terminator?),
   entry .imports .prologue (indent ++ "<?php" ++ textEnd),
   entry .imports .importModule
     (indent ++ anyOf ["require", "require_once", "include", "include_once"] ++ blanks ++ maybe '('
       ++ blanks ++ quotedModule ++ blanks ++ maybe ')' ++ blanks ++ terminator?),
   entry .imports .importNames
     (indent ++ "use" ++ blanks1 ++ keep .module (wordsOr "\\") ++ '\\' ++ keep .names word
       ++ blanks ++ terminator?),
   entry .assignments .assign
     (indent ++ '$' ++ keep .name word ++ blanks ++ '=' ++ notAhead (.char (oneOf "=>")) ++ blanks
       ++ terminatedValue)]

end Recast.Grammar
