import Recast.Grammar.Go

/-!
# The grammar of Rust
-/

namespace Recast.Grammar

open Pattern

def rust : Grammar :=
  [entry .functions .function
     (indent ++ maybe ("pub" ++ maybe ('(' ++ without ")" ++ ')') ++ blanks1)
       ++ maybe (modifier ["async"]) ++ "fn" ++ blanks1 ++ keep .name word ++ blanks
       ++ maybe typeArgs
       ++ blanks ++ '(' ++ keep .params anything ++ ')' ++ blanks
       ++ maybe ("->" ++ blanks ++ littleWithout1 ['{']) ++ blanks ++ brace?),
   entry .classes .classDef
     (indent ++ maybe (modifier ["pub"]) ++ "struct" ++ blanks1 ++ keep .name word ++ blanks
       ++ maybe typeArgs ++ blanks ++ brace?)]
  ++ bareConditionals ++
  [entry .loops .forRange
     (indent ++ "for" ++ blanks1 ++ keep .var word ++ blanks1 ++ "in" ++ blanks1 ++ maybe '('
       ++ keep .start (littleWithout1 ['.', '{']) ++ ".." ++ maybe (keep .inclusive '=')
       ++ keep .stop (littleWithout1 ['.', '{', ')']) ++ maybe ')' ++ blanks ++ '{' ++ textEnd),
   entry .loops .forEach
     (indent ++ "for" ++ blanks1 ++ keep .var word ++ blanks1 ++ "in" ++ blanks1
       ++ keep .iterable little1 ++ blanks ++ '{' ++ textEnd),
   entry .loops .whileLoop (indent ++ "while" ++ bareCondition),
   entry .loops .whileLoop (indent ++ "loop" ++ blanks ++ keep .cond .done ++ '{' ++ textEnd),
   entry .exceptions .raise
     (indent ++ "panic!(" ++ keep .message anything ++ ')' ++ blanks ++ terminator?),
   (.prints, .printCall "println!"),
   entry .imports .importNames
     (indent ++ "use" ++ blanks1 ++ keep .module (wordsOr ":") ++ "::" ++ '{'
       ++ keep .names (without ['}']) ++ '}' ++ blanks ++ terminator?),
   entry .imports .importModule
     (indent ++ "use" ++ blanks1 ++ keep .module (wordsOr ":") ++ blanks ++ terminator?),
   entry .assignments .assign
     (indent ++ "let" ++ blanks1 ++ maybe (modifier ["mut"]) ++ keep .name word ++ blanks
       ++ maybe (':' ++ blanks ++ littleWithout1 "=") ++ blanks ++ assigns ++ blanks
       ++ terminatedValue)]

end Recast.Grammar
