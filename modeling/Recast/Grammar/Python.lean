import Recast.Grammar.Basic

/-!
# The grammar of Python

A header ends in a colon; a line that mixes languages may end it in a brace.
-/

namespace Recast.Grammar

open Pattern

/-- The colon or brace that ends a header. -/
def colonOpen : Pattern :=
  blanks ++ (':' <|> '{') ++ textEnd

def python : Grammar :=
  [entry .functions .function
     (indent ++ maybe (modifier ["async"]) ++ "def" ++ blanks1 ++ keep .name word ++ blanks ++ '('
       ++ keep .params anything ++ ')' ++ blanks
       ++ maybe ("->" ++ blanks ++ without1 [':', '{']) ++ colonOpen),
   entry .classes .classDef
     (indent ++ "class" ++ blanks1 ++ keep .name word ++ blanks
       ++ maybe ('(' ++ keep .base (without ")") ++ ')') ++ colonOpen),
   entry .conditionals .ifThen (indent ++ "if" ++ blanks1 ++ keep .cond little1 ++ colonOpen),
   entry .conditionals .elseIf (indent ++ elseIf ++ blanks1 ++ keep .cond little1 ++ colonOpen),
   entry .conditionals .elseThen (indent ++ "else" ++ colonOpen),
   entry .conditionals .pass (indent ++ "pass" ++ textEnd),
   entry .loops .forRange
     (indent ++ "for" ++ blanks1 ++ keep .var word ++ blanks1 ++ "in" ++ blanks1 ++ "range"
       ++ blanks ++ '(' ++ keep .rangeArgs anything ++ ')' ++ colonOpen),
   entry .loops .forEach
     (indent ++ "for" ++ blanks1 ++ keep .var (word ++ most (blanks ++ ',' ++ blanks ++ word))
       ++ blanks1 ++ "in" ++ blanks1 ++ keep .iterable little1 ++ colonOpen),
   entry .loops .whileLoop (indent ++ "while" ++ blanks1 ++ keep .cond little1 ++ colonOpen),
   entry .exceptions .tryBlock (indent ++ "try" ++ colonOpen),
   entry .exceptions .catchClause
     (indent ++ "except"
       ++ maybe
         (blanks1 ++ keep .excType (wordsOr "." <|> '(' ++ without ")" ++ ')')
           ++ maybe (blanks1 ++ "as" ++ blanks1 ++ keep .excVar word))
       ++ colonOpen),
   entry .exceptions .finallyBlock (indent ++ "finally" ++ colonOpen),
   entry .exceptions .raise
     (indent ++ "raise" ++ blanks1 ++ keep .error (wordsOr ".") ++ blanks ++ '('
       ++ keep .message anything ++ ')' ++ textEnd),
   entry .exceptions .raise (indent ++ "raise" ++ blanks1 ++ keep .value word ++ textEnd),
   entry .exceptions .raise (indent ++ "raise" ++ textEnd),
   (.prints, .printCall "print"),
   entry .imports .importNames
     (indent ++ "from" ++ blanks1 ++ keep .module (wordsOr ".") ++ blanks1 ++ "import" ++ blanks1
       ++ keep .names anything1 ++ textEnd),
   entry .imports .importModule
     (indent ++ "import" ++ blanks1 ++ keep .module (wordsOr ".")
       ++ maybe (blanks1 ++ "as" ++ blanks1 ++ keep .localName word) ++ textEnd),
   entry .assignments .assign
     (indent ++ keep .name (.char (fun c ↦ c.isAlpha || c == '_') ++ most (.char isWord)) ++ blanks
       ++ maybe (':' ++ blanks ++ without1 "=") ++ assigns ++ blanks ++ keep .value anything1
       ++ textEnd)]

end Recast.Grammar
