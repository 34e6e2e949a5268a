import Recast.Grammar.Curly

/-!
# The grammar of Go
-/

namespace Recast.Grammar

open Pattern

/-- A condition without parentheses, up to the brace. -/
def bareCondition : Pattern :=
  blanks1 ++ keep .cond little1 ++ blanks ++ '{' ++ textEnd

/-- The conditionals of a language without parentheses around conditions. -/
def bareConditionals : Grammar :=
  [entry .conditionals .ifThen (indent ++ "if" ++ bareCondition),
   entry .conditionals .elseIf (indent ++ closer? ++ elseIf ++ bareCondition),
   curlyElse]

def go : Grammar :=
  [entry .functions .function
     (indent ++ "func" ++ blanks1 ++ maybe ('(' ++ without ")" ++ ')' ++ blanks) ++ keep .name word
       ++ blanks ++ '(' ++ keep .params (without ")") ++ ')' ++ fewest (.char (noneOf ['{']))
       ++ brace?),
   entry .classes .classDef
     (indent ++ "type" ++ blanks1 ++ keep .name word ++ blanks1 ++ "struct" ++ blanks ++ brace?)]
  ++ bareConditionals ++
  [entry .loops .forCounted
     (indent ++ "for" ++ blanks1 ++ keep .initial (without [';', '{']) ++ ';'
       ++ keep .test (without [';', '{']) ++ ';' ++ keep .update (fewest (.char (noneOf ['{'])))
       ++ blanks ++ '{' ++ textEnd),
   entry .loops .forEach
     (indent ++ "for" ++ blanks1 ++ maybe (word ++ blanks ++ ',' ++ blanks) ++ keep .var word
       ++ blanks ++ ":=" ++ blanks ++ "range" ++ blanks1 ++ keep .iterable little1 ++ blanks ++ '{'
       ++ textEnd),
   entry .loops .whileLoop
     (indent ++ "for" ++ blanks1 ++ keep .cond (littleWithout1 [';', '{']) ++ blanks ++ '{'
       ++ textEnd),
   entry .loops .whileLoop (indent ++ "for" ++ blanks ++ keep .cond .done ++ '{' ++ textEnd),
   entry .exceptions .raise (indent ++ "panic(" ++ keep .message anything ++ ')' ++ textEnd),
   (.prints, .printCall "fmt.Println"),
   entry .imports .importModule
     (indent ++ "import" ++ blanks1 ++ maybe (keep .localName word ++ blanks1) ++ '"'
       ++ keep .module (without1 ['"']) ++ '"' ++ textEnd),
   entry .assignments .assign
     (indent ++ keep .name word ++ blanks ++ ":=" ++ blanks ++ keep .value anything1 ++ textEnd),
   entry .assignments .assign
     (indent ++ "var" ++ blanks1 ++ keep .name word ++ maybe (blanks1 ++ wordsOr "[]*.") ++ blanks
       ++ assigns ++ blanks ++ keep .value anything1 ++ textEnd)]

end Recast.Grammar
