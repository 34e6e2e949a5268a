import Recast.Grammar.Basic

/-!
# The grammar of Ruby
-/

namespace Recast.Grammar

open Pattern

/-- A condition that may be followed by a keyword. -/
def conditionBefore (keyword : Text) : Pattern :=
  blanks1 ++ keep .cond little1 ++ maybe (blanks1 ++ text keyword)

/-- A block with one argument, at the end of the line. -/
def blockVar : Pattern :=
  blanks1 ++ "do" ++ blanks ++ '|' ++ keep .var word ++ '|' ++ textEnd

/-- The name of an error class. -/
def errorClass : Pattern :=
  .char (·.isUpper) ++ most (.char (wordOr ":"))

def ruby : Grammar :=
  [entry .functions .function
     (indent ++ "def" ++ blanks1 ++ maybe "self." ++ keep .name (word ++ maybe (.char (oneOf "?!")))
       ++ blanks ++ maybe ('(' ++ keep .params anything ++ ')') ++ textEnd),
   entry .classes .classDef
     (indent ++ "class" ++ blanks1 ++ keep .name word
       ++ maybe (blanks ++ '<' ++ blanks ++ keep .base (wordsOr ":")) ++ textEnd),
   entry .conditionals .ifThen (indent ++ "if" ++ conditionBefore "then" ++ textEnd),
   entry .conditionals .ifThen
     (indent ++ "unless" ++ conditionBefore "then" ++ keep .negate .done ++ textEnd),
   entry .conditionals .elseIf (indent ++ elseIf ++ conditionBefore "then" ++ textEnd),
   entry .conditionals .elseThen (indent ++ "else" ++ textEnd),
   entry .conditionals .blockEnd (indent ++ "end" ++ textEnd),
   entry .loops .forRange (indent ++ keep .stop word ++ ".times" ++ blockVar),
   entry .loops .forRange
     (indent ++ "for" ++ blanks1 ++ keep .var word ++ blanks1 ++ "in" ++ blanks1 ++ maybe '('
       ++ keep .start (littleWithout1 ".") ++ ".." ++ keep .stop (littleWithout1 ".)") ++ maybe ')'
       ++ maybe (blanks1 ++ "do") ++ keep .inclusive .done ++ textEnd),
   entry .loops .forRange
     (indent ++ '(' ++ keep .start (littleWithout1 ".") ++ "..." ++ keep .stop (littleWithout1 ".)")
       ++ ").each" ++ blockVar),
   entry .loops .forEach (indent ++ keep .iterable (wordsOr ".[]()@") ++ ".each" ++ blockVar),
   entry .loops .forEach
     (indent ++ "for" ++ blanks1 ++ keep .var word ++ blanks1 ++ "in" ++ blanks1
       ++ keep .iterable little1 ++ maybe (blanks1 ++ "do") ++ textEnd),
   entry .loops .whileLoop (indent ++ "while" ++ conditionBefore "do" ++ textEnd),
   entry .loops .whileLoop
     (indent ++ "until" ++ conditionBefore "do" ++ keep .negate .done ++ textEnd),
   entry .exceptions .tryBlock (indent ++ "begin" ++ textEnd),
   entry .exceptions .catchClause
     (indent ++ "rescue" ++ maybe (blanks1 ++ keep .excType (wordsOr ":"))
       ++ maybe (blanks ++ "=>" ++ blanks ++ keep .excVar word) ++ textEnd),
   entry .exceptions .finallyBlock (indent ++ "ensure" ++ textEnd),
   entry .exceptions .raise
     (indent ++ "raise" ++ blanks1 ++ keep .error errorClass ++ ".new(" ++ keep .message anything
       ++ ')' ++ textEnd),
   entry .exceptions .raise
     (indent ++ "raise" ++ blanks1 ++ keep .error errorClass
       ++ maybe (blanks ++ ',' ++ blanks ++ keep .lateMessage anything1) ++ textEnd),
   entry .exceptions .raise
     (indent ++ "raise" ++ blanks1 ++ keep .message (quote ++ anything) ++ textEnd),
   entry .exceptions .raise (indent ++ "raise" ++ textEnd),
   (.prints, .printCall "puts"),
   entry .prints .print
     (indent ++ "puts" ++ blanks1 ++ keep .args (.char (noneOf "(") ++ anything) ++ textEnd),
   entry .imports .importModule
     (indent ++ "require" ++ maybe "_relative" ++ blanks ++ maybe '(' ++ blanks ++ quotedModule
       ++ blanks ++ maybe ')' ++ textEnd),
   entry .assignments .assign
     (indent ++ keep .name (.char (fun c ↦ c.isLower || c == '_') ++ most (.char isWord)) ++ blanks
       ++ '=' ++ notAhead (.char (oneOf "=~>")) ++ blanks ++ keep .value anything1 ++ textEnd)]

end Recast.Grammar
