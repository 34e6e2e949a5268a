import Recast.Language.Profile

/-!
# Headers that lack their opener

The headers of blocks, as they look when the colon or brace that should follow has been left out.
-/

namespace Recast.Normalization

open Pattern

/-- Modifiers, each followed by blanks. -/
def modifier (keywords : List Pattern) : Pattern :=
  anyOf keywords ++ blanks1

/-- The end of the block before, if the line starts with it. -/
def closer? : Pattern :=
  maybe ('}' ++ blanks)

/-- Any spelling of the keyword that starts a further branch, after the end of the block
before. -/
def elseIfKeyword : Pattern :=
  keep .indent (blanks ++ closer?)
    ++ anyOf ["elif", "elsif", "elseif", "else" ++ blanks1 ++ "if"] ++ edge

/-- A line that opens a block in a language that delimits by indentation. -/
def indentHeader : Pattern :=
  blanks ++ maybe (modifier ["async"])
    ++ anyOf
      ["def" ++ blanks1 ++ word, "class" ++ blanks1 ++ word, "if" ++ edge, "elif" ++ edge,
       "else" ++ blanks1 ++ "if" ++ edge, "elsif" ++ edge, "else" ++ edge, "for" ++ edge,
       "while" ++ edge, "try" ++ edge, "except" ++ edge, "finally" ++ edge, "with" ++ edge]

/-- The headers that only a language without braces writes like this. -/
def colonOnlyHeaders : List Pattern :=
  [blanks ++ maybe (modifier ["async"]) ++ "def" ++ blanks1 ++ word ++ blanks ++ '('
     ++ anything ++ ')' ++ blanks
     ++ maybe ("->" ++ blanks ++ most1 (.char (noneOf [':', '{']))) ++ textEnd,
   blanks ++ "elif" ++ edge,
   blanks ++ "for" ++ blanks1 ++ word ++ most (blanks ++ ',' ++ blanks ++ word)
     ++ blanks1 ++ "in" ++ blanks1,
   blanks ++ "except" ++ edge,
   blanks ++ anyOf ["if", "while"] ++ blanks1 ++ notAhead '(']

/-- A keyword before the parenthesis of its condition. -/
def parenHeader : Pattern :=
  blanks ++ closer? ++ maybe (modifier ["else"])
    ++ anyOf ["if", "for", "while", "switch", "catch"] ++ blanks ++ ahead '('

/-- A function from its keyword to the end of its parameters. -/
def functionHeader : Pattern :=
  blanks ++ maybe (modifier ["export"]) ++ maybe (modifier ["async"]) ++ "function"
    ++ edge ++ most (.char (noneOf ['{', ';'])) ++ ')' ++ textEnd

/-- A keyword that is a header by itself. -/
def bareHeader : Pattern :=
  blanks ++ closer? ++ anyOf ["else", "try", "finally", "do"] ++ textEnd

/-- A class from its modifiers to the end of the line. -/
def classHeader : Pattern :=
  blanks
    ++ most (modifier ["public", "private", "protected", "abstract", "final", "static", "export"])
    ++ "class" ++ blanks1 ++ word ++ most (.char (noneOf ['{', ';'])) ++ textEnd

/-- The exceptions that a method declares. -/
def throwsClause : Pattern :=
  "throws" ++ blanks1 ++ most1 (.char fun c ↦ wordOr ".," c || isBlank c)

/-- A method from its modifiers to the end of its parameters. -/
def methodHeader : Pattern :=
  blanks
    ++ most1
      (modifier
        ["public", "private", "protected", "static", "final", "abstract", "virtual", "override",
         "async"])
    ++ fewest (.char fun c ↦ wordOr "<>[],.?" c || isBlank c) ++ word ++ blanks ++ '('
    ++ most (.char (noneOf ";")) ++ ')' ++ maybe (blanks ++ throwsClause) ++ textEnd

/-- A header without parentheses around its condition. -/
def parenlessHeader : Pattern :=
  blanks ++ closer?
    ++ anyOf
      [maybe (modifier ["else"]) ++ "if" ++ blanks1 ++ .char isInk ++ anything,
       "for" ++ edge ++ anything,
       "loop", "match" ++ blanks1 ++ .char isInk ++ anything,
       "impl" ++ edge ++ anything,
       "struct" ++ blanks1 ++ word ++ anything,
       "func" ++ blanks1 ++ anything ++ ')'
         ++ maybe (blanks ++ most1 (.char fun c ↦ wordOr "[]*().," c || isBlank c)),
       maybe (modifier ["pub"]) ++ "fn" ++ blanks1 ++ anything ++ ')'
         ++ maybe (blanks ++ "->" ++ blanks ++ anything1)]
    ++ textEnd

/-- An output statement without parentheses. -/
def printStatement : Pattern :=
  keep .indent blanks ++ "print" ++ blanks1 ++ notAhead (.char (oneOf "=("))
    ++ keep .args (.char isInk ++ anything) ++ textEnd

/-- A loop whose header may hold empty parts. -/
def forParen : Pattern :=
  edge ++ "for" ++ blanks ++ '('

/-- Terminators in a row. -/
def terminatorRun : Pattern :=
  ';' ++ most1 ';'

end Recast.Normalization
