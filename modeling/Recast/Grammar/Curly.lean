import Recast.Grammar.Basic

/-!
# What the curly-brace languages share

Conditions stand in parentheses, a brace opens the block, and a terminator may end a statement.
-/

namespace Recast.Grammar

open Pattern

/-- A condition in parentheses, up to the end of the line. -/
def parenCondition : Pattern :=
  blanks ++ keep .paren '(' ++ keep .cond anything ++ ')' ++ blanks ++ brace?

def curlyElse : Category × Recognizer :=
  entry .conditionals .elseThen (indent ++ closer? ++ "else" ++ blanks ++ brace?)

def curlyConditionals : Grammar :=
  [entry .conditionals .ifThen (indent ++ "if" ++ parenCondition),
   entry .conditionals .elseIf (indent ++ closer? ++ elseIf ++ parenCondition),
   curlyElse]

def curlyFor : Category × Recognizer :=
  entry .loops .forCounted
    (indent ++ "for" ++ blanks ++ '(' ++ keep .initial (without ";") ++ ';'
      ++ keep .test (without ";") ++ ';' ++ keep .update (without ")") ++ ')' ++ blanks ++ brace?)

def curlyWhile : Category × Recognizer :=
  entry .loops .whileLoop (indent ++ "while" ++ parenCondition)

def curlyTry : Category × Recognizer :=
  entry .exceptions .tryBlock (indent ++ "try" ++ blanks ++ brace?)

def curlyFinally : Category × Recognizer :=
  entry .exceptions .finallyBlock (indent ++ closer? ++ "finally" ++ blanks ++ brace?)

/-- Throws a new error. -/
def curlyThrowNew : Category × Recognizer :=
  entry .exceptions .raise
    (indent ++ "throw" ++ blanks1 ++ "new" ++ blanks1 ++ keep .error (wordsOr ".\\") ++ blanks
      ++ '(' ++ keep .message anything ++ ')' ++ blanks ++ terminator?)

/-- Throws a value by its name. -/
def curlyRethrow : Category × Recognizer :=
  entry .exceptions .raise
    (indent ++ "throw" ++ blanks1 ++ keep .value word ++ blanks ++ terminator?)

/-- Throws again what was caught. -/
def curlyBareRethrow : Category × Recognizer :=
  entry .exceptions .raise (indent ++ "throw" ++ blanks ++ terminator?)

/-- No keyword that could be taken for the name of a function. -/
def notKeyword : Pattern :=
  notAhead
    (anyOf
      ["if", "else", "while", "for", "foreach", "switch", "catch", "return", "new", "throw", "do",
       "try", "function", "using"]
      ++ edge)

/-- A type as a method or a loop variable names it. -/
def typeName : Pattern :=
  wordsOr "<>[],.?"

/-- The exceptions that a method may declare. -/
def throwsClause? : Pattern :=
  maybe ("throws" ++ blanks1 ++ most1 (.char fun c ↦ wordOr ".," c || isBlank c))

/-- A method with at least one modifier. -/
def curlyMethod (modifiers : List Pattern) : Category × Recognizer :=
  entry .functions .function
    (indent ++ most1 (modifier modifiers) ++ maybe ('<' ++ without1 ">" ++ '>' ++ blanks1)
      ++ maybe
        (notAhead (anyOf ["class", "interface", "enum", "record", "struct"] ++ edge) ++ typeName
          ++ blanks1)
      ++ keep .name word ++ blanks ++ '(' ++ keep .params (without ";") ++ ')' ++ blanks
      ++ throwsClause? ++ brace?)

/-- A value up to the terminator. -/
def terminatedValue : Pattern :=
  keep .value little1 ++ terminator?

/-- The name of a type, which starts with a capital letter. -/
def capitalized : Pattern :=
  .char (·.isUpper) ++ most (.char isWord)

/-- The declared type of a variable: a type argument and array brackets may follow. -/
def generic : Pattern :=
  capitalized ++ maybe ('<' ++ without "=" ++ '>') ++ most "[]"

end Recast.Grammar
