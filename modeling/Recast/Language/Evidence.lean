import Recast.Language.Profile

/-!
# Evidence for a language

What betrays the language of a program: fingerprints, which are counted, and clues, which are
weighed.  Each is a pattern that occurs somewhere in the program, on any of its lines.
-/

namespace Recast

open Pattern

/-- A pattern after the indentation of a line. -/
def lineOf (p : Pattern) : Pattern :=
  lineStart ++ blanks ++ p

/-- A call of the given name. -/
def callOf (p : Pattern) : Pattern :=
  edge ++ p ++ blanks ++ '('

namespace Language

/-- The heads of a definition with `def`. -/
def defHead : Pattern :=
  lineOf (maybe ("async" ++ blanks1) ++ "def" ++ blanks1 ++ word ++ blanks ++ '(')

/-- A line that starts with one of the keywords and ends in a colon. -/
def colonHeader (keywords : List Pattern) : Pattern :=
  lineOf (anyOf keywords ++ edge ++ anything ++ ':' ++ blanks ++ lineEnd)

def pythonLiteral : Pattern :=
  edge ++ anyOf ["True", "False", "None"] ++ edge

def scriptBinding : Pattern :=
  lineOf (anyOf ["const", "let", "var"] ++ blanks1 ++ word)

def annotatedType : Pattern :=
  ':' ++ blanks ++ anyOf ["string", "number", "boolean", "any", "void", "unknown"] ++ edge

def interfaceHead : Pattern :=
  lineOf (maybe ("export" ++ blanks1) ++ "interface" ++ blanks1 ++ word)

def typeAlias : Pattern :=
  lineOf (maybe ("export" ++ blanks1) ++ "type" ++ blanks1 ++ word ++ blanks ++ '=')

def publicMember : Pattern :=
  edge ++ "public" ++ blanks1 ++ maybe ("static" ++ blanks1) ++ maybe ("final" ++ blanks1)
    ++ anyOf ["class", "void", "int", "String"] ++ edge

def includeLine : Pattern :=
  lineOf ("#include" ++ blanks ++ .char (oneOf ['<', '"']))

def packageLine : Pattern :=
  lineOf ("package" ++ blanks1 ++ word)

def fmtCall : Pattern :=
  callOf ("fmt." ++ word)

def fnHead : Pattern :=
  edge ++ "fn" ++ blanks1 ++ word ++ blanks ++ .char (oneOf "(<")

def letMut : Pattern :=
  edge ++ "let" ++ blanks1 ++ "mut" ++ edge

def usingSystem : Pattern :=
  lineOf ("using" ++ blanks1 ++ "System" ++ edge)

def consoleWrite : Pattern :=
  callOf ("Console.Write" ++ maybe "Line")

def namespaceLine : Pattern :=
  lineOf ("namespace" ++ blanks1 ++ most1 (.char (wordOr ".")))

def sigilAssignment : Pattern :=
  '$' ++ word ++ blanks ++ '='

def echoLine : Pattern :=
  lineOf ("echo" ++ blanks1)

def endLine : Pattern :=
  lineOf ("end" ++ blanks ++ lineEnd)

def putsLine : Pattern :=
  lineOf ("puts" ++ blanks1)

def blockArgument : Pattern :=
  edge ++ "do" ++ blanks ++ '|' ++ word

def requireLine : Pattern :=
  lineOf ("require" ++ maybe "_relative" ++ blanks1 ++ .char (oneOf ['\'', '"']))

/-- The patterns that a program in the language is likely to hold. -/
def fingerprints : Language → List Pattern
  | python =>
    [defHead,
     colonHeader
       ["if", "elif", "else", "for", "while", "def", "class", "try", "except", "finally", "with"],
     lineOf ("elif" ++ edge),
     callOf "print",
     edge ++ "self.",
     lineOf ("from" ++ blanks1 ++ most1 (.char (wordOr ".")) ++ blanks1 ++ "import" ++ edge),
     pythonLiteral]
  | javascript =>
    [edge ++ "function" ++ edge, callOf "console.log", scriptBinding, "=>", "===" <|> "!==",
     '{' ++ blanks ++ lineEnd, ';' ++ blanks ++ lineEnd]
  | typescript => [annotatedType, interfaceHead, typeAlias]
  | java =>
    [edge ++ "System.out.print", publicMember, edge ++ "String[]",
     lineOf ("import" ++ blanks1 ++ "java.")]
  | cpp =>
    [includeLine, edge ++ "std::", edge ++ "cout" ++ blanks ++ "<<", edge ++ "nullptr" ++ edge]
  | go => [packageLine, edge ++ "func" ++ blanks1 ++ word ++ blanks ++ '(', ":=", fmtCall]
  | rust => [fnHead, letMut, callOf "println!", lineOf ("impl" ++ edge)]
  | csharp => [usingSystem, consoleWrite, namespaceLine]
  | php => ["<?php", sigilAssignment, echoLine, "$this->"]
  | ruby => [endLine, putsLine, lineOf ("elsif" ++ edge), blockArgument, requireLine]

/-- The patterns that speak for the language, with the weight of each. -/
def clues : Language → List (Pattern × Nat)
  | python =>
    [(defHead, 3),
     (lineOf ("elif" ++ edge), 3),
     (colonHeader ["if", "for", "while", "def", "class", "try", "except", "with"], 2),
     (lineOf
        (maybe ("from" ++ blanks1 ++ most1 (.char (wordOr ".")) ++ blanks1) ++ "import" ++ blanks1
          ++ word ++ blanks ++ lineEnd), 1),
     (callOf "print", 1),
     (edge ++ "self.", 1),
     (pythonLiteral, 1)]
  | javascript =>
    [(edge ++ "function" ++ edge, 2), (callOf "console.log", 3), (scriptBinding, 2), ("=>", 2),
     ("===" <|> "!==", 1)]
  | typescript => [(annotatedType, 3), (interfaceHead, 3), (typeAlias, 2)]
  | java =>
    [(edge ++ "System.out.print", 3), (publicMember, 3),
     (edge ++ "private" ++ blanks1 ++ maybe ("static" ++ blanks1) ++ word ++ blanks1 ++ word, 1),
     (edge ++ "String[]", 1)]
  | cpp =>
    [(includeLine, 4), (edge ++ "std::", 3), (edge ++ "cout" ++ blanks ++ "<<", 2),
     (edge ++ "nullptr" ++ edge, 1)]
  | go =>
    [(packageLine, 3),
     (edge ++ "func" ++ blanks1 ++ maybe ('(' ++ most (.char (noneOf ")")) ++ ')' ++ blanks)
        ++ word ++ blanks ++ '(', 3),
     (":=", 2), (fmtCall, 2)]
  | rust => [(fnHead, 3), (letMut, 3), (callOf "println!", 3), (lineOf ("impl" ++ edge), 1)]
  | csharp => [(usingSystem, 3), (consoleWrite, 3), (namespaceLine, 2)]
  | php => [("<?php", 5), (sigilAssignment, 2), (echoLine, 2), ("$this->", 2)]
  | ruby =>
    [(endLine, 2), (putsLine, 3), (lineOf ("elsif" ++ edge), 3), (blockArgument, 2),
     (requireLine, 1)]

end Language

end Recast
