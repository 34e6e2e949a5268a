import Recast.Pattern.Basic

/-!
# Logical operators

The two spellings of conjunction and disjunction, and the change from one to the other in a piece
of code.
-/

namespace Recast.Logic

open Pattern

/-- A logical operator by its symbol and its word. -/
structure Operator where
  symbol : Text
  word : Text

def conjunction : Operator := { symbol := "&&", word := "and" }

def disjunction : Operator := { symbol := "||", word := "or" }

/-- Any spaces and tabs. -/
def spacing : Pattern :=
  most (.char isSpacing)

/-- Spaces and tabs, at least one. -/
def spacing1 : Pattern :=
  most1 (.char isSpacing)

/-- The symbol at the start of the code, with the spacing around it. -/
def Operator.leading (op : Operator) : Pattern :=
  textStart ++ keep .indent spacing ++ text op.symbol ++ spacing

/-- The symbol after something, with the spacing around it. -/
def Operator.inner (op : Operator) : Pattern :=
  after isInk ++ spacing ++ text op.symbol ++ spacing ++ ahead (.char isInk <|> textEnd)

/-- Writes the word for the symbol. -/
def Operator.toWord (op : Operator) (code : Text) : Text :=
  let spelled := op.leading.replace (fun reading ↦ reading.get .indent ++ op.word ++ " ") code
  op.inner.replace (fun _ ↦ " " ++ op.word ++ " ") spelled

/-- The word between spacing, with something on either side. -/
def Operator.spaced (op : Operator) : Pattern :=
  after isInk ++ spacing1 ++ text op.word ++ spacing1 ++ ahead (.char isInk)

/-- Writes the symbol for the word. -/
def Operator.toSymbol (op : Operator) (code : Text) : Text :=
  op.spaced.replace (fun _ ↦ " " ++ op.symbol ++ " ") code

/-- Words for symbols. -/
def toWords (code : Text) : Text :=
  disjunction.toWord (conjunction.toWord code)

/-- Symbols for words. -/
def toSymbols (code : Text) : Text :=
  disjunction.toSymbol (conjunction.toSymbol code)

end Recast.Logic
