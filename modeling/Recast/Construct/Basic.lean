import Recast.Language.Profile

/-!
# Constructs

A line of a program that is understood is a construct: a form that all languages share, such as
the header of a loop over a range, together with where the form stands in its line.
-/

namespace Recast

/-- What a construct is. -/
inductive Kind where
  | function
  | classDef
  | ifThen
  | elseIf
  | elseThen
  | blockEnd
  | pass
  | forRange
  | forEach
  | forCounted
  | whileLoop
  | tryBlock
  | catchClause
  | finallyBlock
  | raise
  | print
  | importModule
  | importNames
  | prologue
  | assign
  deriving DecidableEq, Repr

namespace Kind

/-- All kinds. -/
def all : List Kind :=
  [function, classDef, ifThen, elseIf, elseThen, blockEnd, pass, forRange, forEach, forCounted,
   whileLoop, tryBlock, catchClause, finallyBlock, raise, print, importModule, importNames,
   prologue, assign]

/-- The name under which a kind is reported. -/
def name : Kind → Text
  | function => "function"
  | classDef => "class"
  | ifThen => "if"
  | elseIf => "else_if"
  | elseThen => "else"
  | blockEnd => "block_end"
  | pass => "pass"
  | forRange => "for_range"
  | forEach => "for_each"
  | forCounted => "for_counted"
  | whileLoop => "while"
  | tryBlock => "try"
  | catchClause => "catch"
  | finallyBlock => "finally"
  | raise => "raise"
  | print => "print"
  | importModule => "import_module"
  | importNames => "import_names"
  | prologue => "prologue"
  | assign => "variable"

/-- The kind with the given name. -/
def ofName? (t : Text) : Option Kind :=
  all.find? (·.name == t)

end Kind

/-- What a construct says, in no particular language. -/
inductive Form where
  /-- A function; a parameter with a default value is written `name = value`. -/
  | function (name : Text) (params : List Text)
  | classDef (name : Text) (base : Option Text)
  | ifThen (cond : Text)
  | elseIf (cond : Text)
  | elseThen
  | blockEnd
  /-- A statement that does nothing. -/
  | pass
  /-- A loop over `start`, `start + step`, … short of `stop`. -/
  | forRange (var start stop step : Text)
  /-- A loop over a collection; several variables are separated by commas. -/
  | forEach (var iterable : Text)
  | forCounted (initial test update : Text)
  /-- A loop under a condition, which is empty for an endless loop. -/
  | whileLoop (cond : Text)
  | tryBlock
  | catchClause (excType excVar : Option Text)
  | finallyBlock
  /-- Raises an error of a type with a message, or a value, or what has been caught. -/
  | raise (error value message : Option Text)
  /-- Prints; `dropped` says that some arguments had to be left out. -/
  | print (args : List Text) (dropped : Bool)
  | importModule (module : Text) (localName : Option Text)
  | importNames (module : Text) (names : List Text)
  /-- A line that opens a file and has no meaning of its own. -/
  | prologue
  /-- Gives a variable a value. -/
  | assign (name value : Text)
  deriving DecidableEq, Repr

/-- The kind of a form. -/
def Form.kind : Form → Kind
  | function .. => .function
  | classDef .. => .classDef
  | ifThen _ => .ifThen
  | elseIf _ => .elseIf
  | elseThen => .elseThen
  | blockEnd => .blockEnd
  | pass => .pass
  | forRange .. => .forRange
  | forEach .. => .forEach
  | forCounted .. => .forCounted
  | whileLoop _ => .whileLoop
  | tryBlock => .tryBlock
  | catchClause .. => .catchClause
  | finallyBlock => .finallyBlock
  | raise .. => .raise
  | print .. => .print
  | importModule .. => .importModule
  | importNames .. => .importNames
  | prologue => .prologue
  | assign .. => .assign

/-- A form in its line. -/
structure Construct where
  form : Form
  /-- The indentation of the line. -/
  indent : Text
  /-- The line starts by closing the block before. -/
  closes : Bool
  /-- Where in the line the form starts and ends, if it is not the whole line. -/
  span : Option (Nat × Nat)
  deriving DecidableEq, Repr

def Construct.kind (construct : Construct) : Kind :=
  construct.form.kind

/-- Why a line that was understood cannot be recast. -/
inductive Fault where
  /-- The pattern of a kind does not read a part that the kind needs. -/
  | missingPart (kind : Kind) (slot : Slot)
  /-- The target language has no wording for a kind that it should have. -/
  | noWording (kind : Kind) (target : Language)
  deriving DecidableEq, Repr

/-- The wording of a fault. -/
def Fault.message : Fault → Text
  | missingPart kind _ => "incomplete " ++ kind.name
  | noWording kind target => "no " ++ target.name ++ " wording for " ++ kind.name

end Recast
