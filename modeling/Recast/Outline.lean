import Recast.Language.Profile

/-!
# Outlines

The outline of a program is the forest of its lines by indentation: a line belongs to the nearest
line above it that is indented less, as long as no line in between is indented as little.  A line
that only closes a block is no node of its own; it ends the node of its width.
-/

namespace Recast

open Pattern

/-- What the line of a node is. -/
inductive NodeKind where
  | importLine
  | classLine
  | functionLine
  | ifLine
  | forLine
  | whileLine
  | blockLine
  | variableLine
  | statement
  | comment
  deriving DecidableEq, Repr

/-- The name under which the kind is reported. -/
def NodeKind.name : NodeKind → Text
  | importLine => "import"
  | classLine => "class"
  | functionLine => "function"
  | ifLine => "if"
  | forLine => "for"
  | whileLine => "while"
  | blockLine => "block"
  | variableLine => "variable"
  | statement => "statement"
  | comment => "comment"

/-- A line with the lines that belong to it. -/
inductive Node where
  | mk (kind : NodeKind) (name : Option Text) (lineStart lineEnd : Nat) (content : Text)
    (children : List Node)

namespace Node

def kind : Node → NodeKind
  | mk kind .. => kind

/-- What the line defines, if it can be told. -/
def name : Node → Option Text
  | mk _ name .. => name

/-- The number of the line, from zero. -/
def lineStart : Node → Nat
  | mk _ _ lineStart .. => lineStart

/-- The number of the last line that belongs to the node. -/
def lineEnd : Node → Nat
  | mk _ _ _ lineEnd .. => lineEnd

/-- The trimmed line. -/
def content : Node → Text
  | mk _ _ _ _ content _ => content

def children : Node → List Node
  | mk _ _ _ _ _ children => children

/-- The node and all nodes below it, in the order of their lines. -/
def flatten : Node → List Node
  | mk kind name lineStart lineEnd content children =>
    mk kind name lineStart lineEnd content children :: flattenAll children
where
  /-- The nodes of a forest, in the order of their lines. -/
  flattenAll : List Node → List Node
    | [] => []
    | node :: nodes => flatten node ++ flattenAll nodes

/-- How many nodes there are, the node itself and all below it. -/
def size : Node → Nat
  | mk _ _ _ _ _ children => 1 + sizeAll children
where
  /-- How many nodes a forest has. -/
  sizeAll : List Node → Nat
    | [] => 0
    | node :: nodes => size node + sizeAll nodes

end Node

namespace Outline

/-! ## What a line is -/

/-- Keywords, each followed by blanks. -/
def keywordRun (keywords : List Pattern) : Pattern :=
  anyOf keywords ++ blanks1

/-- What declares a variable in a script. -/
def binding : Pattern :=
  anyOf ["const", "let", "var"]

/-- A parameter list without nested parentheses. -/
def flatParens : Pattern :=
  '(' ++ most (.char (noneOf ")")) ++ ')'

def importPattern : Pattern :=
  textStart
    ++ anyOf
      ["import" ++ edge,
       "from" ++ blanks1 ++ most1 (.char (wordOr ".")) ++ blanks1 ++ "import" ++ edge,
       "#include" ++ edge,
       "using" ++ blanks1 ++ most1 (.char (wordOr ".")) ++ blanks ++ ';',
       "use" ++ blanks1 ++ most1 (.char (wordOr ":\\")),
       "require" ++ maybe (anyOf ["_relative", "_once"]) ++ edge,
       binding ++ blanks1 ++ word ++ blanks ++ '=' ++ blanks ++ "require("]

def classPattern : Pattern :=
  textStart
    ++ most
      (keywordRun
        ["export", "default", "public", "private", "protected", "internal", "abstract", "final",
         "static", "sealed", "partial", "pub"])
    ++ anyOf ["class", "struct", "interface", "trait", "enum", "module", "impl"] ++ blanks1
    ++ keep .name word

def typePattern : Pattern :=
  textStart ++ "type" ++ blanks1 ++ keep .name word ++ blanks1 ++ anyOf ["struct", "interface"]
    ++ edge

def functionPattern : Pattern :=
  textStart
    ++ most
      (keywordRun
        ["export", "default", "async", "pub", "public", "private", "protected", "internal",
         "static", "override", "virtual"])
    ++ anyOf ["def", "function", "func", "fn"] ++ blanks ++ maybe (flatParens ++ blanks)
    ++ maybe '*' ++ blanks ++ keep .name word

def arrowPattern : Pattern :=
  textStart ++ binding ++ blanks1 ++ keep .name word ++ blanks ++ '=' ++ blanks
    ++ maybe (keywordRun ["async"]) ++ (flatParens <|> word) ++ blanks ++ "=>"

def methodPattern : Pattern :=
  textStart
    ++ most1
      (keywordRun
        ["public", "private", "protected", "internal", "static", "final", "abstract", "override",
         "virtual", "async", "synchronized"])
    ++ maybe (most1 (.char (wordOr "<>[],.?")) ++ blanks1) ++ keep .name word ++ blanks ++ '('
    ++ most (.char (noneOf ";")) ++ ')' ++ blanks
    ++ maybe ("throws" ++ blanks1 ++ most1 (.char fun c ↦ wordOr ".," c || isBlank c)) ++ maybe '{'
    ++ textEnd

/-- The end of the block before, if the line starts with it. -/
def closer? : Pattern :=
  maybe ('}' ++ blanks)

def ifPattern : Pattern :=
  textStart ++ closer?
    ++ anyOf ["if", "elif", "elsif", "elseif", "else", "unless", "switch", "case", "match"] ++ edge

def forPattern : Pattern :=
  anyOf
    [textStart ++ anyOf ["for", "foreach"] ++ edge,
     ".each" ++ edge ++ anything ++ edge ++ "do" ++ edge,
     ".times" ++ blanks1 ++ "do" ++ edge]

def whilePattern : Pattern :=
  textStart ++ anyOf ["while", "until", "loop", "do"] ++ edge

def blockPattern : Pattern :=
  textStart ++ closer?
      ++ anyOf ["try", "catch", "except", "finally", "begin", "rescue", "ensure"] ++ edge
    <|> textStart ++ .char (oneOf ['{', '}'])

def declarationPattern : Pattern :=
  textStart
    ++ most1
      (keywordRun
        ["const", "let", "var", "val", "mut", "final", "static", "auto", "int", "long", "float",
         "double", "bool", "boolean", "string", "String", "char"])
    ++ maybe '$' ++ keep .name word ++ edge

def assignmentPattern : Pattern :=
  textStart ++ maybe '$'
    ++ keep .name (.char (fun c ↦ c.isAlpha || c == '_') ++ most (.char isWord)) ++ blanks
    ++ (":=" <|> maybe (':' ++ blanks ++ most1 (.char (noneOf "="))) ++ '=' ++ notAhead '=')

/-- The patterns of the kinds, tried in order. -/
def patterns : List (NodeKind × Pattern) :=
  [(.importLine, importPattern), (.classLine, classPattern), (.classLine, typePattern),
   (.functionLine, functionPattern), (.functionLine, arrowPattern), (.functionLine, methodPattern),
   (.ifLine, ifPattern), (.forLine, forPattern), (.whileLine, whilePattern),
   (.blockLine, blockPattern), (.variableLine, declarationPattern),
   (.variableLine, assignmentPattern)]

/-- The kind of a trimmed line by the first pattern found in it, and the name it defines. -/
def classifyBy (trimmed : Text) : List (NodeKind × Pattern) → NodeKind × Option Text
  | [] => (.statement, none)
  | (kind, pattern) :: others =>
    match pattern.search trimmed with
    | some found => (kind, found.reading.get? .name)
    | none => classifyBy trimmed others

/-- The kind of a trimmed line, and the name it defines. -/
def classify (profile : Profile) (trimmed : Text) : NodeKind × Option Text :=
  if profile.isComment trimmed then (.comment, none) else classifyBy trimmed patterns

/-- A line that does nothing but close. -/
def closerPattern : Pattern :=
  ('}' ++ most (.char fun c ↦ isBlank c || oneOf ";)," c) <|> "end") ++ textEnd

/-- Whether a trimmed line does nothing but close. -/
def isCloser (trimmed : Text) : Bool :=
  closerPattern.accepts trimmed

/-! ## The forest -/

/-- A node whose children are still being collected, the latest first. -/
structure OpenNode where
  /-- The width of its line. -/
  width : Nat
  kind : NodeKind
  name : Option Text
  lineStart : Nat
  lineEnd : Nat
  content : Text
  children : List Node

/-- The finished node. -/
def OpenNode.close (node : OpenNode) : Node :=
  .mk node.kind node.name node.lineStart node.lineEnd node.content node.children.reverse

/-- The outline so far: the open nodes, the innermost first, and the finished roots, the latest
first. -/
structure State where
  stack : List OpenNode
  roots : List Node

namespace State

/-- Finishes the innermost open node, which goes to its parent or to the roots. -/
def pop (state : State) : State :=
  match state.stack with
  | [] => state
  | [node] => { stack := [], roots := node.close :: state.roots }
  | node :: parent :: stack =>
    { state with stack := { parent with children := node.close :: parent.children } :: stack }

/-- Finishes open nodes, innermost first, as long as their width satisfies `p`. -/
def popWhile (p : Nat → Bool) (state : State) : State :=
  go state.stack.length state
where
  /-- At most `bound` nodes are open. -/
  go : (bound : Nat) → State → State
    | 0, state => state
    | bound + 1, state =>
      match state.stack with
      | node :: _ => if p node.width then go bound state.pop else state
      | [] => state

/-- Records that the line belongs to every open node. -/
def extend (line : Nat) (state : State) : State :=
  { state with stack := state.stack.map fun node ↦ { node with lineEnd := line } }

/-- Adds a line that is not blank. -/
def add (profile : Profile) (number : Nat) (line : Text) (state : State) : State :=
  let trimmed := Text.trim line
  let width := Text.width line
  let state := state.popWhile (width < ·)
  if isCloser trimmed && state.stack.head?.any (·.width = width) then (state.extend number).pop
  else
    let state := (state.popWhile (width ≤ ·)).extend number
    let (kind, name) := classify profile trimmed
    { state with
      stack :=
        { width := width
          kind := kind
          name := name
          lineStart := number
          lineEnd := number
          content := trimmed
          children := [] } :: state.stack }

/-- Adds the lines, numbered from `number` on; blank lines are passed over. -/
def addLines (profile : Profile) : (number : Nat) → List Text → State → State
  | _, [], state => state
  | number, line :: lines, state =>
    addLines profile (number + 1) lines
      (if Text.isVoid line then state else state.add profile number line)

end State

/-- The outline of a program. -/
def ofCode (profile : Profile) (code : Text) : List Node :=
  (((State.mk [] []).addLines profile 0 (Text.lines code)).popWhile fun _ ↦ true).roots.reverse

/-- The nodes of an outline, in the order of their lines. -/
def flatten (nodes : List Node) : List Node :=
  nodes.flatMap Node.flatten

/-- How many nodes an outline has. -/
def size (nodes : List Node) : Nat :=
  total Node.size nodes

end Outline

end Recast
