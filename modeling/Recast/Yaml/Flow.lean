import Recast.Yaml.Quotes
import Recast.Yaml.Scalar

/-!
# Scalars, lists and tables in a running text

A scalar, or a list or a table between brackets, with the text behind it.  Line ends count as spaces
here.  What is not well formed has no reading.
-/

namespace Recast

namespace Yaml

/-! ## Blanks -/

/-- The text without the spaces before it. -/
def skipSpaces (t : Text) : Text :=
  t.dropWhile (· == ' ')

/-- The text behind spaces, line ends and comments; `comment` tells that it starts inside one. -/
def skipFrom (comment : Bool) : Text → Text
  | [] => []
  | c :: rest =>
    if c == '\n' then skipFrom false rest
    else if comment || c == ' ' then skipFrom comment rest
    else if c == '#' then skipFrom true rest
    else c :: rest

/-- The text behind spaces, line ends and comments. -/
def skipIdle (t : Text) : Text :=
  skipFrom false t

/-- What stands between a text and the text behind it. -/
def passed (t behind : Text) : Text :=
  t.take (t.length - behind.length)

/-- Whether a mark with this text behind it stands alone. -/
def standsAlone : Text → Bool
  | [] => true
  | c :: _ => c == ' ' || c == '\t' || c == '\n'

/-! ## Plain scalars -/

/-- What separates nodes between brackets. -/
def isFlowMark (c : Char) : Bool :=
  [',', '[', ']', '{', '}'].contains c

/-- Whether a colon with this text behind it ends a key. -/
def endsKey (flow : Bool) (t : Text) : Bool :=
  standsAlone t || flow && t.head?.any isFlowMark

/-- Whether a plain scalar can start here. -/
def startsPlain (flow : Bool) : Text → Bool
  | [] => false
  | '-' :: rest => !standsAlone rest
  | '?' :: rest => !flow && !standsAlone rest
  | ':' :: rest => !flow && !standsAlone rest
  | c :: _ => !isFlowMark c && !(" \t\n#&*!|>\x27\"%@\x60".toList.contains c)

/-- Whether a plain scalar ends before this character.  `gap` stands between it and the last word,
and `column` is its column if the gap has a line end; outside of brackets a line that starts before
the column `least` is no part of the scalar. -/
def endsPlain (flow : Bool) (least : Nat) (gap : Gap) (column : Nat) (c : Char) (rest : Text) :
    Bool :=
  let afterLine :=
    match gap with
    | .lines _ => true
    | _ => false
  c == '\t' || c == '#' && gap != .none || c == ':' && endsKey flow rest
    || flow && (isFlowMark c || c == '?') || !flow && afterLine && column < least

/-- The rest of a plain scalar, and the text behind it.  `behind` is the text behind the last
word. -/
def plainFrom (flow : Bool) (least : Nat) : Gap → Nat → Text → Text → Text × Text
  | _, _, behind, [] => ([], behind)
  | gap, column, behind, c :: rest =>
    if c == ' ' then plainFrom flow least (gap.space c) (column + 1) behind rest
    else if c == '\n' then plainFrom flow least gap.lineEnd 0 behind rest
    else if endsPlain flow least gap column c rest then ([], behind)
    else
      let (t, behind) := plainFrom flow least .none (column + 1) rest rest
      (gap.text ++ c :: t, behind)

/-- A plain scalar, and the text behind it. -/
def plain? (flow : Bool) (least : Nat) (t : Text) : Option (Text × Text) :=
  if startsPlain flow t then some (plainFrom flow least .none 0 t t) else none

/-! ## Keys -/

/-- A key of a table. -/
inductive Key where
  /-- The entries of another table. -/
  | merge
  | named (value : Value)

/-- The key that a plain scalar is. -/
def Key.ofPlain? (t : Text) : Option Key :=
  if t == mergeWord then some .merge
  else if t == defaultWord then some (.named (.text t))
  else (scalar? t).map .named

/-- A key, and the text behind it. -/
def key? (flow : Bool) (least : Nat) (t : Text) : Option (Key × Text) :=
  match t with
  | '"' :: rest => (doubleQuoted .none rest).map fun (t, behind) ↦ (.named (.text t), behind)
  | '\x27' :: rest => (singleQuoted .none rest).map fun (t, behind) ↦ (.named (.text t), behind)
  | _ => do
    let (word, behind) ← plain? flow least t
    return (← Key.ofPlain? word, behind)

/-- How far the colon behind a key may be away from the start of the key. -/
def longestKey : Nat :=
  1024

/-- Whether a key from `t` on can end at `colon`. -/
def isKeySpan (t colon : Text) : Bool :=
  let span := passed t colon
  !span.contains '\n' && span.length ≤ longestKey

/-- The entries that a key for other entries asks for. -/
def merged? : Value → Option (List (Value × Value))
  | .table entries => some entries
  | .list tables =>
    tables.foldl
      (fun entries? table ↦
        match entries?, table with
        | some entries, .table others => some (others ++ entries)
        | _, _ => none)
      (some [])
  | _ => none

/-- The table with these entries; entries of other tables come before its own. -/
def tableOf? (entries : List (Key × Value)) : Option Value := do
  let others ← entries.filterMapM fun entry ↦
    match entry with
    | (.merge, value) => (merged? value).map some
    | (.named _, _) => some none
  let own := entries.filterMap fun entry ↦
    match entry with
    | (.merge, _) => none
    | (.named key, value) => some (key, value)
  return .table (others.flatten ++ own)

/-! ## Brackets -/

mutual

/-- A node between brackets; `fuel` bounds its length. -/
def flowNode (fuel : Nat) (t : Text) : Option (Value × Text) :=
  match fuel with
  | 0 => none
  | fuel + 1 =>
    match t with
    | '"' :: rest => (doubleQuoted .none rest).map fun (t, behind) ↦ (.text t, behind)
    | '\x27' :: rest => (singleQuoted .none rest).map fun (t, behind) ↦ (.text t, behind)
    | '[' :: rest => (flowItems fuel rest).map fun (items, behind) ↦ (.list items, behind)
    | '{' :: rest => do
      let (entries, behind) ← flowEntries fuel rest
      return (← tableOf? entries, behind)
    | _ => do
      let (word, behind) ← plain? true 0 t
      return (← scalar? word, behind)

/-- An item of a list: a node, or an entry that makes up a table. -/
def flowItem (fuel : Nat) (t : Text) : Option (Value × Text) :=
  match fuel with
  | 0 => none
  | fuel + 1 =>
    match key? true 0 t with
    | some (key, behind) =>
      match skipSpaces behind with
      | ':' :: rest => do
        if !isKeySpan t (':' :: rest) then none
        let (value, behind) ← flowValue fuel rest
        return (← tableOf? [(key, value)], behind)
      | _ => flowNode fuel t
    | none => flowNode fuel t

/-- The items up to the closing bracket of a list. -/
def flowItems (fuel : Nat) (t : Text) : Option (List Value × Text) :=
  match fuel with
  | 0 => none
  | fuel + 1 =>
    match skipIdle t with
    | ']' :: rest => some ([], rest)
    | t => do
      let (item, rest) ← flowItem fuel t
      match skipIdle rest with
      | ',' :: rest => do
        let (items, rest) ← flowItems fuel rest
        return (item :: items, rest)
      | ']' :: rest => return ([item], rest)
      | _ => none

/-- The entries up to the closing brace of a table; a key may stand alone. -/
def flowEntries (fuel : Nat) (t : Text) : Option (List (Key × Value) × Text) :=
  match fuel with
  | 0 => none
  | fuel + 1 =>
    match skipIdle t with
    | '}' :: rest => some ([], rest)
    | t => do
      let (key, behind) ← key? true 0 t
      let (value, rest) ←
        match skipSpaces behind with
        | ':' :: rest => if isKeySpan t (':' :: rest) then flowValue fuel rest else none
        | _ => some (.null, behind)
      match skipIdle rest with
      | ',' :: rest => do
        let (entries, rest) ← flowEntries fuel rest
        return ((key, value) :: entries, rest)
      | '}' :: rest => return ([(key, value)], rest)
      | _ => none

/-- The value behind a colon, which may be missing. -/
def flowValue (fuel : Nat) (t : Text) : Option (Value × Text) :=
  match fuel with
  | 0 => none
  | fuel + 1 =>
    match skipIdle t with
    | ',' :: rest => some (.null, ',' :: rest)
    | ']' :: rest => some (.null, ']' :: rest)
    | '}' :: rest => some (.null, '}' :: rest)
    | t => flowNode fuel t

end

/-- A scalar, or a list or a table between brackets, and the text behind it. -/
def node? (least : Nat) (t : Text) : Option (Value × Text) :=
  match t with
  | '"' :: _ | '\x27' :: _ | '[' :: _ | '{' :: _ => flowNode (3 * t.length + 3) t
  | _ => do
    let (word, behind) ← plain? false least t
    return (← scalar? word, behind)

end Yaml

end Recast
