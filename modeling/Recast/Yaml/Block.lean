import Recast.Yaml.Flow

/-!
# Lists and tables by indentation

The entries of a table, and the items of a list, start in one column each on a line of its own.
What starts further to the right belongs to the entry or item before it.
-/

namespace Recast

namespace Yaml

/-! ## Cursors -/

/-- A place in a document: its column, and the text from there on. -/
structure Cursor where
  column : Nat
  rest : Text

namespace Cursor

/-- The place further on with the given text from there on. -/
def goTo (c : Cursor) (rest : Text) : Cursor where
  column :=
    (passed c.rest rest).foldl (fun column c ↦ if c == '\n' then 0 else column + 1) c.column
  rest := rest

/-- The next place at which something stands, and whether it is on another line. -/
def next (c : Cursor) : Cursor × Bool :=
  let rest := skipIdle c.rest
  (c.goTo rest, (passed c.rest rest).contains '\n')

/-- Whether nothing stands behind a place. -/
def isEnd (c : Cursor) : Bool :=
  (skipIdle c.rest).isEmpty

/-- Whether an item of a list starts here. -/
def startsItem (c : Cursor) : Bool :=
  match c.rest with
  | '-' :: rest => standsAlone rest
  | _ => false

/-- The key that starts here with its colon, and the place behind the colon. -/
def key? (c : Cursor) (least : Nat) : Option (Key × Cursor) := do
  let (key, behind) ← Yaml.key? false least c.rest
  match skipSpaces behind with
  | ':' :: rest =>
    if standsAlone rest && isKeySpan c.rest (':' :: rest) then some (key, c.goTo rest) else none
  | _ => none

end Cursor

/-! ## Blocks -/

/-- What follows an entry or an item of a block. -/
inductive Follow where
  /-- The block is complete. -/
  | complete
  /-- Something starts in the column of the block. -/
  | another (c : Cursor)
  /-- Something stands where nothing can stand. -/
  | stray

/-- What follows an entry or an item of a block in a column. -/
def Follow.of (column : Nat) (c : Cursor) : Follow :=
  let (c, onNewLine) := c.next
  if c.rest.isEmpty then complete
  else if !onNewLine || column < c.column then stray
  else if c.column < column then complete
  else another c

mutual

/-- A node that starts here; `keys` tells whether it can be a block.  A plain scalar does not go on
in lines that start before the column `least`. -/
def blockNode (fuel least : Nat) (keys : Bool) (c : Cursor) : Option (Value × Cursor) :=
  match fuel with
  | 0 => none
  | fuel + 1 =>
    if c.startsItem then do
      if !keys then none
      let (items, behind) ← blockItems fuel c.column false c
      return (.list items, behind)
    else if keys && (c.key? least).isSome then do
      let (entries, behind) ← blockEntries fuel c.column least c
      return (← tableOf? entries, behind)
    else do
      let (value, behind) ← node? least c.rest
      return (value, c.goTo behind)

/-- The entries of a table in a column, of which the first starts here. -/
def blockEntries (fuel column least : Nat) (c : Cursor) : Option (List (Key × Value) × Cursor) :=
  match fuel with
  | 0 => none
  | fuel + 1 => do
    let (key, behind) ← c.key? least
    let (value, behind) ← blockValue fuel column behind
    match Follow.of column behind with
    | .complete => return ([(key, value)], behind)
    | .another c => do
      let (entries, behind) ← blockEntries fuel column (column + 1) c
      return ((key, value) :: entries, behind)
    | .stray => none

/-- The value behind the colon of an entry.  A list may start in the column of the table. -/
def blockValue (fuel column : Nat) (c : Cursor) : Option (Value × Cursor) :=
  match fuel with
  | 0 => none
  | fuel + 1 =>
    let (start, onNewLine) := c.next
    if start.rest.isEmpty then some (.null, c)
    else if !onNewLine || column < start.column then
      blockNode fuel (column + 1) onNewLine start
    else if start.column = column && start.startsItem then do
      let (items, behind) ← blockItems fuel column true start
      return (.list items, behind)
    else some (.null, c)

/-- The items of a list in a column, of which the first starts here; `inTable` tells that an entry
of a table may follow in the same column. -/
def blockItems (fuel column : Nat) (inTable : Bool) (c : Cursor) :
    Option (List Value × Cursor) :=
  match fuel with
  | 0 => none
  | fuel + 1 => do
    let (item, behind) ← blockItem fuel column (c.goTo (c.rest.drop 1))
    match Follow.of column behind with
    | .complete => return ([item], behind)
    | .another c =>
      if c.startsItem then do
        let (items, behind) ← blockItems fuel column inTable c
        return (item :: items, behind)
      else if inTable then return ([item], behind)
      else none
    | .stray => none

/-- The item behind a dash, which may be missing. -/
def blockItem (fuel column : Nat) (c : Cursor) : Option (Value × Cursor) :=
  match fuel with
  | 0 => none
  | fuel + 1 =>
    let (start, onNewLine) := c.next
    if start.rest.isEmpty then some (.null, c)
    else if !onNewLine || column < start.column then blockNode fuel (column + 1) true start
    else some (.null, c)

end

end Yaml

end Recast
