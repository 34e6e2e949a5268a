import Recast.Text.LineEnds

/-!
# Line differences

Two texts are compared line by line, by position.
-/

namespace Recast

/-- What can become of a line. -/
inductive Fate where
  | unchanged
  | changed
  | added
  | removed
  deriving DecidableEq, Repr

/-- What became of a line, with the lines themselves. -/
inductive Change where
  | unchanged (line : Text)
  | changed (before after : Text)
  | added (line : Text)
  | removed (line : Text)
  deriving DecidableEq, Repr

namespace Change

def fate : Change → Fate
  | unchanged _ => .unchanged
  | changed .. => .changed
  | added _ => .added
  | removed _ => .removed

/-- The line of the first text. -/
def before? : Change → Option Text
  | unchanged line | changed line _ | removed line => some line
  | added _ => none

/-- The line of the second text. -/
def after? : Change → Option Text
  | unchanged line | changed _ line | added line => some line
  | removed _ => none

/-- The comparison of two lines. -/
def ofLines (before after : Text) : Change :=
  if before = after then unchanged before else changed before after

end Change

/-- The comparison of two lists of lines; what one has and the other lacks was added or removed. -/
def compareLines : List Text → List Text → List Change
  | [], [] => []
  | [], after :: afters => .added after :: compareLines [] afters
  | before :: befores, [] => .removed before :: compareLines befores []
  | before :: befores, after :: afters =>
    Change.ofLines before after :: compareLines befores afters

/-- An entry of a comparison: the number of a line and what became of it. -/
structure Difference where
  number : Nat
  change : Change
  deriving DecidableEq, Repr

/-- The changes as entries, the first of them with the given number. -/
def numberFrom : (number : Nat) → List Change → List Difference
  | _, [] => []
  | number, change :: changes =>
    { number := number, change := change } :: numberFrom (number + 1) changes

/-- The comparison of two texts, whose lines are numbered from one on. -/
def compareTexts (before after : Text) : List Difference :=
  numberFrom 1 (compareLines (Text.splitLines before) (Text.splitLines after))

/-- How many lines met each fate. -/
structure ChangeCounts where
  unchanged : Nat
  changed : Nat
  added : Nat
  removed : Nat
  deriving DecidableEq, Repr

/-- How many entries tell of a fate. -/
def countFate (fate : Fate) (differences : List Difference) : Nat :=
  differences.countP (·.change.fate = fate)

/-- Counts the entries of a comparison. -/
def ChangeCounts.ofDifferences (differences : List Difference) : ChangeCounts where
  unchanged := countFate .unchanged differences
  changed := countFate .changed differences
  added := countFate .added differences
  removed := countFate .removed differences

end Recast
