import Recast.Proofs.Layout.Forest
import Recast.Proofs.Text.Trim

/-!
# The ledger of blocks

Closing blocks by indentation opens and ends blocks line by line.  The ledger of a run records what
becomes of each block: it gets a closer, or a line of its own width takes it over.  The blocks are
known by the place and the text of the line that opened them, so that the ledger says not only how
many closers are written but for which block each of them is.

Everything rests on the open blocks being nested, each deeper than the one around it.  Then a line
ends the blocks that are at least as deep as itself, whatever else it does, and no others.
-/

namespace Recast.Layout

/-! ## Nested blocks -/

/-- Whether each open block is deeper than those around it, the innermost first. -/
def Nested (stack : List Text) : Prop :=
  stack.Pairwise fun inner outer ↦ outer.length < inner.length

section Nested

variable {stack : List Text} {effect : Effect} {indent : Text} {width : Nat}

/-- A condition that holds of the blocks inside whenever it holds of those around holds of the
first blocks of the stack. -/
theorem Nested.takeWhile_eq_filter {p : Text → Bool} (h : Nested stack)
    (hp : ∀ inner outer : Text, outer.length < inner.length → p outer → p inner) :
    stack.takeWhile p = stack.filter p := by
  induction h with
  | nil => rfl
  | @cons inner stack hinner _ ih =>
    by_cases hfirst : p inner
    · rw [List.takeWhile_cons_of_pos hfirst, List.filter_cons_of_pos hfirst, ih]
    · have hnone : stack.filter p = [] := by
        refine List.filter_eq_nil_iff.2 fun outer houter hholds ↦ hfirst ?_
        exact hp inner outer (hinner outer houter) hholds
      rw [List.takeWhile_cons_of_neg hfirst, List.filter_cons_of_neg hfirst, hnone]

theorem Nested.dropWhile_eq_filter {p : Text → Bool} (h : Nested stack)
    (hp : ∀ inner outer : Text, outer.length < inner.length → p outer → p inner) :
    stack.dropWhile p = stack.filter (!p ·) :=
  Text.dropWhile_eq_filter (List.Pairwise.imp (fun hlt ↦ hp _ _ hlt) h)

theorem isEnded_mono {inner outer : Text} (hlt : outer.length < inner.length)
    (h : isEnded effect width outer) : isEnded effect width inner := by
  simp only [isEnded, Bool.or_eq_true, Bool.and_eq_true, decide_eq_true_eq] at h ⊢
  omega

theorem Nested.takeWhile_isEnded (h : Nested stack) :
    stack.takeWhile (isEnded effect width) = stack.filter (isEnded effect width) :=
  h.takeWhile_eq_filter fun _ _ hlt ↦ isEnded_mono hlt

theorem Nested.dropWhile_isEnded (h : Nested stack) :
    stack.dropWhile (isEnded effect width) = stack.filter (!isEnded effect width ·) :=
  h.dropWhile_eq_filter fun _ _ hlt ↦ isEnded_mono hlt

/-- If no open block is deeper than a line, then the one of its own width is the first. -/
theorem dropOwn_eq_filter (h : Nested stack) (hwidth : ∀ indent ∈ stack, indent.length ≤ width) :
    dropOwn width stack = stack.filter (·.length < width) := by
  cases h with
  | nil => rfl
  | @cons inner stack hinner _ =>
    have houter : stack.filter (·.length < width) = stack := by
      refine List.filter_eq_self.2 fun outer houter ↦ ?_
      have hlt := hinner outer houter
      have hle := hwidth inner List.mem_cons_self
      exact decide_eq_true (by omega)
    rw [dropOwn, List.filter_cons, houter]
    have hle := hwidth inner List.mem_cons_self
    by_cases hown : inner.length = width
    · rw [if_pos hown, if_neg (by simp [hown])]
    · rw [if_neg hown, if_pos (decide_eq_true (by omega))]

/-- What a line leaves open are the blocks that are less deep than itself; the one that it opens is
added to them. -/
theorem Nested.stackAfter_eq (h : Nested stack) :
    stackAfter effect indent stack
      = (if effect.reopens then [indent] else []) ++ stack.filter (·.length < indent.length) := by
  have hleft : (if effect.endsOwnDepth then stack.dropWhile (isEnded effect indent.length)
      else dropOwn indent.length (stack.dropWhile (isEnded effect indent.length)))
        = stack.filter (·.length < indent.length) := by
    rw [h.dropWhile_isEnded]
    by_cases hown : effect.endsOwnDepth
    · rw [if_pos hown]
      refine List.filter_congr fun outer _ ↦ ?_
      simp only [isEnded, hown, Bool.true_and, ← Bool.decide_or, ← decide_not]
      exact decide_eq_decide.2 (by omega)
    · have hle : ∀ outer ∈ stack.filter (!isEnded effect indent.length ·),
          outer.length ≤ indent.length := by
        intro outer houter
        have hnot := (List.mem_filter.1 houter).2
        simp only [isEnded, hown, Bool.false_and, Bool.or_false, Bool.not_eq_true',
          decide_eq_false_iff_not] at hnot
        omega
      rw [if_neg hown, dropOwn_eq_filter (h.filter _) hle, List.filter_filter]
      refine List.filter_congr fun outer _ ↦ ?_
      simp only [isEnded, hown, Bool.false_and, Bool.or_false, ← decide_not, ← Bool.decide_and]
      exact decide_eq_decide.2 (by omega)
  rw [stackAfter, hleft]
  split <;> rfl

/-- A line keeps the blocks nested. -/
theorem nested_stackAfter (h : Nested stack) (effect : Effect) (indent : Text) :
    Nested (stackAfter effect indent stack) := by
  rw [h.stackAfter_eq]
  split
  · refine List.pairwise_cons.2 ⟨fun outer houter ↦ ?_, h.filter _⟩
    exact of_decide_eq_true (List.mem_filter.1 houter).2
  · exact h.filter _

end Nested

/-! ## The open blocks of a run -/

/-- The blocks that are open after the lines, given those that are open before them. -/
def openAfter (target : Profile) (stack lines : List Text) : List Text :=
  (lines.filter (!Text.isVoid ·)).foldl
    (fun stack line ↦ stackAfter (effect target line) (Text.indentation line) stack) stack

section Open

variable {target : Profile} {stack blanks lines : List Text} {line : Text}

theorem closeFrom_of_isVoid (hline : Text.isVoid line) :
    closeFrom target stack blanks (line :: lines)
      = closeFrom target stack (blanks ++ [line]) lines := by
  rw [closeFrom, if_pos hline]

/-- The closers that a line puts stand before the blank lines that were held back. -/
theorem closeFrom_cons_of_blanks (hline : Text.isVoid line = false) :
    closeFrom target stack blanks (line :: lines)
      = (stack.takeWhile (isEnded (effect target line) (Text.width line))).map (· ++ target.closer)
        ++ (blanks ++ line :: closeFrom target
          (stackAfter (effect target line) (Text.indentation line) stack) [] lines) := by
  simp [closeFrom, hline, Text.width]

theorem Nested.closeFrom_cons (h : Nested stack) (hline : Text.isVoid line = false) :
    closeFrom target stack blanks (line :: lines)
      = (stack.filter (isEnded (effect target line) (Text.width line))).map (· ++ target.closer)
        ++ (blanks ++ line :: closeFrom target
          (stackAfter (effect target line) (Text.indentation line) stack) [] lines) := by
  rw [closeFrom_cons_of_blanks hline, h.takeWhile_isEnded]

@[simp]
theorem openAfter_nil : openAfter target stack [] = stack := rfl

theorem openAfter_of_isVoid (hline : Text.isVoid line) :
    openAfter target stack (line :: lines) = openAfter target stack lines := by
  simp [openAfter, hline]

theorem openAfter_cons (hline : Text.isVoid line = false) :
    openAfter target stack (line :: lines)
      = openAfter target (stackAfter (effect target line) (Text.indentation line) stack) lines := by
  simp [openAfter, hline]

/-- The blocks stay nested from line to line. -/
theorem nested_openAfter (h : Nested stack) (lines : List Text) :
    Nested (openAfter target stack lines) := by
  induction lines generalizing stack with
  | nil => exact h
  | cons line lines ih =>
    cases hline : Text.isVoid line with
    | true =>
      rw [openAfter_of_isVoid hline]
      exact ih h
    | false =>
      rw [openAfter_cons hline]
      exact ih (nested_stackAfter h _ _)

/-- A run reaches each of its lines with the blocks that are open after the lines before it. -/
theorem exists_closeFrom_append (h : Nested stack) (blanks front rest : List Text) :
    ∃ written held, closeFrom target stack blanks (front ++ rest)
      = written ++ closeFrom target (openAfter target stack front) held rest := by
  induction front generalizing stack blanks with
  | nil => exact ⟨[], blanks, rfl⟩
  | cons line front ih =>
    rw [List.cons_append]
    cases hline : Text.isVoid line with
    | true =>
      rw [closeFrom_of_isVoid hline, openAfter_of_isVoid hline]
      exact ih h (blanks ++ [line])
    | false =>
      obtain ⟨written, held, hrest⟩ := ih (nested_stackAfter h (effect target line)
        (Text.indentation line)) []
      rw [h.closeFrom_cons hline, openAfter_cons hline, hrest, ← List.cons_append,
        ← List.append_assoc, ← List.append_assoc]
      exact ⟨_, held, rfl⟩

end Open

/-! ## Lines that open a block or take one over -/

/-- Whether code is a closer and nothing else. -/
def isCloserCode (target : Profile) (code : Text) : Bool :=
  code == target.closer || target.blockStyle = .keyword && code == ['}']

/-- Whether a line opens a block: a branch does, and any other line with code that opens one and is
no closer. -/
def isOpener (target : Profile) (line : Text) : Bool :=
  isCodeLine target line && (target.continuesBlock (target.codeOf line)
    || !isCloserCode target (target.codeOf line) && target.opensBlock (target.codeOf line))

/-- Whether a line is a branch or a closer, so that a block of its own width needs no other one. -/
def takesOver (target : Profile) (line : Text) : Bool :=
  isCodeLine target line
    && (target.continuesBlock (target.codeOf line) || isCloserCode target (target.codeOf line))

section Roles

variable {target : Profile} {line : Text}

theorem isOpener_of_isVoid (hline : Text.isVoid line) : isOpener target line = false := by
  simp [isOpener, isCodeLine, hline]

theorem takesOver_of_isVoid (hline : Text.isVoid line) : takesOver target line = false := by
  simp [takesOver, isCodeLine, hline]

theorem reopens_effect (hline : Text.isVoid line = false) :
    (effect target line).reopens = isOpener target line := by
  rw [effect, isOpener, isCodeLine, hline, isCloserCode]
  grind [Effect.reopens]

theorem endsOwnDepth_effect (hline : Text.isVoid line = false) :
    (effect target line).endsOwnDepth = !takesOver target line := by
  rw [effect, takesOver, isCodeLine, hline, isCloserCode]
  grind [Effect.endsOwnDepth]

/-- A line that is not blank puts closers for the deeper blocks, and for that of its own width
unless it takes it over. -/
theorem isEnded_effect (hline : Text.isVoid line = false) (width : Nat) (indent : Text) :
    isEnded (effect target line) width indent
      = (decide (width < indent.length) || !takesOver target line && indent.length = width) := by
  rw [isEnded, endsOwnDepth_effect hline]

end Roles

/-! ## Counts -/

/-- How many branches and closers meet an open block of exactly their own width. -/
def meetings (target : Profile) : (stack : List Text) → List Text → Nat
  | _, [] => 0
  | stack, line :: lines =>
    (if takesOver target line && stack.any (·.length = Text.width line) then 1 else 0)
      + meetings target (openAfter target stack [line]) lines

section Counts

variable {stack : List Text}

/-- There is at most one block of each width. -/
theorem Nested.countP_split (h : Nested stack) (width : Nat) :
    stack.countP (width < ·.length) + stack.countP (·.length < width)
        + (if stack.any (·.length = width) then 1 else 0)
      = stack.length := by
  induction h with
  | nil => rfl
  | @cons inner stack hinner _ ih =>
    rw [List.countP_cons, List.countP_cons, List.any_cons, List.length_cons]
    by_cases hown : inner.length = width
    · -- The blocks around this one are all less deep than the line.
      have hnone : stack.any (·.length = width) = false := by
        refine List.any_eq_false.2 fun outer houter ↦ ?_
        have hlt := hinner outer houter
        simp only [decide_eq_true_eq]
        omega
      rw [hnone] at ih
      simp only [hown, lt_self_iff_false, decide_false, decide_true, Bool.true_or, reduceIte,
        Bool.false_eq_true] at ih ⊢
      omega
    · simp only [hown, decide_false, Bool.false_or, decide_eq_true_eq] at ih ⊢
      split_ifs at ih ⊢ <;> omega

/-- Every open block gets a closer, stays open or meets the line. -/
theorem length_split (target : Profile) (h : Nested stack) {line : Text}
    (hline : Text.isVoid line = false) :
    (stack.filter (isEnded (effect target line) (Text.width line))).length
        + (stack.filter (·.length < Text.width line)).length
        + (if takesOver target line && stack.any (·.length = Text.width line) then 1 else 0)
      = stack.length := by
  rw [← List.countP_eq_length_filter, ← List.countP_eq_length_filter]
  cases hover : takesOver target line with
  | true =>
    have hended : stack.countP (isEnded (effect target line) (Text.width line))
        = stack.countP (Text.width line < ·.length) := by
      refine List.countP_congr fun indent _ ↦ ?_
      rw [isEnded_effect hline, hover]
      simp
    rw [hended, Bool.true_and]
    exact h.countP_split (Text.width line)
  | false =>
    have hended : stack.countP (isEnded (effect target line) (Text.width line))
        = stack.countP (fun indent ↦ !decide (indent.length < Text.width line)) := by
      refine List.countP_congr fun indent _ ↦ ?_
      rw [isEnded_effect hline, hover]
      simp only [Bool.not_false, Bool.true_and, Bool.or_eq_true, decide_eq_true_eq,
        Bool.not_eq_true', decide_eq_false_iff_not]
      omega
    have hsplit := List.length_eq_countP_add_countP (fun indent : Text ↦
      decide (indent.length < Text.width line)) (l := stack)
    rw [hended]
    simp only [Bool.false_and, Bool.false_eq_true, reduceIte, decide_not,
      Bool.decide_eq_true] at hsplit ⊢
    omega

/-- What a run writes: the lines that it is given, and a closer for each block that no line takes
over. -/
theorem Nested.length_closeFrom (h : Nested stack) (target : Profile) (blanks lines : List Text) :
    (closeFrom target stack blanks lines).length + meetings target stack lines
      = stack.length + blanks.length + lines.length + lines.countP (isOpener target) := by
  induction lines generalizing stack blanks with
  | nil => simp [closeFrom, meetings]
  | cons line lines ih =>
    rw [meetings, List.countP_cons, List.length_cons]
    cases hline : Text.isVoid line with
    | true =>
      have hrest := ih h (blanks ++ [line])
      rw [List.length_append, List.length_singleton] at hrest
      rw [closeFrom_of_isVoid hline, takesOver_of_isVoid hline, isOpener_of_isVoid hline,
        openAfter_of_isVoid hline, openAfter_nil]
      simp only [Bool.false_and, Bool.false_eq_true, reduceIte]
      omega
    | false =>
      have hrest := ih (nested_stackAfter h (effect target line) (Text.indentation line)) []
      have hblocks := length_split target h hline
      have hafter : (stackAfter (effect target line) (Text.indentation line) stack).length
          = (if isOpener target line then 1 else 0)
            + (stack.filter (·.length < Text.width line)).length := by
        rw [h.stackAfter_eq, List.length_append, reopens_effect hline, ← Text.width]
        split <;> rfl
      rw [hafter, List.length_nil] at hrest
      rw [h.closeFrom_cons hline, openAfter_cons hline, openAfter_nil, List.length_append,
        List.length_append, List.length_map, List.length_cons]
      omega

end Counts

/-! ## The ledger -/

/-- A block, known by the place and the text of the line that opened it. -/
structure Block where
  place : Nat
  opener : Text
  deriving DecidableEq, Repr

/-- The indentation at which a block was opened, which is that of its closer. -/
def Block.indent (block : Block) : Text :=
  Text.indentation block.opener

def Block.width (block : Block) : Nat :=
  block.indent.length

/-- What a run does, in order. -/
inductive Entry where
  /-- Writes a line that it was given. -/
  | given (line : Text)
  /-- Writes a closer for a block. -/
  | closer (block : Block)
  /-- Leaves a block to the next line that is written. -/
  | handover (block : Block)
  deriving DecidableEq, Repr

namespace Entry

/-- The line that is written, if one is. -/
def written? (target : Profile) : Entry → Option Text
  | given line => some line
  | closer block => some (block.indent ++ target.closer)
  | handover _ => none

/-- The line that was given, if the entry is for one. -/
def given? : Entry → Option Text
  | given line => some line
  | closer _ | handover _ => none

/-- The block that ends, if one does. -/
def ended? : Entry → Option Block
  | given _ => none
  | closer block | handover block => some block

def isCloser : Entry → Bool
  | closer _ => true
  | given _ | handover _ => false

section Given

variable (target : Profile) (line : Text)

@[simp]
theorem written?_given : (given line).written? target = some line := rfl

@[simp]
theorem given?_given : (given line).given? = some line := rfl

@[simp]
theorem ended?_given : (given line).ended? = none := rfl

end Given

end Entry

/-- What becomes of a block that is at least as deep as the line. -/
def Block.ending (target : Profile) (line : Text) (block : Block) : Entry :=
  if takesOver target line && block.width = Text.width line then .handover block else .closer block

/-- The blocks that the lines open, the first of which stands at the given place. -/
def openedFrom (target : Profile) (place : Nat) (lines : List Text) : List Block :=
  ((lines.zipIdx place).filter (isOpener target ·.1)).map fun entry ↦ ⟨entry.2, entry.1⟩

/-- The ledger from a place on, given the open blocks and the blank lines that are held back. -/
def ledgerFrom (target : Profile) :
    (place : Nat) → (blocks : List Block) → (blanks : List Text) → List Text → List Entry
  | _, blocks, blanks, [] => blocks.map .closer ++ blanks.map .given
  | place, blocks, blanks, line :: lines =>
    if Text.isVoid line then ledgerFrom target (place + 1) blocks (blanks ++ [line]) lines
    else
      (blocks.filter (Text.width line ≤ ·.width)).map (Block.ending target line)
        ++ (blanks.map .given ++ .given line :: ledgerFrom target (place + 1)
          (openedFrom target place [line] ++ blocks.filter (·.width < Text.width line)) [] lines)

/-- The ledger of a whole program. -/
def ledger (target : Profile) (lines : List Text) : List Entry :=
  ledgerFrom target 0 [] [] lines

section Ledger

variable {target : Profile} {place : Nat} {blocks : List Block} {blanks lines : List Text}
  {line : Text}

theorem openedFrom_cons (target : Profile) (place : Nat) (line : Text) (lines : List Text) :
    openedFrom target place (line :: lines)
      = openedFrom target place [line] ++ openedFrom target (place + 1) lines := by
  rw [openedFrom, List.zipIdx_cons, ← List.singleton_append, List.filter_append, List.map_append]
  rfl

theorem openedFrom_singleton :
    openedFrom target place [line] = if isOpener target line then [⟨place, line⟩] else [] := by
  cases hopens : isOpener target line <;> simp [openedFrom, hopens]

@[simp]
theorem given?_ending (block : Block) : (block.ending target line).given? = none := by
  rw [Block.ending]
  split <;> rfl

@[simp]
theorem ended?_ending (block : Block) : (block.ending target line).ended? = some block := by
  rw [Block.ending]
  split <;> rfl

/-- A closer is put for a block unless the line takes it over. -/
theorem written?_ending (hline : Text.isVoid line = false) {block : Block}
    (hdeep : Text.width line ≤ block.width) :
    (block.ending target line).written? target
      = if isEnded (effect target line) (Text.width line) block.indent
        then some (block.indent ++ target.closer) else none := by
  have hended : isEnded (effect target line) (Text.width line) block.indent
      = !(takesOver target line && block.width = Text.width line) := by
    rw [isEnded_effect hline, ← Block.width]
    rcases Nat.lt_or_eq_of_le hdeep with hlt | heq
    · simp [hlt, hlt.ne']
    · simp [heq]
  rw [hended, Block.ending]
  cases takesOver target line && block.width = Text.width line <;> rfl

/-- The lines that are written where blocks end are the closers of those that are ended. -/
theorem written_endings (hline : Text.isVoid line = false) (blocks : List Block) :
    ((blocks.filter (Text.width line ≤ ·.width)).map (Block.ending target line)).filterMap
        (Entry.written? target)
      = ((blocks.map Block.indent).filter (isEnded (effect target line) (Text.width line))).map
        (· ++ target.closer) := by
  induction blocks with
  | nil => rfl
  | cons block blocks ih =>
    rw [List.map_cons, List.filter_cons, List.filter_cons]
    by_cases hdeep : Text.width line ≤ block.width
    · rw [if_pos (decide_eq_true hdeep), List.map_cons, List.filterMap_cons,
        written?_ending hline hdeep, ih]
      cases isEnded (effect target line) (Text.width line) block.indent <;> rfl
    · have hkept : isEnded (effect target line) (Text.width line) block.indent = false :=
        isEnded_of_lt (Nat.not_le.1 hdeep)
      rw [if_neg (by simpa using hdeep), hkept, ih]
      rfl

/-- The ledger gives back the lines. -/
theorem given_ledgerFrom :
    (ledgerFrom target place blocks blanks lines).filterMap Entry.given? = blanks ++ lines := by
  have hgiven (blanks : List Text) : (blanks.map Entry.given).filterMap Entry.given? = blanks := by
    rw [List.filterMap_map]
    exact List.filterMap_some
  fun_induction ledgerFrom target place blocks blanks lines with
  | case1 place blocks blanks =>
    have hclosers : (blocks.map Entry.closer).filterMap Entry.given? = [] := by
      simp [Entry.given?]
    rw [List.filterMap_append, hclosers, hgiven, List.nil_append, List.append_nil]
  | case2 place blocks blanks line lines hline ih =>
    rw [ih, List.append_assoc, List.singleton_append]
  | case3 place blocks blanks line lines hline ih =>
    have hendings : ((blocks.filter (Text.width line ≤ ·.width)).map
        (Block.ending target line)).filterMap Entry.given? = [] := by
      simp
    rw [List.filterMap_append, List.filterMap_append, hendings, hgiven, List.filterMap_cons,
      Entry.given?_given, ih]
    rfl

/-- Each block that is open or is opened ends exactly once. -/
theorem ended_ledgerFrom_perm :
    ((ledgerFrom target place blocks blanks lines).filterMap Entry.ended?).Perm
      (blocks ++ openedFrom target place lines) := by
  have hgiven (blanks : List Text) : (blanks.map Entry.given).filterMap Entry.ended? = [] := by
    simp
  fun_induction ledgerFrom target place blocks blanks lines with
  | case1 place blocks blanks =>
    have hclosers : (blocks.map Entry.closer).filterMap Entry.ended? = blocks := by
      rw [List.filterMap_map]
      exact List.filterMap_some
    rw [List.filterMap_append, hclosers, hgiven]
    exact List.Perm.refl _
  | case2 place blocks blanks line lines hline ih =>
    rwa [openedFrom_cons, openedFrom_singleton, isOpener_of_isVoid hline]
  | case3 place blocks blanks line lines hline ih =>
    have hendings : ((blocks.filter (Text.width line ≤ ·.width)).map
        (Block.ending target line)).filterMap Entry.ended?
          = blocks.filter fun block ↦ !decide (block.width < Text.width line) := by
      have hall : Entry.ended? ∘ Block.ending target line = some := funext ended?_ending
      rw [List.filterMap_map, hall, List.filterMap_some]
      simp only [← decide_not, Nat.not_lt]
    -- What ends here and what stays open are together the open blocks.
    have hblocks := List.filter_append_perm (fun block : Block ↦
      decide (block.width < Text.width line)) blocks
    rw [List.filterMap_append, List.filterMap_append, hendings, hgiven, List.filterMap_cons,
      Entry.ended?_given, List.nil_append, openedFrom_cons target place line lines]
    refine (ih.append_left _).trans (List.Perm.trans ?_ (hblocks.append_right _))
    refine List.perm_iff_count.2 fun block ↦ ?_
    simp only [List.count_append]
    omega

/-- The ledger spells what the run writes. -/
theorem written_ledgerFrom (h : Nested (blocks.map Block.indent)) :
    (ledgerFrom target place blocks blanks lines).filterMap (Entry.written? target)
      = closeFrom target (blocks.map Block.indent) blanks lines := by
  have hgiven (blanks : List Text) :
      (blanks.map Entry.given).filterMap (Entry.written? target) = blanks := by
    rw [List.filterMap_map]
    exact List.filterMap_some
  fun_induction ledgerFrom target place blocks blanks lines with
  | case1 place blocks blanks =>
    have hclosers : (blocks.map Entry.closer).filterMap (Entry.written? target)
        = (blocks.map Block.indent).map (· ++ target.closer) := by
      rw [List.filterMap_map, List.map_map]
      exact congrFun List.filterMap_eq_map blocks
    rw [List.filterMap_append, hgiven, closeFrom, hclosers]
  | case2 place blocks blanks line lines hline ih =>
    rw [ih h, closeFrom_of_isVoid hline]
  | case3 place blocks blanks line lines hline ih =>
    have hvoid : Text.isVoid line = false := by simpa using hline
    have hafter : stackAfter (effect target line) (Text.indentation line) (blocks.map Block.indent)
        = (openedFrom target place [line]
            ++ blocks.filter (·.width < Text.width line)).map Block.indent := by
      rw [h.stackAfter_eq, reopens_effect hvoid, List.map_append, openedFrom_singleton,
        List.filter_map]
      cases isOpener target line <;> rfl
    have hnested := nested_stackAfter h (effect target line) (Text.indentation line)
    rw [hafter] at hnested
    rw [List.filterMap_append, List.filterMap_append, written_endings hvoid, hgiven,
      List.filterMap_cons, Entry.written?_given, h.closeFrom_cons hvoid, hafter, ih hnested]

/-- What is written beyond the given lines are closers. -/
theorem length_written (target : Profile) (entries : List Entry) :
    (entries.filterMap (Entry.written? target)).length
      = (entries.filterMap Entry.given?).length + entries.countP Entry.isCloser := by
  induction entries with
  | nil => rfl
  | cons entry entries ih =>
    rw [List.filterMap_cons, List.filterMap_cons, List.countP_cons]
    cases entry with
    | given line => exact (congrArg (· + 1) ih).trans (Nat.add_right_comm ..)
    | closer block => exact congrArg (· + 1) ih
    | handover block => exact ih

/-- Closing by indentation loses no line and ends each block once.  The entries of the ledger spell
what is written, and without the closers the lines that were given.  A run reaches each line with
blocks that are nested, the widths growing inwards.  Each line that opens a block has one entry
that ends it, a closer with the indentation of that line or the handover to a branch or closer of
its own width; so there are as many openers as closers that are written and meetings. -/
theorem closeBlocks_ledger (target : Profile) (lines : List Text) :
    let entries := ledger target lines
    entries.filterMap (Entry.written? target) = closeBlocks target lines
      ∧ entries.filterMap Entry.given? = lines
      ∧ (∀ read, Nested (openAfter target [] (lines.take read))
        ∧ ∃ written held, closeBlocks target lines
          = written ++ closeFrom target (openAfter target [] (lines.take read)) held
            (lines.drop read))
      ∧ (entries.filterMap Entry.ended?).Perm (openedFrom target 0 lines)
      ∧ lines.countP (isOpener target)
        = entries.countP Entry.isCloser + meetings target [] lines := by
  intro entries
  have hnested : Nested [] := List.Pairwise.nil
  have hwritten : entries.filterMap (Entry.written? target) = closeBlocks target lines :=
    written_ledgerFrom hnested
  have hgiven : entries.filterMap Entry.given? = lines := given_ledgerFrom
  refine ⟨hwritten, hgiven, ?_, ended_ledgerFrom_perm, ?_⟩
  · intro read
    refine ⟨nested_openAfter hnested _, ?_⟩
    obtain ⟨written, held, hrun⟩ :=
      exists_closeFrom_append hnested [] (lines.take read) (lines.drop read)
    rw [List.take_append_drop] at hrun
    exact ⟨written, held, hrun⟩
  · have hlength := length_written target entries
    have hcounts := hnested.length_closeFrom target [] lines
    rw [hwritten, hgiven, closeBlocks] at hlength
    rw [hlength] at hcounts
    simp only [List.length_nil] at hcounts
    omega

end Ledger

end Recast.Layout
