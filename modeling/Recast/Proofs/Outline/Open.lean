import Mathlib.Data.List.GetD
import Mathlib.Data.List.Induction
import Recast.Outline
import Recast.Proofs.Text.Trim

/-!
# Open nodes

While an outline is made, the nodes that are open when a line is reached are the ones that the line
may belong to: those from whose line on no line was indented as little.  Of a state only the widths
and the lines of its open nodes matter for that.  They tell which lines are nodes and which ones only
close a node.
-/

namespace Recast.Outline

open Text

variable {profile : Profile} {lines : List Text} {line : Text} {i j k : Nat} {state : State}

/-! ## Lines by their number -/

/-- The line with the given number; past the end there are empty lines. -/
def lineAt (lines : List Text) (i : Nat) : Text :=
  lines.getD i []

/-- How far a line is indented. -/
def widthAt (lines : List Text) (i : Nat) : Nat :=
  width (lineAt lines i)

/-- Whether a line is not blank. -/
def isInked (lines : List Text) (i : Nat) : Bool :=
  !isVoid (lineAt lines i)

/-- Whether all lines between two lines are indented more than the first, blank lines apart. -/
def IsClear (lines : List Text) (j i : Nat) : Prop :=
  ∀ k, j < k → k < i → isInked lines k → widthAt lines j < widthAt lines k

theorem lineAt_append (h : i < lines.length) (more : List Text) :
    lineAt (lines ++ more) i = lineAt lines i :=
  List.getD_append lines more [] i h

theorem lineAt_length (lines : List Text) (line : Text) :
    lineAt (lines ++ [line]) lines.length = line := by
  simp [lineAt]

theorem widthAt_length (lines : List Text) (line : Text) :
    widthAt (lines ++ [line]) lines.length = width line := by
  rw [widthAt, lineAt_length]

theorem isInked_length (lines : List Text) (line : Text) :
    isInked (lines ++ [line]) lines.length = !isVoid line := by
  rw [isInked, lineAt_length]

theorem widthAt_append (h : i < lines.length) (more : List Text) :
    widthAt (lines ++ more) i = widthAt lines i := by
  rw [widthAt, lineAt_append h, widthAt]

theorem isInked_append (h : i < lines.length) (more : List Text) :
    isInked (lines ++ more) i = isInked lines i := by
  rw [isInked, lineAt_append h, isInked]

theorem lt_length_of_isInked (h : isInked lines i) : i < lines.length := by
  by_contra hlength
  have hvoid : lineAt lines i = [] := List.getD_eq_default _ _ (Nat.le_of_not_lt hlength)
  rw [isInked, hvoid] at h
  exact absurd h (by decide)

theorem isClear_append (hj : j < lines.length) (h : i ≤ lines.length) (more : List Text) :
    IsClear (lines ++ more) j i ↔ IsClear lines j i := by
  refine forall₃_congr fun k _ hk ↦ ?_
  have hlength : k < lines.length := Nat.lt_of_lt_of_le hk h
  rw [isInked_append hlength, widthAt_append hlength, widthAt_append hj]

/-! ## Open nodes by their widths and lines -/

/-- The widths of the open nodes and the numbers of their lines, the innermost first. -/
def State.keys (state : State) : List (Nat × Nat) :=
  state.stack.map fun node ↦ (node.width, node.lineStart)

theorem State.keys_pop (state : State) : state.pop.keys = state.keys.tail := by
  obtain ⟨stack, roots⟩ := state
  cases stack with
  | nil => rfl
  | cons node stack => cases stack <;> rfl

theorem State.keys_extend (number : Nat) (state : State) : (state.extend number).keys = state.keys := by
  simp [keys, extend]

/-- What finishing a node keeps, finishing nodes keeps. -/
theorem State.popWhile_keeps {motive : State → Prop} (p : Nat → Bool)
    (hpop : ∀ state : State, state.stack ≠ [] → motive state → motive state.pop) (h : motive state) :
    motive (state.popWhile p) := by
  have hgo (bound : Nat) (state : State) (h : motive state) : motive (popWhile.go p bound state) := by
    induction bound generalizing state with
    | zero => exact h
    | succ bound ih =>
      rw [popWhile.go]
      split
      · rename_i node rest hstack
        split
        · exact ih state.pop (hpop state (by simp [hstack]) h)
        · exact h
      · exact h
  exact hgo _ state h

theorem State.keys_popWhile (p : Nat → Bool) (state : State) :
    (state.popWhile p).keys = state.keys.dropWhile fun key ↦ p key.1 := by
  have hgo (bound : Nat) (state : State) (h : state.stack.length ≤ bound) :
      (popWhile.go p bound state).keys = state.keys.dropWhile fun key ↦ p key.1 := by
    induction bound generalizing state with
    | zero =>
      have hnil : state.stack = [] := List.length_eq_zero_iff.1 (Nat.le_zero.1 h)
      simp [popWhile.go, keys, hnil]
    | succ bound ih =>
      rw [popWhile.go]
      split
      · rename_i node rest hstack
        have hkeys : state.keys = (node.width, node.lineStart) :: state.keys.tail := by
          simp [keys, hstack]
        split
        · rename_i hp
          have hlength : state.pop.stack.length ≤ bound := by
            have hpop : state.pop.stack.length = state.stack.length - 1 := by
              simpa [keys] using congrArg List.length state.keys_pop
            omega
          rw [ih state.pop hlength, keys_pop, hkeys, List.dropWhile_cons, if_pos hp, List.tail_cons]
        · rename_i hp
          rw [hkeys, List.dropWhile_cons, if_neg hp]
      · rename_i hstack
        simp [keys, hstack]
  exact hgo _ state (Nat.le_refl _)

/-! ## Nested keys -/

/-- Whether inner nodes are indented more than the outer ones, and stand below them. -/
def Nested (keys : List (Nat × Nat)) : Prop :=
  keys.Pairwise fun inner outer ↦ outer.1 < inner.1 ∧ outer.2 < inner.2

variable {keys : List (Nat × Nat)} {w : Nat}

theorem Nested.dropWhile_lt (h : Nested keys) (w : Nat) :
    (keys.dropWhile fun key ↦ decide (w < key.1)) = keys.filter (·.1 ≤ w) := by
  rw [dropWhile_eq_filter]
  · exact List.filter_congr fun key _ ↦ Bool.eq_iff_iff.2 (by simp)
  · exact h.imp fun hkeys hw ↦ by simp at hw ⊢; omega

theorem Nested.dropWhile_le (h : Nested keys) (w : Nat) :
    (keys.dropWhile fun key ↦ decide (w ≤ key.1)) = keys.filter (·.1 < w) := by
  rw [dropWhile_eq_filter]
  · exact List.filter_congr fun key _ ↦ Bool.eq_iff_iff.2 (by simp)
  · exact h.imp fun hkeys hw ↦ by simp at hw ⊢; omega

theorem Nested.filter (h : Nested keys) (p : Nat × Nat → Bool) : Nested (keys.filter p) :=
  List.Pairwise.filter p h

/-- The innermost of the nodes that are indented by at most `w` is the only one that may be indented
by `w`. -/
theorem Nested.head?_filter_le (h : Nested keys) (w : Nat) :
    ((keys.filter (·.1 ≤ w)).head?.any (·.1 = w)) ↔ ∃ key ∈ keys, key.1 = w := by
  constructor
  · intro hhead
    obtain ⟨key, hkey, hw⟩ := (Option.any_eq_true _ _).1 hhead
    exact ⟨key, (List.mem_filter.1 (List.mem_of_head? hkey)).1, by simpa using hw⟩
  · rintro ⟨key, hkey, rfl⟩
    have hmem : key ∈ keys.filter (·.1 ≤ key.1) := List.mem_filter.2 ⟨hkey, by simp⟩
    have hle : ∀ other ∈ keys.filter (·.1 ≤ key.1), other.1 ≤ key.1 := fun other hother ↦ by
      simpa using (List.mem_filter.1 hother).2
    have hnested := h.filter (·.1 ≤ key.1)
    -- Any node that is further in would be indented by more than `w`.
    cases hkeys : keys.filter (·.1 ≤ key.1) with
    | nil => rw [hkeys] at hmem; exact absurd hmem List.not_mem_nil
    | cons first others =>
      rw [hkeys] at hmem hle hnested
      rcases List.mem_cons.1 hmem with rfl | hmem
      · simp
      · have hlt := ((List.pairwise_cons.1 hnested).1 key hmem).1
        have hfirst := hle first List.mem_cons_self
        omega

/-- Without the one that is indented by `w` there remain those that are indented less. -/
theorem Nested.tail_filter_le (h : Nested keys) (w : Nat)
    (hhead : (keys.filter (·.1 ≤ w)).head?.any (·.1 = w)) :
    (keys.filter (·.1 ≤ w)).tail = keys.filter (·.1 < w) := by
  have hnested := h.filter (·.1 ≤ w)
  have hless : keys.filter (·.1 < w) = (keys.filter (·.1 ≤ w)).filter (·.1 < w) := by
    rw [List.filter_filter]
    exact List.filter_congr fun key _ ↦ by simp; omega
  rw [hless]
  cases hkeys : keys.filter (·.1 ≤ w) with
  | nil => rfl
  | cons first others =>
    rw [hkeys] at hhead hnested
    have hfirst : first.1 = w := by simpa using hhead
    rw [List.filter_cons_of_neg (by simp [hfirst]), List.tail_cons, List.filter_eq_self.2]
    intro key hkey
    simpa [hfirst] using ((List.pairwise_cons.1 hnested).1 key hkey).1

/-! ## Lines that close a node -/

/-- Whether a line only closes the open node of its width. -/
def State.consumes (state : State) (line : Text) : Bool :=
  isCloser (trim line)
    && (state.popWhile (width line < ·)).stack.head?.any (·.width = width line)

theorem State.add_of_consumes (h : state.consumes line) (profile : Profile) (number : Nat) :
    state.add profile number line
      = ((state.popWhile (width line < ·)).extend number).pop :=
  if_pos h

/-- The node of a line, when it is opened. -/
def opened (profile : Profile) (number : Nat) (line : Text) : OpenNode :=
  { width := width line
    kind := (classify profile (trim line)).1
    name := (classify profile (trim line)).2
    lineStart := number
    lineEnd := number
    content := trim line
    children := [] }

/-- Opens a node. -/
def State.push (node : OpenNode) (state : State) : State :=
  { state with stack := node :: state.stack }

theorem State.add_of_not_consumes (h : state.consumes line = false) (profile : Profile)
    (number : Nat) :
    state.add profile number line
      = (((state.popWhile (width line < ·)).popWhile (width line ≤ ·)).extend number).push
          (opened profile number line) :=
  if_neg (by simpa [consumes] using h)

theorem State.keys_popWhile_lt (h : Nested state.keys) (w : Nat) :
    (state.popWhile (w < ·)).keys = state.keys.filter (·.1 ≤ w) := by
  rw [keys_popWhile, h.dropWhile_lt]

theorem State.keys_popWhile_le (h : Nested state.keys) (w : Nat) :
    ((state.popWhile (w < ·)).popWhile (w ≤ ·)).keys = state.keys.filter (·.1 < w) := by
  rw [keys_popWhile, keys_popWhile_lt h, (h.filter _).dropWhile_le, List.filter_filter]
  exact List.filter_congr fun key _ ↦ by simp; omega

theorem State.consumes_iff_head (h : Nested state.keys) :
    state.consumes line ↔ isCloser (trim line)
      ∧ (state.keys.filter (·.1 ≤ width line)).head?.any (·.1 = width line) := by
  rw [consumes, Bool.and_eq_true, ← keys_popWhile_lt h, keys, List.head?_map, Option.any_map]

theorem State.consumes_iff (h : Nested state.keys) :
    state.consumes line ↔ isCloser (trim line) ∧ ∃ key ∈ state.keys, key.1 = width line := by
  rw [consumes_iff_head h, h.head?_filter_le]

/-- A line closes all nodes that are indented as much as it is or more, and opens its own unless it
is consumed. -/
theorem State.keys_add (h : Nested state.keys) (profile : Profile) (number : Nat) (line : Text) :
    (state.add profile number line).keys
      = (if state.consumes line then [] else [(width line, number)])
        ++ state.keys.filter (·.1 < width line) := by
  cases hconsumes : state.consumes line with
  | true =>
    rw [add_of_consumes hconsumes, keys_pop, keys_extend, keys_popWhile_lt h,
      h.tail_filter_le _ ((consumes_iff_head h).1 hconsumes).2]
    rfl
  | false =>
    rw [add_of_not_consumes hconsumes]
    change (width line, number) :: ((_ : State).extend number).keys = _
    rw [keys_extend, keys_popWhile_le h]
    rfl

/-! ## The run through the lines -/

/-- The state after the lines. -/
def reached (profile : Profile) (lines : List Text) : State :=
  (State.mk [] []).addLines profile 0 lines

theorem State.addLines_append (profile : Profile) (number : Nat) (lines more : List Text)
    (state : State) :
    state.addLines profile number (lines ++ more)
      = (state.addLines profile number lines).addLines profile (number + lines.length) more := by
  induction lines generalizing number state with
  | nil => rfl
  | cons line lines ih =>
    rw [List.cons_append, addLines, addLines, ih, List.length_cons, Nat.add_right_comm, Nat.add_assoc]

theorem reached_concat (profile : Profile) (lines : List Text) (line : Text) :
    reached profile (lines ++ [line])
      = if isVoid line then reached profile lines
        else (reached profile lines).add profile lines.length line := by
  rw [reached, State.addLines_append, Nat.zero_add]
  rfl

/-- Whether the line with the given number is consumed as the end of a node. -/
def isConsumed (profile : Profile) (lines : List Text) (i : Nat) : Bool :=
  isInked lines i && (reached profile (lines.take i)).consumes (lineAt lines i)

/-- Whether the line with the given number has a node of its own. -/
def isNode (profile : Profile) (lines : List Text) (i : Nat) : Bool :=
  isInked lines i && !isConsumed profile lines i

theorem isConsumed_append (h : i < lines.length) (more : List Text) :
    isConsumed profile (lines ++ more) i = isConsumed profile lines i := by
  rw [isConsumed, isInked_append h, lineAt_append h, List.take_append_of_le_length (Nat.le_of_lt h),
    isConsumed]

theorem isNode_append (h : i < lines.length) (more : List Text) :
    isNode profile (lines ++ more) i = isNode profile lines i := by
  rw [isNode, isInked_append h, isConsumed_append h, isNode]

theorem isConsumed_length (profile : Profile) (lines : List Text) (line : Text) :
    isConsumed profile (lines ++ [line]) lines.length
      = (!isVoid line && (reached profile lines).consumes line) := by
  rw [isConsumed, isInked_length, lineAt_length, List.take_left]

theorem lt_length_of_isNode (h : isNode profile lines i) : i < lines.length :=
  lt_length_of_isInked (Bool.and_eq_true_iff.1 h).1

theorem isNode_length (profile : Profile) (lines : List Text) (line : Text) :
    isNode profile (lines ++ [line]) lines.length
      = (!isVoid line && !(reached profile lines).consumes line) := by
  rw [isNode, isConsumed_length, isInked_length]
  cases isVoid line <;> rfl

theorem isClear_concat (h : j < lines.length) (line : Text) :
    IsClear (lines ++ [line]) j (lines ++ [line]).length
      ↔ IsClear lines j lines.length ∧ (isVoid line = false → widthAt lines j < width line) := by
  rw [← isClear_append h (Nat.le_refl _) [line], List.length_append, List.length_singleton]
  constructor
  · refine fun hclear ↦ ⟨fun k hj hk ↦ hclear k hj (Nat.lt_succ_of_lt hk), fun hline ↦ ?_⟩
    have hlast := hclear lines.length h (Nat.lt_succ_self _) (by rw [isInked_length, hline]; rfl)
    rwa [widthAt_append h, widthAt_length] at hlast
  · rintro ⟨hclear, hline⟩ k hj hk hinked
    rcases Nat.lt_succ_iff_lt_or_eq.1 hk with hk | rfl
    · exact hclear k hj hk hinked
    · rw [widthAt_append h, widthAt_length]
      exact hline (by simpa [isInked_length] using hinked)

/-- Whether a key is that of a node from whose line on all lines are indented more. -/
def IsOpenKey (profile : Profile) (lines : List Text) (key : Nat × Nat) : Prop :=
  isNode profile lines key.2 ∧ key.1 = widthAt lines key.2 ∧ IsClear lines key.2 lines.length

theorem isOpenKey_concat {key : Nat × Nat} (h : key.2 < lines.length) (line : Text) :
    IsOpenKey profile (lines ++ [line]) key
      ↔ IsOpenKey profile lines key ∧ (isVoid line = false → key.1 < width line) := by
  rw [IsOpenKey, isNode_append h, widthAt_append h, isClear_concat h, IsOpenKey]
  constructor
  · rintro ⟨hnode, hwidth, hclear, hline⟩
    exact ⟨⟨hnode, hwidth, hclear⟩, hwidth ▸ hline⟩
  · rintro ⟨⟨hnode, hwidth, hclear⟩, hline⟩
    exact ⟨hnode, hwidth, hclear, hwidth ▸ hline⟩

theorem isOpenKey_length {key : Nat × Nat} (h : key.2 = lines.length) (line : Text) :
    IsOpenKey profile (lines ++ [line]) key
      ↔ isVoid line = false ∧ (reached profile lines).consumes line = false ∧ key.1 = width line := by
  rw [IsOpenKey, h, isNode_length, widthAt_length]
  constructor
  · rintro ⟨hnode, hwidth, -⟩
    simpa [hwidth] using hnode
  · rintro ⟨hinked, hconsumes, hwidth⟩
    refine ⟨by simp [hinked, hconsumes], hwidth, fun k hj hk ↦ ?_⟩
    rw [List.length_append, List.length_singleton] at hk
    omega

theorem IsOpenKey.lt_length {key : Nat × Nat} (h : IsOpenKey profile lines key) :
    key.2 < lines.length :=
  lt_length_of_isNode h.1

/-- Whether the open nodes of a state are those that are open after the lines. -/
structure State.Follows (profile : Profile) (lines : List Text) (state : State) : Prop where
  nested : Nested state.keys
  mem_iff : ∀ key, key ∈ state.keys ↔ IsOpenKey profile lines key

theorem State.Follows.lt_length (h : state.Follows profile lines) {key : Nat × Nat}
    (hkey : key ∈ state.keys) : key.2 < lines.length :=
  ((h.mem_iff key).1 hkey).lt_length

theorem follows_blank (h : (reached profile lines).Follows profile lines) (hvoid : isVoid line) :
    (reached profile lines).Follows profile (lines ++ [line]) := by
  refine ⟨h.nested, fun key ↦ ⟨fun hkey ↦ ?_, fun hopen ↦ ?_⟩⟩
  · exact (isOpenKey_concat (h.lt_length hkey) line).2 ⟨(h.mem_iff key).1 hkey, by simp [hvoid]⟩
  · rcases Nat.lt_succ_iff_lt_or_eq.1 (by simpa using hopen.lt_length) with hlt | heq
    · exact (h.mem_iff key).2 ((isOpenKey_concat hlt line).1 hopen).1
    · exact absurd ((isOpenKey_length heq line).1 hopen).1 (by simp [hvoid])

theorem follows_add (h : (reached profile lines).Follows profile lines) (hvoid : isVoid line = false) :
    ((reached profile lines).add profile lines.length line).Follows profile (lines ++ [line]) := by
  have hkeys := State.keys_add h.nested profile lines.length line
  constructor
  · rw [hkeys]
    split
    · exact h.nested.filter _
    · refine List.pairwise_cons.2 ⟨fun key hkey ↦ ?_, h.nested.filter _⟩
      obtain ⟨hkey, hw⟩ := List.mem_filter.1 hkey
      exact ⟨by simpa using hw, h.lt_length hkey⟩
  · intro key
    -- A key is that of the new line or an older one, and an older one stays if it is less wide.
    rw [hkeys, List.mem_append, List.mem_filter, decide_eq_true_iff]
    constructor
    · rintro (hkey | ⟨hkey, hw⟩)
      · split at hkey
        · exact absurd hkey List.not_mem_nil
        · rename_i hconsumes
          obtain rfl := List.mem_singleton.1 hkey
          exact (isOpenKey_length rfl line).2 ⟨hvoid, by simpa using hconsumes, rfl⟩
      · exact (isOpenKey_concat (h.lt_length hkey) line).2 ⟨(h.mem_iff key).1 hkey, fun _ ↦ hw⟩
    · intro hopen
      rcases Nat.lt_succ_iff_lt_or_eq.1 (by simpa using hopen.lt_length) with hlt | heq
      · obtain ⟨hopen, hw⟩ := (isOpenKey_concat hlt line).1 hopen
        exact .inr ⟨(h.mem_iff key).2 hopen, hw hvoid⟩
      · obtain ⟨-, hconsumes, hw⟩ := (isOpenKey_length heq line).1 hopen
        rw [hconsumes, if_neg Bool.false_ne_true, List.mem_singleton]
        exact .inl (Prod.ext hw heq)

/-- A node is open as long as all lines after it are indented more than its own. -/
theorem follows_reached (profile : Profile) (lines : List Text) :
    (reached profile lines).Follows profile lines := by
  induction lines using List.reverseRecOn with
  | nil =>
    refine ⟨List.Pairwise.nil, fun key ↦ ⟨fun h ↦ absurd h List.not_mem_nil, fun h ↦ ?_⟩⟩
    exact absurd h.lt_length (Nat.not_lt_zero _)
  | append_singleton lines line ih =>
    rw [reached_concat]
    split
    · rename_i hvoid
      exact follows_blank ih hvoid
    · rename_i hvoid
      exact follows_add ih (by simpa using hvoid)

/-! ## Lines and the nodes that are open there -/

theorem isOpenKey_take (h : i ≤ lines.length) (key : Nat × Nat) :
    IsOpenKey profile (lines.take i) key
      ↔ key.2 < i ∧ isNode profile lines key.2 ∧ key.1 = widthAt lines key.2
        ∧ IsClear lines key.2 i := by
  have hlength : (lines.take i).length = i := List.length_take_of_le h
  have hsplit : lines = lines.take i ++ lines.drop i := (List.take_append_drop i lines).symm
  constructor
  · intro hopen
    have hkey := hopen.lt_length
    obtain ⟨hnode, hwidth, hclear⟩ := hopen
    rw [← isNode_append hkey (lines.drop i), ← hsplit] at hnode
    rw [← widthAt_append hkey (lines.drop i), ← hsplit] at hwidth
    rw [← isClear_append hkey (Nat.le_refl _) (lines.drop i), ← hsplit, hlength] at hclear
    exact ⟨hlength ▸ hkey, hnode, hwidth, hclear⟩
  · rintro ⟨hkey, hnode, hwidth, hclear⟩
    rw [← hlength] at hkey
    rw [IsOpenKey, ← isNode_append hkey (lines.drop i), ← widthAt_append hkey (lines.drop i),
      ← isClear_append hkey (Nat.le_refl _) (lines.drop i), ← hsplit, hlength]
    exact ⟨hnode, hwidth, hclear⟩

theorem isInked_of_isCloser (h : isCloser (trim (lineAt lines i))) : isInked lines i := by
  rw [isInked, Bool.not_eq_true', ← Bool.not_eq_true]
  intro hvoid
  rw [trim_eq_nil_iff.2 hvoid] at h
  exact absurd h (by decide)

/-- A line is consumed exactly if it does nothing but close and there is a node of its width above
it, with nothing in between that is indented as little. -/
theorem isConsumed_iff : isConsumed profile lines i
    ↔ isCloser (trim (lineAt lines i))
      ∧ ∃ j < i, isNode profile lines j ∧ widthAt lines j = widthAt lines i ∧ IsClear lines j i := by
  have hfollows := follows_reached profile (lines.take i)
  rw [isConsumed, Bool.and_eq_true, State.consumes_iff hfollows.nested]
  constructor
  · rintro ⟨hinked, hcloser, key, hkey, hw⟩
    have hlength := Nat.le_of_lt (lt_length_of_isInked hinked)
    obtain ⟨hj, hnode, hwidth, hclear⟩ := (isOpenKey_take hlength key).1 ((hfollows.mem_iff key).1 hkey)
    exact ⟨hcloser, key.2, hj, hnode, hwidth.symm.trans hw, hclear⟩
  · rintro ⟨hcloser, j, hj, hnode, hwidth, hclear⟩
    have hinked := isInked_of_isCloser hcloser
    have hlength := Nat.le_of_lt (lt_length_of_isInked hinked)
    refine ⟨hinked, hcloser, (widthAt lines i, j), (hfollows.mem_iff _).2 ?_, rfl⟩
    exact (isOpenKey_take hlength _).2 ⟨hj, hnode, hwidth.symm, hclear⟩

end Recast.Outline
