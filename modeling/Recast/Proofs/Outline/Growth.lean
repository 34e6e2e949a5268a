import Mathlib.Data.List.Chain
import Mathlib.Order.Bounds.Basic
import Recast.Proofs.Outline.Open

/-!
# How an outline grows

A state of the outline is a path of open nodes, each with the finished nodes that hang below it.  A
finished node stays as it is, so what is true of it when it is closed is true of it in the end.  While
a node is open it goes on to the last line that is not blank, as do all open nodes around it: that is
why a node that is closed ends where its parent does, and why the next one starts after it.

The main statement is that every state of a run is built in this way, with one node for each line that
is to have one.
-/

namespace Recast

open Text

/-! ## Nodes -/

namespace Node

/-- What is true of a node if it is true of its children is true of every node. -/
theorem induct {motive : Node → Prop}
    (h : ∀ node : Node, (∀ child ∈ node.children, motive child) → motive node) (node : Node) :
    motive node := by
  refine @Node.rec motive (fun nodes ↦ ∀ node ∈ nodes, motive node)
    (fun _ _ _ _ _ _ ih ↦ h _ ih) ?_ ?_ node
  · exact fun _ hnode ↦ absurd hnode List.not_mem_nil
  · exact fun _ _ hfirst hothers ↦ List.forall_mem_cons.2 ⟨hfirst, hothers⟩

theorem flattenAll_eq (nodes : List Node) :
    flatten.flattenAll nodes = Outline.flatten nodes := by
  induction nodes with
  | nil => rfl
  | cons node nodes ih => rw [flatten.flattenAll, ih]; rfl

theorem flatten_eq (node : Node) : node.flatten = node :: Outline.flatten node.children := by
  cases node
  rw [flatten, flattenAll_eq]
  rfl

theorem size_eq (node : Node) : node.size = 1 + Outline.size node.children := by
  have hall (nodes : List Node) : size.sizeAll nodes = Outline.size nodes := by
    induction nodes with
    | nil => rfl
    | cons node nodes ih => rw [size.sizeAll, ih]; rfl
  cases node
  rw [size, hall]
  rfl

end Node

namespace Outline

variable {m node : Node} {nodes : List Node}

theorem flatten_cons (node : Node) (nodes : List Node) :
    flatten (node :: nodes) = node :: (flatten node.children ++ flatten nodes) := by
  rw [flatten, List.flatMap_cons, Node.flatten_eq]
  rfl

theorem flatten_append (nodes others : List Node) :
    flatten (nodes ++ others) = flatten nodes ++ flatten others :=
  List.flatMap_append

theorem mem_flatten : m ∈ flatten nodes ↔ ∃ node ∈ nodes, m = node ∨ m ∈ flatten node.children := by
  rw [flatten, List.mem_flatMap]
  refine exists_congr fun node ↦ and_congr_right fun _ ↦ ?_
  rw [Node.flatten_eq, List.mem_cons]

theorem mem_flatten_of_mem (h : m ∈ nodes) : m ∈ flatten nodes :=
  mem_flatten.2 ⟨m, h, .inl rfl⟩

/-- The nodes below a node of a forest are nodes of the forest. -/
theorem mem_flatten_trans (hnode : node ∈ flatten nodes) (h : m ∈ flatten node.children) :
    m ∈ flatten nodes := by
  have hbelow (top : Node) :
      node = top ∨ node ∈ flatten top.children → m ∈ flatten top.children := by
    induction top using Node.induct with
    | h top ih =>
      rintro (rfl | hnode)
      · exact h
      · obtain ⟨child, hchild, hnode⟩ := mem_flatten.1 hnode
        exact mem_flatten.2 ⟨child, hchild, .inr (ih child hchild hnode)⟩
  obtain ⟨top, htop, hnode⟩ := mem_flatten.1 hnode
  exact mem_flatten.2 ⟨top, htop, .inr (hbelow top hnode)⟩

theorem mem_flatten_of_mem_children (hnode : node ∈ flatten nodes) (h : m ∈ node.children) :
    m ∈ flatten nodes :=
  mem_flatten_trans hnode (mem_flatten_of_mem h)

/-- A node of a forest stands at its top or is a child of another. -/
theorem mem_or_exists_of_mem_flatten (h : m ∈ flatten nodes) :
    m ∈ nodes ∨ ∃ parent ∈ flatten nodes, m ∈ parent.children := by
  have hbelow (node : Node) : m ∈ flatten node.children →
      ∃ parent, (parent = node ∨ parent ∈ flatten node.children) ∧ m ∈ parent.children := by
    induction node using Node.induct with
    | h node ih =>
      intro hm
      obtain ⟨child, hchild, rfl | hm⟩ := mem_flatten.1 hm
      · exact ⟨node, .inl rfl, hchild⟩
      · obtain ⟨parent, hparent, hm⟩ := ih child hchild hm
        exact ⟨parent, .inr (mem_flatten.2 ⟨child, hchild, hparent⟩), hm⟩
  obtain ⟨node, hnode, rfl | hm⟩ := mem_flatten.1 h
  · exact .inl hnode
  · obtain ⟨parent, hparent, hm⟩ := hbelow node hm
    exact .inr ⟨parent, mem_flatten.2 ⟨node, hnode, hparent⟩, hm⟩

theorem size_eq_length (nodes : List Node) : size nodes = (flatten nodes).length := by
  have hforest (nodes : List Node) (h : ∀ node ∈ nodes, node.size = node.flatten.length) :
      size nodes = (flatten nodes).length := by
    induction nodes with
    | nil => rfl
    | cons node nodes ih =>
      obtain ⟨hnode, hnodes⟩ := List.forall_mem_cons.1 h
      rw [size, total, hnode, ← size, ih hnodes, flatten, flatten, List.flatMap_cons,
        List.length_append]
  have hnode (node : Node) : node.size = node.flatten.length := by
    induction node using Node.induct with
    | h node ih => rw [Node.size_eq, hforest _ ih, Node.flatten_eq, List.length_cons, Nat.add_comm]
  exact hforest nodes fun node _ ↦ hnode node

/-! ## What finished nodes are like -/

/-- Whether a line may hang below another: it is indented more, as are all lines in between. -/
def Encloses (lines : List Text) (j i : Nat) : Prop :=
  j < i ∧ widthAt lines j < widthAt lines i ∧ IsClear lines j i

/-- Whether the node of a line hangs below the nearest node that it may hang below, or stands at the
top if there is none. -/
def IsParent (profile : Profile) (lines : List Text) (parent? : Option Nat) (i : Nat) : Prop :=
  match parent? with
  | some parent => IsGreatest {j | isNode profile lines j ∧ Encloses lines j i} parent
  | none => ∀ j, isNode profile lines j → ¬ Encloses lines j i

/-- Whether the node that starts at line `j` is open when line `i` has closed the wider ones. -/
def isOpenAt (profile : Profile) (lines : List Text) (j i : Nat) : Bool :=
  ((reached profile (lines.take i)).popWhile (widthAt lines i < ·)).stack.any (·.lineStart = j)

/-- Whether line `i` is consumed while the node that starts at line `j` is open. -/
def isConsumedIn (profile : Profile) (lines : List Text) (j i : Nat) : Bool :=
  isConsumed profile lines i && isOpenAt profile lines j i

/-- What a finished node is like: its children follow one another inside it, and it ends where the
last of what belongs to it ends. -/
structure Sound (profile : Profile) (lines : List Text) (node : Node) : Prop where
  start_le : node.lineStart ≤ node.lineEnd
  end_lt : node.lineEnd < lines.length
  parent : ∀ child ∈ node.children, IsParent profile lines (some node.lineStart) child.lineStart
  within : ∀ child ∈ node.children, child.lineEnd ≤ node.lineEnd
  apart : node.children.IsChain fun node next ↦ node.lineEnd < next.lineStart
  ends : node.lineEnd = node.lineStart ∨ (∃ child ∈ node.children, child.lineEnd = node.lineEnd)
    ∨ isConsumedIn profile lines node.lineStart node.lineEnd
  closers : ∀ i, isConsumedIn profile lines node.lineStart i → i ≤ node.lineEnd

/-- What the finished nodes below one node, or at the top, are like, the latest first. -/
structure Grown (profile : Profile) (lines : List Text) (parent? : Option Nat) (nodes : List Node) :
    Prop where
  parent : ∀ node ∈ nodes, IsParent profile lines parent? node.lineStart
  sound : ∀ node ∈ flatten nodes, Sound profile lines node
  apart : nodes.IsChain fun next node ↦ node.lineEnd < next.lineStart

/-- The finished nodes that the innermost open node follows once it is finished. -/
def siblings (stack : List OpenNode) (roots : List Node) : List Node :=
  match stack with
  | [] => roots
  | node :: _ => node.children

/-- What an open node is like, given the nodes around it and the finished nodes before it. -/
structure OpenNode.Sound (profile : Profile) (lines : List Text) (parent? : Option Nat)
    (before : List Node) (node : OpenNode) : Prop where
  parent : IsParent profile lines parent? node.lineStart
  apart : ∀ other ∈ before, other.lineEnd < node.lineStart
  start_le : node.lineStart ≤ node.lineEnd
  within : ∀ child ∈ node.children, child.lineEnd ≤ node.lineEnd
  grown : Grown profile lines (some node.lineStart) node.children

/-- What a path of open nodes is like, the innermost first, with the finished nodes beside it. -/
inductive Path (profile : Profile) (lines : List Text) (roots : List Node) : List OpenNode → Prop where
  | nil (h : Grown profile lines none roots) : Path profile lines roots []
  | cons {node : OpenNode} {stack : List OpenNode}
      (hnode : node.Sound profile lines (stack.head?.map OpenNode.lineStart) (siblings stack roots))
      (h : Path profile lines roots stack) : Path profile lines roots (node :: stack)

/-- Whether a node ends where it starts, or where the last of what belongs to it ends. -/
def OpenNode.IsTip (profile : Profile) (lines : List Text) (node : OpenNode) : Prop :=
  node.lineEnd = node.lineStart ∨ (∃ child ∈ node.children, child.lineEnd = node.lineEnd)
    ∨ isConsumedIn profile lines node.lineStart node.lineEnd

variable {profile : Profile} {lines : List Text} {line : Text} {parent? : Option Nat} {i j : Nat}
  {inner : OpenNode} {stack : List OpenNode} {roots : List Node} {state : State}

/-! ## Finishing a node -/

theorem grown_nil : Grown profile lines parent? [] where
  parent _ h := absurd h List.not_mem_nil
  sound _ h := absurd h List.not_mem_nil
  apart := .nil

theorem mem_flatten_reverse : m ∈ flatten nodes.reverse ↔ m ∈ flatten nodes := by
  rw [mem_flatten, mem_flatten]
  simp only [List.mem_reverse]

theorem isInked_of_isConsumedIn (h : isConsumedIn profile lines j i) : isInked lines i :=
  (Bool.and_eq_true_iff.1 (Bool.and_eq_true_iff.1 h).1).1

/-- A node that is finished is sound, if it goes as far as the lines do. -/
theorem OpenNode.Sound.close (h : inner.Sound profile lines parent? nodes)
    (hends : IsGreatest {i | isInked lines i} inner.lineEnd) (htip : inner.IsTip profile lines) :
    Outline.Sound profile lines inner.close where
  start_le := h.start_le
  end_lt := lt_length_of_isInked hends.1
  parent child hchild := h.grown.parent child (List.mem_reverse.1 hchild)
  within child hchild := h.within child (List.mem_reverse.1 hchild)
  apart := List.isChain_reverse.2 h.grown.apart
  ends := by
    refine htip.imp_right (Or.imp_left ?_)
    rintro ⟨child, hchild, hend⟩
    exact ⟨child, List.mem_reverse.2 hchild, hend⟩
  closers i hi := hends.2 (isInked_of_isConsumedIn hi)

theorem Grown.close (hnodes : Grown profile lines parent? nodes)
    (h : inner.Sound profile lines parent? nodes)
    (hends : IsGreatest {i | isInked lines i} inner.lineEnd) (htip : inner.IsTip profile lines) :
    Grown profile lines parent? (inner.close :: nodes) where
  parent := List.forall_mem_cons.2 ⟨h.parent, hnodes.parent⟩
  sound m hm := by
    rw [flatten_cons, List.mem_cons, List.mem_append] at hm
    rcases hm with rfl | hm | hm
    · exact h.close hends htip
    · exact h.grown.sound m (mem_flatten_reverse.1 hm)
    · exact hnodes.sound m hm
  apart := List.isChain_cons.2
    ⟨fun other hother ↦ h.apart other (List.mem_of_head? hother), hnodes.apart⟩

/-! ## The first lines of the nodes -/

/-- The first lines of the open nodes and of the finished nodes below them, in order. -/
def openStarts : List OpenNode → List Nat
  | [] => []
  | node :: stack =>
    openStarts stack ++ node.lineStart :: (flatten node.children.reverse).map Node.lineStart

/-- The first lines of all nodes, in order. -/
def State.starts (state : State) : List Nat :=
  (flatten state.roots.reverse).map Node.lineStart ++ openStarts state.stack

theorem map_flatten_reverse_close (inner : OpenNode) (nodes : List Node) :
    (flatten (inner.close :: nodes).reverse).map Node.lineStart
      = (flatten nodes.reverse).map Node.lineStart
        ++ inner.lineStart :: (flatten inner.children.reverse).map Node.lineStart := by
  rw [List.reverse_cons, flatten_append, List.map_append, flatten_cons, List.map_cons,
    List.map_append]
  simp [flatten, OpenNode.close, Node.children, Node.lineStart]

theorem State.starts_pop (state : State) : state.pop.starts = state.starts := by
  obtain ⟨stack, roots⟩ := state
  cases stack with
  | nil => rfl
  | cons inner stack =>
    cases stack with
    | nil =>
      change List.map _ (flatten (inner.close :: roots).reverse) ++ [] = _
      rw [map_flatten_reverse_close]
      simp [starts, openStarts]
    | cons outer stack =>
      change List.map _ (flatten roots.reverse) ++ (openStarts stack ++ outer.lineStart
        :: List.map _ (flatten (inner.close :: outer.children).reverse)) = _
      rw [map_flatten_reverse_close]
      simp [starts, openStarts]

theorem State.starts_extend (number : Nat) (state : State) :
    (state.extend number).starts = state.starts := by
  obtain ⟨stack, roots⟩ := state
  have hstack : openStarts (stack.map fun node ↦ { node with lineEnd := number })
      = openStarts stack := by
    induction stack with
    | nil => rfl
    | cons node stack ih => rw [List.map_cons, openStarts, ih, openStarts]
  rw [starts, starts, extend, hstack]

theorem State.starts_push (profile : Profile) (number : Nat) (line : Text) (state : State) :
    (state.push (opened profile number line)).starts = state.starts ++ [number] := by
  simp [starts, push, openStarts, opened, flatten]

/-- The finished nodes. -/
def State.finished (state : State) : List Node :=
  flatten state.roots ++ state.stack.flatMap fun node ↦ flatten node.children

theorem flatten_reverse_perm (nodes : List Node) : (flatten nodes.reverse).Perm (flatten nodes) :=
  (List.reverse_perm nodes).flatMap_right Node.flatten

theorem openStarts_perm (stack : List OpenNode) :
    (openStarts stack).Perm (stack.map OpenNode.lineStart
      ++ (stack.flatMap fun node ↦ flatten node.children).map Node.lineStart) := by
  induction stack with
  | nil => exact .nil
  | cons inner stack ih =>
    have hinner := (flatten_reverse_perm inner.children).map Node.lineStart
    rw [List.perm_iff_count] at ih hinner ⊢
    intro start
    have hcounts := ih start
    simp only [openStarts, List.map_cons, List.flatMap_cons, List.map_append, List.cons_append,
      List.count_append, List.count_cons, hinner start] at hcounts ⊢
    omega

theorem State.starts_perm (state : State) :
    state.starts.Perm (state.stack.map OpenNode.lineStart ++ state.finished.map Node.lineStart) := by
  have hroots := (flatten_reverse_perm state.roots).map Node.lineStart
  have hstack := openStarts_perm state.stack
  rw [List.perm_iff_count] at hroots hstack ⊢
  intro start
  have hcounts := hstack start
  simp only [starts, finished, List.map_append, List.count_append, hroots start] at hcounts ⊢
  omega

/-- If no first line occurs twice, no finished node starts where an open one does. -/
theorem State.lineStart_ne_of_nodup (h : state.starts.Nodup) (hm : m ∈ state.finished)
    (hinner : inner ∈ state.stack) : inner.lineStart ≠ m.lineStart := by
  have hnodup := state.starts_perm.nodup_iff.1 h
  exact (List.nodup_append.1 hnodup).2.2 _ (List.mem_map_of_mem hinner) _ (List.mem_map_of_mem hm)

/-! ## One more line -/

theorem encloses_append (h : i < lines.length) (more : List Text) :
    Encloses (lines ++ more) j i ↔ Encloses lines j i := by
  refine and_congr_right fun hj ↦ ?_
  have hlength : j < lines.length := Nat.lt_trans hj h
  rw [widthAt_append hlength, widthAt_append h, isClear_append hlength (Nat.le_of_lt h)]

/-- Which node a line hangs below is settled by the lines before it. -/
theorem isParent_append (h : i < lines.length) (more : List Text) :
    IsParent profile (lines ++ more) parent? i ↔ IsParent profile lines parent? i := by
  have hset (j : Nat) : isNode profile (lines ++ more) j ∧ Encloses (lines ++ more) j i
      ↔ isNode profile lines j ∧ Encloses lines j i := by
    rw [encloses_append h]
    refine and_congr_left fun hencloses ↦ ?_
    rw [isNode_append (Nat.lt_trans hencloses.1 h)]
  cases parent? with
  | some parent => simp only [IsParent, hset]
  | none =>
    simp only [IsParent, ← not_and]
    exact forall_congr' fun j ↦ not_congr (hset j)

theorem isConsumedIn_append (h : i < lines.length) (more : List Text) :
    isConsumedIn profile (lines ++ more) j i = isConsumedIn profile lines j i := by
  rw [isConsumedIn, isOpenAt, isConsumed_append h, widthAt_append h,
    List.take_append_of_le_length (Nat.le_of_lt h), isConsumedIn, isOpenAt]

theorem lt_or_eq_of_isInked_concat (h : isInked (lines ++ [line]) i) :
    i < lines.length ∨ i = lines.length :=
  Nat.lt_succ_iff_lt_or_eq.1 (by simpa using lt_length_of_isInked h)

/-- A finished node stays sound unless a line is consumed in it. -/
theorem Sound.concat (h : Sound profile lines m)
    (hchildren : ∀ child ∈ m.children, child.lineStart < lines.length)
    (hnew : isConsumedIn profile (lines ++ [line]) m.lineStart lines.length = false) :
    Sound profile (lines ++ [line]) m where
  start_le := h.start_le
  end_lt := by
    rw [List.length_append]
    exact Nat.lt_add_right _ h.end_lt
  parent child hchild := (isParent_append (hchildren child hchild) [line]).2 (h.parent child hchild)
  within := h.within
  apart := h.apart
  ends := by
    rw [isConsumedIn_append h.end_lt]
    exact h.ends
  closers i hi := by
    rcases lt_or_eq_of_isInked_concat (isInked_of_isConsumedIn hi) with hlt | rfl
    · rw [isConsumedIn_append hlt] at hi
      exact h.closers i hi
    · rw [hnew] at hi
      exact absurd hi Bool.false_ne_true

theorem Grown.lineStart_lt (h : Grown profile lines parent? nodes) (hm : m ∈ flatten nodes) :
    m.lineStart < lines.length :=
  Nat.lt_of_le_of_lt (h.sound m hm).start_le (h.sound m hm).end_lt

theorem Grown.concat (h : Grown profile lines parent? nodes)
    (hnew : ∀ m ∈ flatten nodes,
      isConsumedIn profile (lines ++ [line]) m.lineStart lines.length = false) :
    Grown profile (lines ++ [line]) parent? nodes where
  parent m hm :=
    (isParent_append (h.lineStart_lt (mem_flatten_of_mem hm)) [line]).2 (h.parent m hm)
  sound m hm := by
    refine (h.sound m hm).concat (fun child hchild ↦ ?_) (hnew m hm)
    exact h.lineStart_lt (mem_flatten_of_mem_children hm hchild)
  apart := h.apart

theorem OpenNode.Sound.concat (h : inner.Sound profile lines parent? nodes)
    (hend : inner.lineEnd < lines.length)
    (hnew : ∀ m ∈ flatten inner.children,
      isConsumedIn profile (lines ++ [line]) m.lineStart lines.length = false) :
    inner.Sound profile (lines ++ [line]) parent? nodes where
  parent := (isParent_append (Nat.lt_of_le_of_lt h.start_le hend) [line]).2 h.parent
  apart := h.apart
  start_le := h.start_le
  within := h.within
  grown := h.grown.concat hnew

theorem Path.concat (h : Path profile lines roots stack)
    (hends : ∀ node ∈ stack, node.lineEnd < lines.length)
    (hnew : ∀ m ∈ (State.mk stack roots).finished,
      isConsumedIn profile (lines ++ [line]) m.lineStart lines.length = false) :
    Path profile (lines ++ [line]) roots stack := by
  induction h with
  | nil h => exact .nil (h.concat fun m hm ↦ hnew m (List.mem_append_left _ hm))
  | cons hnode h ih =>
    obtain ⟨hend, hends⟩ := List.forall_mem_cons.1 hends
    refine .cons (hnode.concat hend fun m hm ↦ hnew m ?_) (ih hends fun m hm ↦ hnew m ?_)
    · exact List.mem_append_right _ (List.mem_append_left _ hm)
    · exact (List.mem_append.1 hm).elim (List.mem_append_left _)
        fun hm ↦ List.mem_append_right _ (List.mem_append_right _ hm)

/-- The finished nodes beside the innermost open node are sound. -/
theorem Path.exists_grown (h : Path profile lines roots stack) :
    ∃ parent?, Grown profile lines parent? (siblings stack roots) := by
  cases h with
  | nil h => exact ⟨none, h⟩
  | cons hnode _ => exact ⟨_, hnode.grown⟩

theorem siblings_map_lineEnd (number : Nat) (stack : List OpenNode) (roots : List Node) :
    siblings (stack.map fun node ↦ { node with lineEnd := number }) roots = siblings stack roots := by
  cases stack <;> rfl

theorem head?_map_lineEnd (number : Nat) (stack : List OpenNode) :
    (stack.map fun node ↦ { node with lineEnd := number }).head?.map OpenNode.lineStart
      = stack.head?.map OpenNode.lineStart := by
  cases stack <;> rfl

/-- All open nodes may be taken to go on to the last line. -/
theorem Path.extend {number : Nat} (h : Path profile lines roots stack)
    (hnumber : lines.length = number + 1) (hends : ∀ node ∈ stack, node.lineEnd ≤ number) :
    Path profile lines roots (stack.map fun node ↦ { node with lineEnd := number }) := by
  induction h with
  | nil h => exact .nil h
  | cons hnode h ih =>
    obtain ⟨hend, hends⟩ := List.forall_mem_cons.1 hends
    refine .cons ⟨?_, ?_, Nat.le_trans hnode.start_le hend, fun child hchild ↦ ?_, hnode.grown⟩
      (ih hends)
    · rw [head?_map_lineEnd]
      exact hnode.parent
    · rw [siblings_map_lineEnd]
      exact hnode.apart
    · have hlength := (hnode.grown.sound child (mem_flatten_of_mem hchild)).end_lt
      change child.lineEnd ≤ number
      omega

/-! ## The states of a run -/

/-- What the states of a run through the lines are like: the open nodes all go on to the last line
that is not blank, and the innermost of them has something that ends there. -/
structure State.Built (profile : Profile) (lines : List Text) (state : State) : Prop where
  path : Path profile lines state.roots state.stack
  ends : ∀ node ∈ state.stack, IsGreatest {i | isInked lines i} node.lineEnd
  tip : ∀ node ∈ state.stack.head?, node.IsTip profile lines
  starts : state.starts = (List.range lines.length).filter (isNode profile lines)

theorem State.Built.pop (h : state.Built profile lines) : state.pop.Built profile lines := by
  have hstarts := state.starts_pop.trans h.starts
  obtain ⟨stack, roots⟩ := state
  cases stack with
  | nil => exact h
  | cons inner stack =>
    obtain ⟨hend, hends⟩ := List.forall_mem_cons.1 h.ends
    have htip := h.tip inner rfl
    cases h.path with
    | cons hinner hpath =>
      cases hpath with
      | nil hroots =>
        refine ⟨.nil (hroots.close hinner hend htip), ?_, ?_, hstarts⟩
        · exact fun node hnode ↦ absurd hnode List.not_mem_nil
        · exact fun node hnode ↦ absurd hnode (by simp [State.pop])
      | @cons outer stack houter hpath =>
        obtain ⟨hend', hends⟩ := List.forall_mem_cons.1 hends
        -- The open nodes all end at the same line, so the parent ends where its new child does.
        have heq : inner.lineEnd = outer.lineEnd := hend.unique hend'
        refine ⟨.cons ⟨houter.parent, houter.apart, houter.start_le, ?_,
          houter.grown.close hinner hend htip⟩ hpath, ?_, ?_, hstarts⟩
        · exact List.forall_mem_cons.2 ⟨Nat.le_of_eq heq, houter.within⟩
        · exact List.forall_mem_cons.2 ⟨hend', hends⟩
        · rintro node ⟨⟩
          exact .inr (.inl ⟨inner.close, List.mem_cons_self, heq⟩)

theorem State.Built.popWhile (h : state.Built profile lines) (p : Nat → Bool) :
    (state.popWhile p).Built profile lines :=
  popWhile_keeps p (fun _ _ ↦ Built.pop) h

theorem State.Built.lineEnd_lt (h : state.Built profile lines) :
    ∀ node ∈ state.stack, node.lineEnd < lines.length :=
  fun node hnode ↦ lt_length_of_isInked (h.ends node hnode).1

theorem State.Built.nodup (h : state.Built profile lines) : state.starts.Nodup := by
  rw [h.starts]
  exact List.nodup_range.filter _

theorem filter_isNode_concat (profile : Profile) (lines : List Text) (line : Text) :
    (List.range (lines ++ [line]).length).filter (isNode profile (lines ++ [line]))
      = (List.range lines.length).filter (isNode profile lines)
        ++ if isNode profile (lines ++ [line]) lines.length then [lines.length] else [] := by
  rw [List.length_append, List.length_singleton, List.range_succ, List.filter_append,
    List.filter_congr fun i hi ↦ isNode_append (List.mem_range.1 hi) [line], List.filter_singleton,
    Bool.cond_eq_ite]

theorem isGreatest_isInked_concat (h : isVoid line = false) :
    IsGreatest {i | isInked (lines ++ [line]) i} lines.length := by
  have hlast : isInked (lines ++ [line]) lines.length := by rw [isInked_length, h]; rfl
  refine ⟨hlast, fun i hi ↦ ?_⟩
  exact (lt_or_eq_of_isInked_concat hi).elim Nat.le_of_lt Nat.le_of_eq

/-- A blank line changes nothing. -/
theorem State.Built.blank (h : state.Built profile lines) (hvoid : isVoid line) :
    state.Built profile (lines ++ [line]) := by
  have hinked : isInked (lines ++ [line]) lines.length = false := by rw [isInked_length, hvoid]; rfl
  have hnew (j : Nat) : isConsumedIn profile (lines ++ [line]) j lines.length = false := by
    rw [isConsumedIn, isConsumed, hinked]
    rfl
  refine ⟨h.path.concat h.lineEnd_lt fun m _ ↦ hnew m.lineStart, fun node hnode ↦ ?_,
    fun node hnode ↦ ?_, ?_⟩
  · obtain ⟨hlast, hupper⟩ := h.ends node hnode
    have hlength := lt_length_of_isInked hlast
    refine ⟨(isInked_append hlength [line]).trans hlast, fun i hi ↦ ?_⟩
    rcases lt_or_eq_of_isInked_concat hi with hlt | rfl
    · exact hupper ((isInked_append hlt [line]).symm.trans hi)
    · exact absurd (hinked.symm.trans hi) Bool.false_ne_true
  · rw [OpenNode.IsTip, isConsumedIn_append (h.lineEnd_lt node (List.mem_of_head? hnode))]
    exact h.tip node hnode
  · rw [filter_isNode_concat, isNode, hinked, h.starts]
    simp

/-- The nodes that a new line may hang below are the open ones that are indented less. -/
theorem encloses_length_iff (profile : Profile) (lines : List Text) (line : Text) (j : Nat) :
    isNode profile (lines ++ [line]) j ∧ Encloses (lines ++ [line]) j lines.length
      ↔ ∃ key ∈ (reached profile lines).keys.filter (·.1 < width line), key.2 = j := by
  have hfollows := follows_reached profile lines
  constructor
  · rintro ⟨hnode, hj, hwidth, hclear⟩
    rw [isNode_append hj] at hnode
    rw [widthAt_append hj, widthAt_length] at hwidth
    rw [isClear_append hj (Nat.le_refl _)] at hclear
    have hkey := (hfollows.mem_iff (widthAt lines j, j)).2 ⟨hnode, rfl, hclear⟩
    exact ⟨_, List.mem_filter.2 ⟨hkey, by simpa using hwidth⟩, rfl⟩
  · rintro ⟨key, hkey, rfl⟩
    obtain ⟨hkey, hw⟩ := List.mem_filter.1 hkey
    have hj := hfollows.lt_length hkey
    obtain ⟨hnode, hwidth, hclear⟩ := (hfollows.mem_iff key).1 hkey
    refine ⟨by rwa [isNode_append hj], hj, ?_, (isClear_append hj (Nat.le_refl _) [line]).2 hclear⟩
    rw [widthAt_append hj, widthAt_length, ← hwidth]
    simpa using hw

/-- A new line hangs below the innermost open node that is indented less. -/
theorem isParent_length (profile : Profile) (lines : List Text) (line : Text) :
    IsParent profile (lines ++ [line])
      (((reached profile lines).keys.filter (·.1 < width line)).head?.map Prod.snd) lines.length := by
  have hnested := (follows_reached profile lines).nested.filter (·.1 < width line)
  have hiff := encloses_length_iff profile lines line
  generalize (reached profile lines).keys.filter (·.1 < width line) = keys at hnested hiff
  cases keys with
  | nil =>
    intro j hnode hencloses
    obtain ⟨key, hkey, -⟩ := (hiff j).1 ⟨hnode, hencloses⟩
    exact absurd hkey List.not_mem_nil
  | cons first others =>
    refine ⟨(hiff first.2).2 ⟨first, List.mem_cons_self, rfl⟩, fun j hj ↦ ?_⟩
    obtain ⟨key, hkey, rfl⟩ := (hiff j).1 hj
    rcases List.mem_cons.1 hkey with rfl | hkey
    · exact Nat.le_refl _
    · exact Nat.le_of_lt ((List.pairwise_cons.1 hnested).1 key hkey).2

theorem isConsumedIn_length (h : isConsumed profile (lines ++ [line]) lines.length) (j : Nat) :
    isConsumedIn profile (lines ++ [line]) j lines.length
      = ((reached profile lines).popWhile (width line < ·)).stack.any (·.lineStart = j) := by
  rw [isConsumedIn, h, isOpenAt, List.take_left, widthAt_length]
  rfl

/-- A line that is consumed goes to all open nodes and closes the innermost. -/
theorem built_add_of_consumes (h : (reached profile lines).Built profile lines)
    (hvoid : isVoid line = false) (hconsumes : (reached profile lines).consumes line) :
    ((reached profile lines).add profile lines.length line).Built profile (lines ++ [line]) := by
  have hconsumed : isConsumed profile (lines ++ [line]) lines.length := by
    rw [isConsumed_length, hvoid, hconsumes]
    rfl
  have hin := isConsumedIn_length hconsumed
  have hpopped := h.popWhile (width line < ·)
  rw [State.add_of_consumes hconsumes]
  generalize (reached profile lines).popWhile (width line < ·) = popped at hin hpopped
  -- No finished node is open, so none of them is touched by the line.
  have hpath : Path profile (lines ++ [line]) popped.roots popped.stack := by
    refine hpopped.path.concat hpopped.lineEnd_lt fun m hm ↦ ?_
    rw [hin, List.any_eq_false]
    intro inner hinner
    simpa using State.lineStart_ne_of_nodup hpopped.nodup hm hinner
  refine State.Built.pop ⟨hpath.extend (by simp) fun node hnode ↦ ?_, fun node hnode ↦ ?_,
    fun node hnode ↦ ?_, ?_⟩
  · exact Nat.le_of_lt (hpopped.lineEnd_lt node hnode)
  · obtain ⟨inner, -, rfl⟩ := List.mem_map.1 hnode
    exact isGreatest_isInked_concat hvoid
  · obtain ⟨inner, hinner, rfl⟩ := List.mem_map.1 (List.mem_of_head? hnode)
    refine .inr (.inr ((hin _).trans ?_))
    exact List.any_eq_true.2 ⟨inner, hinner, by simp⟩
  · rw [State.starts_extend, hpopped.starts, filter_isNode_concat, isNode, hconsumed]
    simp

/-- Any other line becomes a node below the innermost open node that is indented less. -/
theorem built_add_of_not_consumes (h : (reached profile lines).Built profile lines)
    (hvoid : isVoid line = false) (hconsumes : (reached profile lines).consumes line = false) :
    ((reached profile lines).add profile lines.length line).Built profile (lines ++ [line]) := by
  have hnode : isNode profile (lines ++ [line]) lines.length := by
    rw [isNode_length, hvoid, hconsumes]
    rfl
  have hnew (j : Nat) : isConsumedIn profile (lines ++ [line]) j lines.length = false := by
    rw [isConsumedIn, isConsumed_length, hconsumes, Bool.and_false]
    rfl
  have hpopped := (h.popWhile (width line < ·)).popWhile (width line ≤ ·)
  have hparent := isParent_length profile lines line
  rw [← State.keys_popWhile_le (follows_reached profile lines).nested, State.keys, List.head?_map,
    Option.map_map] at hparent
  rw [State.add_of_not_consumes hconsumes]
  generalize ((reached profile lines).popWhile (width line < ·)).popWhile (width line ≤ ·) = popped
    at hpopped hparent
  have hpath : Path profile (lines ++ [line]) popped.roots (popped.extend lines.length).stack := by
    have hconcat := hpopped.path.concat hpopped.lineEnd_lt fun m _ ↦ hnew m.lineStart
    exact hconcat.extend (by simp) fun node hnode ↦ Nat.le_of_lt (hpopped.lineEnd_lt node hnode)
  obtain ⟨parent?, hgrown⟩ := hpopped.path.exists_grown
  have hopened : (opened profile lines.length line).Sound profile (lines ++ [line])
      ((popped.extend lines.length).stack.head?.map OpenNode.lineStart)
      (siblings (popped.extend lines.length).stack popped.roots) := by
    refine ⟨?_, fun other hother ↦ ?_, Nat.le_refl _, ?_, grown_nil⟩
    · rw [State.extend, head?_map_lineEnd]
      exact hparent
    · rw [State.extend, siblings_map_lineEnd] at hother
      exact (hgrown.sound other (mem_flatten_of_mem hother)).end_lt
    · exact fun child hchild ↦ absurd hchild List.not_mem_nil
  refine ⟨.cons hopened hpath, List.forall_mem_cons.2 ⟨isGreatest_isInked_concat hvoid, ?_⟩, ?_, ?_⟩
  · intro node hnode
    obtain ⟨inner, -, rfl⟩ := List.mem_map.1 hnode
    exact isGreatest_isInked_concat hvoid
  · rintro node ⟨⟩
    exact .inl rfl
  · rw [State.starts_push, State.starts_extend, hpopped.starts, filter_isNode_concat, if_pos hnode]

/-- Every state of a run through the lines is built as it should be. -/
theorem built_reached (profile : Profile) (lines : List Text) :
    (reached profile lines).Built profile lines := by
  induction lines using List.reverseRecOn with
  | nil =>
    refine ⟨.nil grown_nil, ?_, ?_, rfl⟩
    · exact fun node hnode ↦ absurd hnode List.not_mem_nil
    · exact fun node hnode ↦ absurd hnode (by simp [reached, State.addLines])
  | append_singleton lines line ih =>
    rw [reached_concat]
    split
    · rename_i hvoid
      exact ih.blank hvoid
    · rename_i hvoid
      rw [Bool.not_eq_true] at hvoid
      cases hconsumes : (reached profile lines).consumes line with
      | true => exact built_add_of_consumes ih hvoid hconsumes
      | false => exact built_add_of_not_consumes ih hvoid hconsumes

end Outline

end Recast
