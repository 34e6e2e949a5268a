import Mathlib.Data.List.Nodup
import Recast.Proofs.Outline.Growth
import Recast.Proofs.Session.Contract

/-!
# The forest of lines

The outline of a program is described by the widths of its lines alone.  A line that is not blank
starts one node, unless it is consumed: then it closes the node of its width that no line has ended
since.  A node hangs below the nearest node that is indented less and that no line in between has
ended.  The lines that a node spans are nested as the nodes are, and those of siblings are apart.
-/

namespace Recast.Outline

open Text

variable {profile : Profile} {code : Text} {m node parent : Node} {i : Nat}

/-! ## The finished outline -/

theorem stack_popWhile_true (state : State) : (state.popWhile fun _ ↦ true).stack = [] := by
  have hkeys := state.keys_popWhile fun _ ↦ true
  rw [List.dropWhile_eq_nil_iff.2 (by simp)] at hkeys
  exact List.map_eq_nil_iff.1 hkeys

theorem ofCode_eq (profile : Profile) (code : Text) :
    ofCode profile code
      = ((reached profile (Text.lines code)).popWhile fun _ ↦ true).roots.reverse := rfl

theorem grown_ofCode (profile : Profile) (code : Text) :
    Grown profile (Text.lines code) none (ofCode profile code).reverse := by
  have hpath := ((built_reached profile (Text.lines code)).popWhile fun _ ↦ true).path
  rw [stack_popWhile_true] at hpath
  rw [ofCode_eq, List.reverse_reverse]
  cases hpath with
  | nil h => exact h

/-- The nodes of an outline start, in order, at the lines that are nodes. -/
theorem map_lineStart_flatten_ofCode (profile : Profile) (code : Text) :
    (flatten (ofCode profile code)).map Node.lineStart
      = (List.range (Text.lines code).length).filter (isNode profile (Text.lines code)) := by
  have hstarts := ((built_reached profile (Text.lines code)).popWhile fun _ ↦ true).starts
  rw [State.starts, stack_popWhile_true] at hstarts
  rw [ofCode_eq, ← hstarts]
  exact (List.append_nil _).symm

theorem nodup_map_lineStart_flatten_ofCode (profile : Profile) (code : Text) :
    ((flatten (ofCode profile code)).map Node.lineStart).Nodup := by
  rw [map_lineStart_flatten_ofCode]
  exact List.nodup_range.filter _

theorem eq_of_lineStart_eq (hm : m ∈ flatten (ofCode profile code))
    (hnode : node ∈ flatten (ofCode profile code)) (h : m.lineStart = node.lineStart) : m = node :=
  List.inj_on_of_nodup_map (nodup_map_lineStart_flatten_ofCode profile code) hm hnode h

theorem exists_lineStart_eq_iff :
    (∃ node ∈ flatten (ofCode profile code), node.lineStart = i)
      ↔ isNode profile (Text.lines code) i := by
  rw [← List.mem_map, map_lineStart_flatten_ofCode, List.mem_filter, List.mem_range]
  exact ⟨And.right, fun h ↦ ⟨lt_length_of_isNode h, h⟩⟩

theorem sound_of_mem_flatten_ofCode (h : m ∈ flatten (ofCode profile code)) :
    Sound profile (Text.lines code) m :=
  (grown_ofCode profile code).sound m (mem_flatten_reverse.2 h)

theorem isParent_none_of_mem_ofCode (h : m ∈ ofCode profile code) :
    IsParent profile (Text.lines code) none m.lineStart :=
  (grown_ofCode profile code).parent m (List.mem_reverse.2 h)

/-! ## Which nodes there are, and which node belongs to which -/

/-- Whether nodes are the forest of the lines by their widths. -/
structure IsForest (profile : Profile) (lines : List Text) (outline : List Node) : Prop where
  inked : ∀ node ∈ flatten outline, isInked lines node.lineStart
  /-- A line that is not blank starts one node, or it is consumed and starts none. -/
  countP_eq : ∀ i, isInked lines i →
    (flatten outline).countP (·.lineStart = i) = if isConsumed profile lines i then 0 else 1
  ordered : (flatten outline).Pairwise fun node next ↦ node.lineStart < next.lineStart
  /-- A line is consumed if it does nothing but close and a node of its width is not ended yet. -/
  isConsumed_iff : ∀ i, isConsumed profile lines i ↔ isCloser (trim (lineAt lines i))
    ∧ ∃ node ∈ flatten outline, node.lineStart < i
      ∧ widthAt lines node.lineStart = widthAt lines i ∧ IsClear lines node.lineStart i
  /-- A node belongs to the nearest node that encloses it. -/
  mem_children_iff : ∀ node ∈ flatten outline, ∀ parent ∈ flatten outline,
    node ∈ parent.children ↔ IsGreatest
      {j | (∃ other ∈ flatten outline, other.lineStart = j) ∧ Encloses lines j node.lineStart}
      parent.lineStart
  /-- A node that no node encloses is a root. -/
  mem_iff : ∀ node ∈ flatten outline, node ∈ outline ↔
    ∀ other ∈ flatten outline, ¬ Encloses lines other.lineStart node.lineStart

theorem isNode_eq_of_isInked (h : isInked (Text.lines code) i) :
    isNode profile (Text.lines code) i = !isConsumed profile (Text.lines code) i := by
  rw [isNode, h, Bool.true_and]

theorem countP_lineStart_ofCode (profile : Profile) (code : Text) (i : Nat) :
    (flatten (ofCode profile code)).countP (·.lineStart = i)
      = if isNode profile (Text.lines code) i then 1 else 0 := by
  have hcount : (flatten (ofCode profile code)).countP (·.lineStart = i)
      = ((flatten (ofCode profile code)).map Node.lineStart).count i := by
    rw [List.count_eq_countP, List.countP_map]
    rfl
  rw [hcount]
  split
  · next h =>
    exact List.count_eq_one_of_mem (nodup_map_lineStart_flatten_ofCode profile code)
      (List.mem_map.2 (exists_lineStart_eq_iff.2 h))
  · next h =>
    exact List.count_eq_zero_of_not_mem fun hmem ↦
      h (exists_lineStart_eq_iff.1 (List.mem_map.1 hmem))

theorem pairwise_flatten_ofCode (profile : Profile) (code : Text) :
    (flatten (ofCode profile code)).Pairwise fun node next ↦ node.lineStart < next.lineStart := by
  refine List.pairwise_map.1 ?_
  rw [map_lineStart_flatten_ofCode]
  exact List.pairwise_lt_range.filter _

/-- A line is consumed if it does nothing but close and a node of its width is not ended yet. -/
theorem isConsumed_iff_exists_mem (i : Nat) :
    isConsumed profile (Text.lines code) i ↔ isCloser (trim (lineAt (Text.lines code) i))
      ∧ ∃ node ∈ flatten (ofCode profile code), node.lineStart < i
        ∧ widthAt (Text.lines code) node.lineStart = widthAt (Text.lines code) i
        ∧ IsClear (Text.lines code) node.lineStart i := by
  rw [isConsumed_iff]
  refine and_congr_right fun _ ↦ ⟨?_, ?_⟩
  · rintro ⟨j, hlt, hnode, hwidth, hclear⟩
    obtain ⟨node, hmem, rfl⟩ := exists_lineStart_eq_iff.2 hnode
    exact ⟨node, hmem, hlt, hwidth, hclear⟩
  · rintro ⟨node, hmem, hlt, hwidth, hclear⟩
    exact ⟨_, hlt, exists_lineStart_eq_iff.1 ⟨node, hmem, rfl⟩, hwidth, hclear⟩

theorem isGreatest_of_mem_children (hparent : parent ∈ flatten (ofCode profile code))
    (h : node ∈ parent.children) :
    IsGreatest {j | (∃ other ∈ flatten (ofCode profile code), other.lineStart = j)
      ∧ Encloses (Text.lines code) j node.lineStart} parent.lineStart := by
  have hgreatest := (sound_of_mem_flatten_ofCode hparent).parent node h
  simp only [exists_lineStart_eq_iff]
  exact hgreatest

/-- A node with no other one around it stands at the top, and a node at the top has none. -/
theorem mem_ofCode_iff (h : node ∈ flatten (ofCode profile code)) :
    node ∈ ofCode profile code ↔ ∀ other ∈ flatten (ofCode profile code),
      ¬ Encloses (Text.lines code) other.lineStart node.lineStart := by
  constructor
  · intro hroot other hother
    exact isParent_none_of_mem_ofCode hroot _ (exists_lineStart_eq_iff.1 ⟨other, hother, rfl⟩)
  · intro hnone
    rcases mem_or_exists_of_mem_flatten h with hroot | ⟨parent, hparent, hchild⟩
    · exact hroot
    · exact absurd (isGreatest_of_mem_children hparent hchild).1.2 (hnone parent hparent)

theorem mem_children_iff_isGreatest (h : node ∈ flatten (ofCode profile code))
    (hparent : parent ∈ flatten (ofCode profile code)) :
    node ∈ parent.children ↔ IsGreatest
      {j | (∃ other ∈ flatten (ofCode profile code), other.lineStart = j)
        ∧ Encloses (Text.lines code) j node.lineStart} parent.lineStart := by
  refine ⟨isGreatest_of_mem_children hparent, fun hgreatest ↦ ?_⟩
  rcases mem_or_exists_of_mem_flatten h with hroot | ⟨other, hother, hchild⟩
  · exact absurd hgreatest.1.2 ((mem_ofCode_iff h).1 hroot parent hparent)
  · have hstart := (isGreatest_of_mem_children hother hchild).unique hgreatest
    rwa [← eq_of_lineStart_eq hother hparent hstart]

theorem answer_outline {settings : Settings} (h : (code.length : Int) ≤ settings.maxInput)
    (language? : Option Text) :
    settings.answer (.outline code language?) = settings.answerWithin (.outline code language?) := by
  have hcheck : settings.checkLengths [code] = .ok () :=
    (settings.checkLengths_eq_ok_iff [code]).2 (List.forall_mem_singleton.2 h)
  rw [Settings.answer, Request.texts, hcheck]
  rfl

/-- The outline of a program is the forest of its lines by indentation, and a request for it is
answered with the number of its nodes. -/
theorem isForest_ofCode (profile : Profile) (code : Text) :
    IsForest profile (Text.lines code) (ofCode profile code)
      ∧ ∀ (settings : Settings) (language? : Option Text), (code.length : Int) ≤ settings.maxInput →
        ∃ language nodes, language = Settings.languageOr code language?
          ∧ nodes = ofCode (Language.resolve (some language)).profile code
          ∧ settings.answer (.outline code language?)
            = .ok (.outlined language nodes (flatten nodes).length) := by
  refine ⟨?_, fun settings language? hlength ↦ ?_⟩
  · exact {
      inked node hnode :=
        (Bool.and_eq_true_iff.1 (exists_lineStart_eq_iff.1 ⟨node, hnode, rfl⟩)).1
      countP_eq i hi := by
        rw [countP_lineStart_ofCode, isNode_eq_of_isInked hi]
        cases isConsumed profile (Text.lines code) i <;> rfl
      ordered := pairwise_flatten_ofCode profile code
      isConsumed_iff := isConsumed_iff_exists_mem
      mem_children_iff node hnode parent hparent := mem_children_iff_isGreatest hnode hparent
      mem_iff node hnode := mem_ofCode_iff hnode }
  · refine ⟨_, _, rfl, rfl, ?_⟩
    rw [answer_outline hlength, ← size_eq_length]
    rfl

-- The closing line is consumed, so the indented line after it does not belong to it.
example :
    (ofCode Language.rust.profile "if a \x7b\n    b\n\x7d\n    c\nd").map Node.lineStart
      = [0, 3, 4] := by
  decide +kernel

/-! ## Which lines a node spans -/

/-- The nodes below a node end before it does. -/
theorem lineEnd_le_of_mem_flatten_children (hnode : node ∈ flatten (ofCode profile code))
    (h : m ∈ flatten node.children) : m.lineEnd ≤ node.lineEnd := by
  induction node using Node.induct with
  | h node ih =>
    obtain ⟨child, hchild, hm⟩ := mem_flatten.1 h
    have hwithin := (sound_of_mem_flatten_ofCode hnode).within child hchild
    rcases hm with rfl | hm
    · exact hwithin
    · exact Nat.le_trans (ih child hchild (mem_flatten_of_mem_children hnode hchild) hm) hwithin

/-- A node ends at its last line: its own, that of a node below it, or one consumed inside it. -/
theorem isGreatest_lineEnd (h : node ∈ flatten (ofCode profile code)) :
    IsGreatest ({node.lineStart} ∪ {i | ∃ below ∈ flatten node.children, below.lineEnd = i}
      ∪ {i | isConsumedIn profile (Text.lines code) node.lineStart i}) node.lineEnd := by
  have hsound := sound_of_mem_flatten_ofCode h
  constructor
  · rcases hsound.ends with hstart | ⟨child, hchild, hend⟩ | hconsumed
    · exact .inl (.inl hstart)
    · exact .inl (.inr ⟨child, mem_flatten_of_mem hchild, hend⟩)
    · exact .inr hconsumed
  · rintro i ((rfl | ⟨below, hbelow, rfl⟩) | hconsumed)
    · exact hsound.start_le
    · exact lineEnd_le_of_mem_flatten_children h hbelow
    · exact hsound.closers i hconsumed

/-- Whether the lines that nodes span are nested as the nodes are. -/
structure IsLaminar (profile : Profile) (lines : List Text) (outline : List Node) : Prop where
  start_le : ∀ node ∈ flatten outline, node.lineStart ≤ node.lineEnd
  inside : ∀ node ∈ flatten outline, ∀ child ∈ node.children,
    node.lineStart < child.lineStart ∧ child.lineEnd ≤ node.lineEnd
  siblings_apart : ∀ node ∈ flatten outline,
    node.children.IsChain fun child next ↦ child.lineEnd < next.lineStart
  roots_apart : outline.IsChain fun node next ↦ node.lineEnd < next.lineStart
  /-- A node ends at its last line: its own, that of a node below it, or one consumed inside it. -/
  isGreatest_end : ∀ node ∈ flatten outline, IsGreatest
    ({node.lineStart} ∪ {i | ∃ below ∈ flatten node.children, below.lineEnd = i}
      ∪ {i | isConsumedIn profile lines node.lineStart i}) node.lineEnd

theorem isLaminar_ofCode (profile : Profile) (code : Text) :
    IsLaminar profile (Text.lines code) (ofCode profile code) where
  start_le _ hnode := (sound_of_mem_flatten_ofCode hnode).start_le
  inside node hnode child hchild := by
    have hsound := sound_of_mem_flatten_ofCode hnode
    exact ⟨(hsound.parent child hchild).1.2.1, hsound.within child hchild⟩
  siblings_apart _ hnode := (sound_of_mem_flatten_ofCode hnode).apart
  roots_apart := List.isChain_reverse.1 (grown_ofCode profile code).apart
  isGreatest_end _ hnode := isGreatest_lineEnd hnode

end Recast.Outline
