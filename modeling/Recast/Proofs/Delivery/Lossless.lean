import Mathlib.Data.Rat.Floor
import Recast.Delivery.Frame
import Recast.Proofs.Text.Json

/-!
# Delivery is lossless

A text is cut into pieces of one size, of which only the last may be shorter, and each event carries
a piece and everything up to it.  The frames of the events are cut apart again at the empty lines
between them, since a record is written in plain characters, and each record is read back as the
event that it was written for.
-/

namespace Recast

open Text

namespace Event

/-! ## Pieces -/

section Pieces

variable {size : Nat} {t piece : Text}

theorem flatten_pieces (size : Nat) (t : Text) : (pieces size t).flatten = t := by
  fun_induction pieces size t with
  | case1 => rfl
  | case2 c rest ih => rw [List.flatten_cons, ih, List.cons_append, List.take_append_drop]

theorem length_of_mem_pieces (h : piece ∈ pieces size t) :
    piece ≠ [] ∧ piece.length ≤ size + 1 := by
  fun_induction pieces size t with
  | case1 => exact absurd h List.not_mem_nil
  | case2 c rest ih =>
    rcases List.mem_cons.1 h with rfl | h
    · exact ⟨List.cons_ne_nil _ _, Nat.succ_le_succ (List.length_take_le size rest)⟩
    · exact ih h

/-- A piece is short only where the text ends. -/
theorem length_of_mem_dropLast_pieces (h : piece ∈ (pieces size t).dropLast) :
    piece.length = size + 1 := by
  fun_induction pieces size t with
  | case1 => exact absurd h List.not_mem_nil
  | case2 c rest ih =>
    cases hlater : pieces size (rest.drop size) with
    | nil => simp [hlater] at h
    | cons second others =>
      rw [hlater, List.dropLast_cons_cons, List.mem_cons] at h
      rcases h with rfl | h
      · have hrest : rest.drop size ≠ [] := by
          intro hnil
          simp [hnil, pieces] at hlater
        rw [ne_eq, List.drop_eq_nil_iff, Nat.not_le] at hrest
        rw [List.length_cons, List.length_take_of_le (Nat.le_of_lt hrest)]
      · rw [hlater] at ih
        exact ih h

/-- The pieces cover the text, and they would not without the last of them. -/
theorem length_pieces_bounds (size : Nat) (t : Text) :
    t.length ≤ (pieces size t).length * (size + 1)
      ∧ (pieces size t).length * (size + 1) ≤ t.length + size := by
  fun_induction pieces size t with
  | case1 => simp
  | case2 c rest ih =>
    have hcount : (pieces size (rest.drop size)).length * (size + 1) ≤ rest.length := by
      by_cases hshort : rest.length ≤ size
      · rw [List.drop_eq_nil_of_le hshort]
        simp [pieces]
      · rw [List.length_drop] at ih
        omega
    rw [List.length_drop] at ih
    rw [List.length_cons, List.length_cons, Nat.succ_mul]
    omega

/-- There are as few pieces as their size allows. -/
theorem length_pieces_eq_ceil (size : Nat) (t : Text) :
    ((pieces size t).length : ℤ) = ⌈(t.length : ℚ) / (size + 1 : ℕ)⌉ := by
  obtain ⟨hcover, hfew⟩ := length_pieces_bounds size t
  have hpos : (0 : ℚ) < (size + 1 : ℕ) := by exact_mod_cast Nat.succ_pos size
  have hfew : (pieces size t).length * (size + 1) < t.length + (size + 1) := by omega
  symm
  rw [Int.ceil_eq_iff, lt_div_iff₀ hpos, div_le_iff₀ hpos, sub_mul, one_mul, sub_lt_iff_lt_add]
  exact ⟨by exact_mod_cast hfew, by exact_mod_cast hcover⟩

theorem ofPieces_eq (sofar : Text) (pieces : List Text) :
    ofPieces sofar pieces
      = pieces.mapIdx (fun k piece ↦ delta piece (sofar ++ (pieces.take (k + 1)).flatten))
        ++ [done] := by
  induction pieces generalizing sofar with
  | nil => rfl
  | cons piece pieces ih => simp [ofPieces, ih, List.mapIdx_cons]

theorem reassemble_ofPieces (sofar : Text) (pieces : List Text) :
    reassemble (ofPieces sofar pieces) = pieces.flatten := by
  induction pieces generalizing sofar with
  | nil => rfl
  | cons first others ih =>
    rw [ofPieces, reassemble, List.flatMap_cons, List.flatten_cons, ← ih]
    rfl

end Pieces

/-! ## Records -/

/-- The members of the record of an event. -/
def members : Event → List (Text × Text)
  | delta piece sofar => [("type", "delta"), ("delta", piece), ("full_text", sofar)]
  | done => [("type", "done")]

theorem record_eq (event : Event) : event.record = jsonRecord (event.members.map jsonMember) := by
  cases event <;> rfl

/-- The event whose record has the given members. -/
def ofMembers? (members : List (Text × Text)) : Option Event :=
  let find (name : Text) : Option Text := members.lookup name
  match find "type", find "delta", find "full_text" with
  | some type, some piece, some sofar => if type = "delta" then some (delta piece sofar) else none
  | some type, none, none => if type = "done" then some done else none
  | _, _, _ => none

/-- Reads the record of an event. -/
def ofRecord? (t : Text) : Option Event :=
  (jsonRecord? t).bind ofMembers?

theorem ofRecord?_record (event : Event) : ofRecord? event.record = some event := by
  have hmembers : ofMembers? event.members = some event := by cases event <;> rfl
  rw [ofRecord?, record_eq, jsonRecord?_jsonRecord, Option.bind_some, hmembers]

theorem isPlain_of_mem_record {event : Event} {c : Char} (h : c ∈ event.record) : isPlain c := by
  rw [record_eq] at h
  exact isPlain_of_mem_jsonRecord h

/-! ## Frames -/

/-- What ends a frame. -/
def frameEnd : Text := "\n\n"

/-- A frame without its end. -/
def frameLine (event : Event) : Text :=
  "data: " ++ event.record

theorem newline_notMem_frameLine (event : Event) : '\n' ∉ event.frameLine := by
  have hlabel : '\n' ∉ ("data: " : Text) := by decide
  rw [frameLine, List.mem_append, not_or]
  exact ⟨hlabel, fun h ↦ absurd (isPlain_of_mem_record h) (by decide)⟩

theorem length_lt_of_cut {separator t before after : Text} (hne : separator ≠ [])
    (h : cut separator t = (before, some after)) : after.length < t.length := by
  induction t generalizing before with
  | nil => simp [cut, hne] at h
  | cons c rest ih =>
    rw [cut] at h
    split at h
    · obtain ⟨-, hafter⟩ := Prod.mk.inj h
      rw [← Option.some.inj hafter, List.length_drop]
      have hpos : 0 < separator.length := List.length_pos_iff.2 hne
      simp only [List.length_cons]
      omega
    · obtain ⟨-, hafter⟩ := Prod.mk.inj h
      have hlater := ih (Prod.ext rfl hafter)
      simp only [List.length_cons]
      omega

/-- The frames of a stream without their ends; none if the last frame is not ended. -/
def framesOf? (stream : Text) : Option (List Text) :=
  if stream.isEmpty then some []
  else match _ : cut frameEnd stream with
    | (_, none) => none
    | (line, some rest) => (framesOf? rest).map (line :: ·)
termination_by stream.length
decreasing_by exact length_lt_of_cut (List.cons_ne_nil _ _) ‹_›

/-- Reads a stream of frames. -/
def ofStream? (stream : Text) : Option (List Event) :=
  (framesOf? stream).bind fun lines ↦ lines.mapM fun line ↦
    if startsWith line "data: " then ofRecord? (line.drop 6) else none

theorem cut_frameEnd {line : Text} (h : '\n' ∉ line) (rest : Text) :
    cut frameEnd (line ++ (frameEnd ++ rest)) = (line, some rest) := by
  induction line with
  | nil => rfl
  | cons c line ih =>
    have hc : frameEnd.isPrefixOf (c :: (line ++ (frameEnd ++ rest))) = false := by
      have hne : '\n' ≠ c := fun heq ↦ h (heq ▸ List.mem_cons_self)
      simp [frameEnd, List.isPrefixOf, hne]
    rw [List.cons_append, cut, hc, ih fun hmem ↦ h (List.mem_cons_of_mem c hmem)]
    rfl

/-- Frames without line ends of their own are cut apart again, so a stream has no other frames. -/
theorem framesOf?_flatMap {lines : List Text} (h : ∀ line ∈ lines, '\n' ∉ line) :
    framesOf? (lines.flatMap (· ++ frameEnd)) = some lines := by
  induction lines with
  | nil => simp [framesOf?]
  | cons line lines ih =>
    have hcut := cut_frameEnd (h line List.mem_cons_self) (lines.flatMap (· ++ frameEnd))
    rw [List.flatMap_cons, List.append_assoc, framesOf?, if_neg (by simp [frameEnd])]
    split
    · next hnone => simp [hcut] at hnone
    · next first rest hsome =>
      rw [hcut] at hsome
      obtain ⟨rfl, hrest⟩ := Prod.mk.inj hsome
      rw [← Option.some.inj hrest, ih fun other hother ↦ h other (List.mem_cons_of_mem line hother)]
      rfl

theorem framesOf?_frames (events : List Event) :
    framesOf? (events.flatMap frame) = some (events.map frameLine) := by
  rw [← framesOf?_flatMap, List.flatMap_map]
  · rfl
  · rintro _ hline
    obtain ⟨event, -, rfl⟩ := List.mem_map.1 hline
    exact newline_notMem_frameLine event

/-- A stream of frames is read back as its events. -/
theorem ofStream?_frames (events : List Event) :
    ofStream? (events.flatMap frame) = some events := by
  rw [ofStream?, framesOf?_frames, Option.bind_some]
  induction events with
  | nil => rfl
  | cons event events ih =>
    have hline : startsWith event.frameLine "data: " := by
      rw [startsWith, List.isPrefixOf_iff_prefix]
      exact List.prefix_append _ _
    have hrecord : event.frameLine.drop 6 = event.record := rfl
    rw [List.map_cons, List.mapM_cons, if_pos hline, hrecord, ofRecord?_record, ih]
    rfl

/-! ## Delivery -/

/-- Delivering a text loses nothing.  The events are those of pieces that cover the text, as few as
their size allows, each with all the pieces up to it, and one last event; together they bring the
text back.  Their records are written in plain characters, so the stream of their frames has no
other cut into lines, and reading the stream gives the events. -/
theorem ofText_lossless (code : Text) {size : Int} (hsize : 1 ≤ size) :
    ∃ pieces : List Text, ∃ events : List Event,
      events = pieces.mapIdx (fun k piece ↦ delta piece (pieces.take (k + 1)).flatten) ++ [done]
      ∧ ofText size code = .ok events
      ∧ (pieces.length : ℤ) = ⌈(code.length : ℚ) / size⌉
      ∧ (∀ piece ∈ pieces, piece ≠ [] ∧ (piece.length : ℤ) ≤ size)
      ∧ (∀ piece ∈ pieces.dropLast, (piece.length : ℤ) = size)
      ∧ reassemble events = code
      ∧ (∀ event ∈ events, ∀ c ∈ event.record, isPlain c)
      ∧ (∀ lines : List Text, (∀ line ∈ lines, '\n' ∉ line) →
          (lines.flatMap (· ++ frameEnd) = events.flatMap frame ↔ lines = events.map frameLine))
      ∧ framesOf? (events.flatMap frame) = some (events.map frameLine)
      ∧ (∀ event ∈ events, ofRecord? event.record = some event)
      ∧ ofStream? (events.flatMap frame) = some events := by
  obtain ⟨n, rfl⟩ : ∃ n : Nat, size = (n + 1 : ℕ) := ⟨size.toNat - 1, by omega⟩
  have hn : ((n + 1 : ℕ) : ℤ).toNat - 1 = n := by omega
  have htext : ofText (n + 1 : ℕ) code = .ok (ofPieces [] (pieces n code)) := by
    rw [ofText, if_neg (by omega), hn]
  have hevents := ofPieces_eq [] (pieces n code)
  refine ⟨pieces n code, ofPieces [] (pieces n code), by simpa using hevents, htext, ?_, ?_, ?_,
    ?_, ?_, ?_, framesOf?_frames _, fun event _ ↦ ofRecord?_record event, ofStream?_frames _⟩
  · rw [Int.cast_natCast]
    exact length_pieces_eq_ceil n code
  · intro piece hpiece
    obtain ⟨hne, hlength⟩ := length_of_mem_pieces hpiece
    exact ⟨hne, by exact_mod_cast hlength⟩
  · intro piece hpiece
    exact_mod_cast length_of_mem_dropLast_pieces hpiece
  · rw [reassemble_ofPieces, flatten_pieces]
  · exact fun event _ c ↦ isPlain_of_mem_record
  · intro lines hlines
    constructor
    · intro hstream
      have hframes := framesOf?_flatMap hlines
      rw [hstream, framesOf?_frames] at hframes
      exact (Option.some.inj hframes).symm
    · rintro rfl
      rw [List.flatMap_map]
      rfl

theorem ofText_lossless_astral :
    (1 : Int) ≤ 2 ∧ ∃ pieces : List Text, ∃ events : List Event,
      events = pieces.mapIdx (fun k piece ↦ delta piece (pieces.take (k + 1)).flatten) ++ [done]
      ∧ ofText 2 ['"', '\n', '😀'] = .ok events
      ∧ ofStream? (events.flatMap frame) = some events := by
  obtain ⟨pieces, events, hevents, htext, -, -, -, -, -, -, -, -, hstream⟩ :=
    ofText_lossless ['"', '\n', '😀'] (show (1 : Int) ≤ 2 by decide)
  exact ⟨by decide, pieces, events, hevents, htext, hstream⟩

end Event

end Recast
