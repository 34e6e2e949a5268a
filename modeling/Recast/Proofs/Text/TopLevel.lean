import Mathlib.Data.Nat.Find
import Mathlib.Order.Bounds.Basic
import Recast.Proofs.Text.Code
import Recast.Proofs.Text.Trim

/-!
# Brackets in code

A text is cut at its top level and its brackets are matched by scans that keep track of strings
themselves.  They agree with the segments of the text on what stands in code: each of them is
determined by the spots of the text, its characters with whether they stand in code, and by the
depth that the brackets in code reach.  What a scan makes of a spot depends on what stands before
it, so the beginning of a text and the part behind a cut have the spots that they have in the whole.
-/

namespace Recast

/-- The markers of an expression, which has strings of every kind and no comments. -/
def Markers.expression : Markers :=
  { comments := [], quotes := Text.allQuotes }

/-! ## Spots -/

/-- A character of a text, and whether it stands in code. -/
structure Spot where
  char : Char
  inCode : Bool
  deriving DecidableEq, Repr

namespace Spot

/-- How much deeper the brackets are behind the spot than before it. -/
def rise (spot : Spot) : Int :=
  if spot.inCode then
    if Text.openers.contains spot.char then 1
    else if Text.closers.contains spot.char then -1
    else 0
  else 0

variable {c : Char}

theorem rise_string (c : Char) : rise ⟨c, false⟩ = 0 := rfl

theorem rise_opener (hopen : Text.openers.contains c) : rise ⟨c, true⟩ = 1 := by
  rw [rise, if_pos rfl, if_pos hopen]

theorem rise_closer (hopen : ¬Text.openers.contains c) (hclose : Text.closers.contains c) :
    rise ⟨c, true⟩ = -1 := by
  rw [rise, if_pos rfl, if_neg hopen, if_pos hclose]

theorem rise_other (hopen : ¬Text.openers.contains c) (hclose : ¬Text.closers.contains c) :
    rise ⟨c, true⟩ = 0 := by
  rw [rise, if_pos rfl, if_neg hopen, if_neg hclose]

end Spot

namespace Segment

/-- The spots of the segments, one after another. -/
def spots (segments : List Segment) : List Spot :=
  segments.flatMap fun segment ↦ segment.text.map fun c ↦ ⟨c, segment.kind = .code⟩

theorem spots_cons (segment : Segment) (segments : List Segment) :
    spots (segment :: segments)
      = segment.text.map (fun c ↦ ⟨c, segment.kind = .code⟩) ++ spots segments :=
  List.flatMap_cons

theorem spots_append (segments others : List Segment) :
    spots (segments ++ others) = spots segments ++ spots others :=
  List.flatMap_append

theorem spots_flush (kind : SegmentKind) (read : Text) :
    spots (flush kind read) = read.reverse.map (⟨·, kind = .code⟩) := by
  cases read <;> simp [flush, spots]

end Segment

/-- The depth of the brackets that is reached after the spots. -/
def depthOf : List Spot → Int
  | [] => 0
  | spot :: spots => spot.rise + depthOf spots

theorem depthOf_append (spots others : List Spot) :
    depthOf (spots ++ others) = depthOf spots + depthOf others := by
  induction spots with
  | nil => rw [List.nil_append, depthOf, Int.zero_add]
  | cons spot spots ih => rw [List.cons_append, depthOf, ih, depthOf, Int.add_assoc]

namespace Text

/-- The spots of an expression. -/
def spots (t : Text) : List Spot :=
  Segment.spots (Markers.expression.segments t)

/-- The spots of the rest of an expression; `quote?` is the quote of the string it starts in. -/
def spotsFrom : (quote? : Option Char) → Text → List Spot
  | _, [] => []
  | none, c :: rest =>
    if allQuotes.contains c then ⟨c, false⟩ :: spotsFrom (some c) rest
    else ⟨c, true⟩ :: spotsFrom none rest
  | some quote, c :: rest =>
    if c == '\\' then
      match rest with
      | [] => [⟨c, false⟩]
      | d :: rest => ⟨c, false⟩ :: ⟨d, false⟩ :: spotsFrom (some quote) rest
    else ⟨c, false⟩ :: spotsFrom (if c == quote then none else some quote) rest

variable {quote? : Option Char} {c : Char} {t : Text}

theorem spotsFrom_none_cons (c : Char) (t : Text) :
    spotsFrom none (c :: t)
      = if allQuotes.contains c then ⟨c, false⟩ :: spotsFrom (some c) t
        else ⟨c, true⟩ :: spotsFrom none t := by
  rw [spotsFrom]

/-- In a string a backslash takes the next character with it. -/
theorem spotsFrom_some_cons (quote c : Char) (t : Text) :
    spotsFrom (some quote) (c :: t)
      = if c == '\\' then
          ⟨c, false⟩ :: ((t.take 1).map (⟨·, false⟩) ++ spotsFrom (some quote) (t.drop 1))
        else ⟨c, false⟩ :: spotsFrom (if c == quote then none else some quote) t := by
  cases t <;> simp [spotsFrom]

theorem spotsFrom_escape (hescape : c == '\\') (quote d : Char) (t : Text) :
    spotsFrom (some quote) (c :: d :: t)
      = ⟨c, false⟩ :: ⟨d, false⟩ :: spotsFrom (some quote) t := by
  rw [spotsFrom_some_cons, if_pos hescape]
  rfl

theorem spots_scan (quote? : Option Char) (read t : Text) :
    Segment.spots (Segment.scan .expression quote? read t)
      = read.reverse.map (⟨·, quote?.isNone⟩) ++ spotsFrom quote? t := by
  fun_induction Segment.scan Markers.expression quote? read t with
  | case1 read => simp [Segment.spots_flush, spotsFrom]
  | case2 quote read => simp [Segment.spots_flush, spotsFrom]
  | case3 read c rest hcomment => exact absurd hcomment Bool.false_ne_true
  | case4 read c rest _ hquote ih =>
    have hquote : allQuotes.contains c := hquote
    rw [Segment.spots_append, ih, Segment.spots_flush, spotsFrom_none_cons, if_pos hquote]
    simp
  | case5 read c rest _ hquote ih =>
    have hquote : ¬allQuotes.contains c := hquote
    rw [ih, spotsFrom_none_cons, if_neg hquote]
    simp
  | case6 quote read c hescape =>
    rw [Segment.spots_flush, spotsFrom_some_cons, if_pos hescape]
    simp [spotsFrom]
  | case7 quote read c hescape d rest ih =>
    rw [ih, spotsFrom_some_cons, if_pos hescape]
    simp
  | case8 quote read c rest hescape hclose ih =>
    rw [Segment.spots_cons, ih, spotsFrom_some_cons, if_neg hescape, if_pos hclose]
    simp
  | case9 quote read c rest hescape hclose ih =>
    rw [ih, spotsFrom_some_cons, if_neg hescape, if_neg hclose]
    simp

/-- The spots of an expression, read from its start. -/
theorem spots_eq_spotsFrom (t : Text) : t.spots = spotsFrom none t :=
  spots_scan none [] t

theorem map_char_spotsFrom (quote? : Option Char) (t : Text) :
    (spotsFrom quote? t).map Spot.char = t := by
  fun_induction spotsFrom quote? t <;> simp_all

theorem length_spotsFrom (quote? : Option Char) (t : Text) :
    (spotsFrom quote? t).length = t.length := by
  rw [← List.length_map (f := Spot.char), map_char_spotsFrom]

theorem length_spots (t : Text) : (Text.spots t).length = t.length := by
  rw [spots_eq_spotsFrom, length_spotsFrom]

/-- What comes later makes no difference to a spot. -/
theorem spotsFrom_isPrefix (quote? : Option Char) (u v : Text) :
    spotsFrom quote? u <+: spotsFrom quote? (u ++ v) := by
  fun_induction spotsFrom quote? u with
  | case1 quote? => exact List.nil_prefix
  | case2 c rest hquote ih =>
    rw [List.cons_append, spotsFrom_none_cons, if_pos hquote]
    exact List.cons_prefix_cons.2 ⟨rfl, ih⟩
  | case3 c rest hquote ih =>
    rw [List.cons_append, spotsFrom_none_cons, if_neg hquote]
    exact List.cons_prefix_cons.2 ⟨rfl, ih⟩
  | case4 quote c hescape =>
    rw [List.cons_append, spotsFrom_some_cons, if_pos hescape]
    exact List.cons_prefix_cons.2 ⟨rfl, List.nil_prefix⟩
  | case5 quote c hescape d rest ih =>
    rw [List.cons_append, spotsFrom_some_cons, if_pos hescape]
    exact List.cons_prefix_cons.2 ⟨rfl, List.cons_prefix_cons.2 ⟨rfl, ih⟩⟩
  | case6 quote c rest hescape ih =>
    rw [List.cons_append, spotsFrom_some_cons, if_neg hescape]
    exact List.cons_prefix_cons.2 ⟨rfl, ih⟩

/-- The spots before a place are those of the text before it. -/
theorem spotsFrom_map_char_of_append {before after : List Spot}
    (h : spotsFrom quote? t = before ++ after) :
    spotsFrom quote? (before.map Spot.char) = before := by
  have htext : before.map Spot.char ++ after.map Spot.char = t := by
    rw [← List.map_append, ← h, map_char_spotsFrom]
  have hstart := spotsFrom_isPrefix quote? (before.map Spot.char) (after.map Spot.char)
  rw [htext, h] at hstart
  refine (List.prefix_of_prefix_length_le hstart (List.prefix_append _ _) ?_).eq_of_length ?_ <;>
    simp [length_spotsFrom]

/-- The spots behind a character in code are those of the text behind it. -/
theorem spotsFrom_map_char_of_cons {before after : List Spot} {spot : Spot} (hcode : spot.inCode)
    (h : spotsFrom quote? t = before ++ spot :: after) :
    spotsFrom none (after.map Spot.char) = after := by
  -- In a string the spot comes later; in code it is the first one or comes later.
  have hlater {first : Spot} {others before : List Spot} (hfirst : first.inCode = false)
      (h : first :: others = before ++ spot :: after) :
      ∃ before, others = before ++ spot :: after := by
    cases before with
    | nil =>
      obtain ⟨rfl, -⟩ := List.cons.inj h
      exact absurd hcode (by simp [hfirst])
    | cons _ before => exact ⟨before, (List.cons.inj h).2⟩
  fun_induction spotsFrom quote? t generalizing before with
  | case1 => exact absurd h (by simp)
  | case2 c rest hquote ih =>
    obtain ⟨before, h⟩ := hlater rfl h
    exact ih h
  | case3 c rest hquote ih =>
    cases before with
    | nil =>
      obtain ⟨-, rfl⟩ := List.cons.inj h
      rw [map_char_spotsFrom]
    | cons _ before => exact ih (List.cons.inj h).2
  | case4 quote c hescape =>
    obtain ⟨before, h⟩ := hlater rfl h
    exact absurd h (by simp)
  | case5 quote c hescape d rest ih =>
    obtain ⟨before, h⟩ := hlater rfl h
    obtain ⟨before, h⟩ := hlater rfl h
    exact ih h
  | case6 quote c rest hescape ih =>
    obtain ⟨before, h⟩ := hlater rfl h
    exact ih h

/-! ## Cutting at the top level -/

end Text

namespace Spot

/-- Whether a text is cut at the spot, which stands at the given depth. -/
def cuts (separator : Char) (depth : Int) (spot : Spot) : Bool :=
  spot.inCode && spot.char == separator && depth == 0

theorem cuts_of_ne {separator : Char} {spot : Spot} (h : spot.char ≠ separator) (depth : Int) :
    spot.cuts separator depth = false := by
  simp [cuts, h]

end Spot

namespace Text

variable {c separator : Char} {depth : Int} {t u piece : Text} {spot : Spot}
  {spots others : List Spot}

/-- The pieces between the spots at which a text is cut. -/
def piecesBetween (separator : Char) : (depth : Int) → List Spot → List Text
  | _, [] => [[]]
  | depth, spot :: spots =>
    if spot.cuts separator depth then [] :: piecesBetween separator depth spots
    else (piecesBetween separator (depth + spot.rise) spots).modifyHead (spot.char :: ·)

/-- The trimmed pieces between the separators that stand in code at depth zero; none for a blank
text without such separators. -/
def splitAtDepthZero (separator : Char) (t : Text) : List Text :=
  let pieces := piecesBetween separator 0 t.spots
  if pieces.length = 1 ∧ isVoid t then [] else pieces.map trim

/-- The characters that a scan takes notice of. -/
def scanMarks : Text :=
  allQuotes ++ openers ++ closers

/-- A spot at which the text is not cut belongs to the piece being read. -/
theorem modifyHead_piecesBetween_cons (h : spot.cuts separator depth = false) (piece : Text)
    (spots : List Spot) :
    (piecesBetween separator depth (spot :: spots)).modifyHead (piece.reverse ++ ·)
      = (piecesBetween separator (depth + spot.rise) spots).modifyHead
          ((spot.char :: piece).reverse ++ ·) := by
  rw [piecesBetween, h, if_neg Bool.false_ne_true, List.modifyHead_modifyHead]
  congr 1
  funext rest
  simp

theorem topLevelPieces_eq_piecesBetween (hseparator : separator ∉ scanMarks) (quote? : Option Char)
    (depth : Int) (piece t : Text) :
    topLevelPieces separator quote? depth piece t
      = (piecesBetween separator depth (spotsFrom quote? t)).modifyHead (piece.reverse ++ ·) := by
  have hbracket {brackets : Text} {c : Char} (hbrackets : brackets ⊆ scanMarks)
      (hc : brackets.contains c) (depth : Int) : Spot.cuts separator depth ⟨c, true⟩ = false := by
    apply Spot.cuts_of_ne
    rintro rfl
    exact hseparator (hbrackets (by simpa using hc))
  fun_induction topLevelPieces separator quote? depth piece t with
  | case1 quote? depth piece => simp [spotsFrom, piecesBetween]
  | case2 quote depth piece c hescape =>
    rw [spotsFrom_some_cons, if_pos hescape, modifyHead_piecesBetween_cons rfl]
    simp [spotsFrom, piecesBetween]
  | case3 quote depth piece c hescape d rest ih =>
    rw [ih, spotsFrom_escape hescape, modifyHead_piecesBetween_cons rfl,
      modifyHead_piecesBetween_cons rfl, Spot.rise_string, Spot.rise_string, Int.add_zero,
      Int.add_zero]
  | case4 quote depth piece c rest hescape ih =>
    rw [ih, spotsFrom_some_cons, if_neg hescape, modifyHead_piecesBetween_cons rfl,
      Spot.rise_string, Int.add_zero]
  | case5 depth piece c rest hquote ih =>
    rw [ih, spotsFrom_none_cons, if_pos hquote, modifyHead_piecesBetween_cons rfl, Spot.rise_string,
      Int.add_zero]
  | case6 depth piece c rest hquote hopen ih =>
    rw [ih, spotsFrom_none_cons, if_neg hquote,
      modifyHead_piecesBetween_cons (hbracket (by simp [scanMarks]) hopen depth),
      Spot.rise_opener hopen]
  | case7 depth piece c rest hquote hopen hclose ih =>
    rw [ih, spotsFrom_none_cons, if_neg hquote,
      modifyHead_piecesBetween_cons (hbracket (by simp [scanMarks]) hclose depth),
      Spot.rise_closer hopen hclose]
    rfl
  | case8 depth piece c rest hquote hopen hclose hcut ih =>
    have hcuts : Spot.cuts separator depth ⟨c, true⟩ := hcut
    rw [ih, spotsFrom_none_cons, if_neg hquote, piecesBetween, if_pos hcuts]
    cases piecesBetween separator depth (spotsFrom none rest) <;> simp
  | case9 depth piece c rest hquote hopen hclose hcut ih =>
    have hcuts : Spot.cuts separator depth ⟨c, true⟩ = false := Bool.eq_false_iff.2 hcut
    rw [ih, spotsFrom_none_cons, if_neg hquote, modifyHead_piecesBetween_cons hcuts,
      Spot.rise_other hopen hclose, Int.add_zero]

theorem topLevelPieces_start (hseparator : separator ∉ scanMarks) (t : Text) :
    topLevelPieces separator none 0 [] t = piecesBetween separator 0 (spotsFrom none t) := by
  rw [topLevelPieces_eq_piecesBetween hseparator]
  cases piecesBetween separator 0 (spotsFrom none t) <;> rfl

/-! ## Texts without a cut -/

/-- Whether no spot cuts the text, which starts at the given depth. -/
def Uncut (separator : Char) (depth : Int) (spots : List Spot) : Prop :=
  ∀ before spot after, spots = before ++ spot :: after →
    spot.cuts separator (depth + depthOf before) = false

theorem Uncut.of_append (h : Uncut separator depth (spots ++ others)) :
    Uncut separator depth spots ∧ Uncut separator (depth + depthOf spots) others := by
  constructor
  · rintro before spot after rfl
    exact h before spot (after ++ others) (by simp)
  · rintro before spot after rfl
    rw [Int.add_assoc, ← depthOf_append]
    exact h (spots ++ before) spot after (by simp)

theorem uncut_cons : Uncut separator depth (spot :: spots)
    ↔ spot.cuts separator depth = false ∧ Uncut separator (depth + spot.rise) spots := by
  constructor
  · intro h
    have hsplit := Uncut.of_append (show Uncut separator depth ([spot] ++ spots) from h)
    refine ⟨by simpa [depthOf] using h [] spot spots rfl, by simpa [depthOf] using hsplit.2⟩
  · rintro ⟨hspot, hspots⟩ before other after hsplit
    cases before with
    | nil =>
      obtain ⟨rfl, -⟩ := List.cons.inj hsplit
      simpa [depthOf] using hspot
    | cons _ before =>
      obtain ⟨rfl, rfl⟩ := List.cons.inj hsplit
      rw [depthOf, ← Int.add_assoc]
      exact hspots before other after rfl

/-- A text is its only piece if it is not cut, and otherwise its first piece reaches to the first
cut. -/
theorem piecesBetween_cases (separator : Char) (depth : Int) (spots : List Spot) :
    Uncut separator depth spots ∧ piecesBetween separator depth spots = [spots.map Spot.char]
      ∨ ∃ before spot after, spots = before ++ spot :: after ∧ spot.inCode
        ∧ Uncut separator depth before
        ∧ piecesBetween separator depth spots
          = before.map Spot.char :: piecesBetween separator 0 after := by
  induction spots generalizing depth with
  | nil => exact .inl ⟨by simp [Uncut], rfl⟩
  | cons spot spots ih =>
    rw [piecesBetween]
    cases hcuts : spot.cuts separator depth with
    | true =>
      rw [if_pos rfl]
      simp only [Spot.cuts, Bool.and_eq_true, beq_iff_eq] at hcuts
      obtain ⟨⟨hcode, -⟩, rfl⟩ := hcuts
      exact .inr ⟨[], spot, spots, rfl, hcode, by simp [Uncut], rfl⟩
    | false =>
      rw [if_neg Bool.false_ne_true]
      rcases ih (depth + spot.rise) with
        ⟨huncut, hpieces⟩ | ⟨before, cut, after, rfl, hcode, huncut, hpieces⟩
      · exact .inl ⟨uncut_cons.2 ⟨hcuts, huncut⟩, by rw [hpieces]; rfl⟩
      · exact .inr ⟨spot :: before, cut, after, rfl, hcode, uncut_cons.2 ⟨hcuts, huncut⟩,
          by rw [hpieces]; rfl⟩

theorem piecesBetween_ne_nil (separator : Char) (depth : Int) (spots : List Spot) :
    piecesBetween separator depth spots ≠ [] := by
  rcases piecesBetween_cases separator depth spots with ⟨-, h⟩ | ⟨_, _, _, -, -, -, h⟩ <;> simp [h]

theorem piecesBetween_of_uncut (h : Uncut separator depth spots) :
    piecesBetween separator depth spots = [spots.map Spot.char] := by
  induction spots generalizing depth with
  | nil => rfl
  | cons spot spots ih =>
    obtain ⟨hspot, hspots⟩ := uncut_cons.1 h
    rw [piecesBetween, hspot, if_neg Bool.false_ne_true, ih hspots]
    rfl

/-- A text that has one piece is this piece. -/
theorem eq_singleton_of_length_piecesBetween
    (h : (piecesBetween separator depth spots).length = 1) :
    piecesBetween separator depth spots = [spots.map Spot.char] := by
  rcases piecesBetween_cases separator depth spots with
    ⟨-, hpieces⟩ | ⟨_, _, after, -, -, -, hpieces⟩
  · exact hpieces
  · rw [hpieces] at h
    exact absurd h (by simpa using piecesBetween_ne_nil separator 0 after)

theorem splitTopLevel_eq_splitAtDepthZero (hseparator : separator ∉ scanMarks) (t : Text) :
    splitTopLevel separator t = splitAtDepthZero separator t := by
  rw [splitTopLevel, topLevelPieces_start hseparator, splitAtDepthZero, spots_eq_spotsFrom]
  by_cases hlength : (piecesBetween separator 0 (spotsFrom none t)).length = 1
  · have hpieces := eq_singleton_of_length_piecesBetween hlength
    rw [map_char_spotsFrom] at hpieces
    cases htrim : trim t with
    | nil => simp [hpieces, htrim, trim_eq_nil_iff.1 htrim]
    | cons c u =>
      have hvoid : ¬isVoid t := by simp [← trim_eq_nil_iff, htrim]
      simp [hpieces, htrim, hvoid]
  · rw [if_neg fun h ↦ hlength h.1]
    split
    · rename_i hpieces
      exact absurd (congrArg List.length hpieces) (by simpa using hlength)
    · rfl

/-! ## Pieces are not cut again -/

theorem uncut_of_mem_piecesBetween (h : piece ∈ piecesBetween separator 0 (spotsFrom none t)) :
    Uncut separator 0 (spotsFrom none piece) := by
  -- Behind a cut the scan is in code and at depth zero, as it is at the start.
  induction hlength : t.length using Nat.strong_induction_on generalizing t with
  | _ n ih =>
    rcases piecesBetween_cases separator 0 (spotsFrom none t) with
      ⟨huncut, hpieces⟩ | ⟨before, spot, after, hsplit, hcode, huncut, hpieces⟩
    · rw [hpieces, List.mem_singleton, map_char_spotsFrom] at h
      rwa [h]
    · rw [hpieces, List.mem_cons] at h
      rcases h with rfl | h
      · rwa [spotsFrom_map_char_of_append hsplit]
      · rw [← spotsFrom_map_char_of_cons hcode hsplit] at h
        have hshorter : (after.map Spot.char).length < n := by
          have := congrArg List.length hsplit
          rw [length_spotsFrom, hlength] at this
          simp at this ⊢
          omega
        exact ih _ hshorter h rfl

theorem notMem_scanMarks_of_isBlank (hc : isBlank c) : c ∉ scanMarks := by
  have hmarks : scanMarks.all (!isBlank ·) := by decide
  intro hmem
  have := List.all_eq_true.1 hmarks c hmem
  simp [hc] at this

/-- Blanks stand in code before a text and do not change its depth. -/
theorem spotsFrom_blank_append (hu : ∀ c ∈ u, isBlank c) (t : Text) :
    spotsFrom none (u ++ t) = u.map (⟨·, true⟩) ++ spotsFrom none t
      ∧ depthOf (u.map (⟨·, true⟩)) = 0 := by
  induction u with
  | nil => exact ⟨rfl, rfl⟩
  | cons c u ih =>
    obtain ⟨hc, hu⟩ := List.forall_mem_cons.1 hu
    obtain ⟨hspots, hdepth⟩ := ih hu
    have hmarks := notMem_scanMarks_of_isBlank hc
    simp only [scanMarks, List.mem_append, not_or] at hmarks
    obtain ⟨⟨hquote, hopen⟩, hclose⟩ := hmarks
    constructor
    · rw [List.cons_append, spotsFrom_none_cons, if_neg (by simpa using hquote), hspots]
      rfl
    · rw [List.map_cons, depthOf, hdepth,
        Spot.rise_other (by simpa using hopen) (by simpa using hclose), Int.add_zero]

theorem uncut_trim (h : Uncut separator 0 (spotsFrom none t)) :
    Uncut separator 0 (spotsFrom none (trim t)) := by
  have hindent : ∀ c ∈ indentation t, isBlank c := fun c hc ↦ isBlank_of_mem_indentation hc
  obtain ⟨hspots, hdepth⟩ := spotsFrom_blank_append hindent (trimStart t)
  rw [← indentation_append_trimStart t, hspots] at h
  have hstart := h.of_append.2
  rw [hdepth, Int.add_zero] at hstart
  obtain ⟨blanks, hblanks⟩ := trimEnd_isPrefix (trimStart t)
  obtain ⟨rest, hrest⟩ := spotsFrom_isPrefix none (trim t) blanks
  rw [trim, hblanks] at hrest
  rw [← hrest] at hstart
  exact hstart.of_append.1

/-- A part of a text is its own only part. -/
theorem splitTopLevel_of_mem (hseparator : separator ∉ scanMarks) {part : Text}
    (hpart : part ∈ splitTopLevel separator t) (hne : part ≠ []) :
    splitTopLevel separator part = [part] := by
  obtain ⟨piece, hpiece, rfl⟩ :
      ∃ piece ∈ topLevelPieces separator none 0 [] t, trim piece = part := by
    rw [splitTopLevel] at hpart
    split at hpart
    · exact absurd hpart List.not_mem_nil
    · exact List.mem_map.1 hpart
  rw [topLevelPieces_start hseparator] at hpiece
  have huncut := uncut_trim (uncut_of_mem_piecesBetween hpiece)
  rw [splitTopLevel, topLevelPieces_start hseparator, piecesBetween_of_uncut huncut,
    map_char_spotsFrom, List.map_singleton, trim_trim]
  split
  · rename_i hnil
    exact absurd (List.cons.inj hnil).1 hne
  · rfl

/-! ## Closing brackets -/

/-- The depths behind the spots, one after another, from the given depth on. -/
def depthsFrom : (depth : Int) → List Spot → List Int
  | _, [] => []
  | depth, spot :: spots => (depth + spot.rise) :: depthsFrom (depth + spot.rise) spots

theorem length_depthsFrom (depth : Int) (spots : List Spot) :
    (depthsFrom depth spots).length = spots.length := by
  induction spots generalizing depth with
  | nil => rfl
  | cons spot spots ih => rw [depthsFrom, List.length_cons, ih, List.length_cons]

theorem getElem?_depthsFrom {i : Nat} (h : i < spots.length) (depth : Int) :
    (depthsFrom depth spots)[i]? = some (depth + depthOf (spots.take (i + 1))) := by
  induction spots generalizing depth i with
  | nil => exact absurd h (Nat.not_lt_zero i)
  | cons spot spots ih =>
    rw [depthsFrom, List.take_succ_cons, depthOf, ← Int.add_assoc]
    cases i with
    | zero => simp [depthOf]
    | succ i => rw [List.getElem?_cons_succ, ih (Nat.lt_of_succ_lt_succ h)]

/-- The place of the first spot behind which the depth is zero. -/
def returnFrom (depth : Int) (spots : List Spot) : Option Nat :=
  (depthsFrom depth spots).findIdx? (· == 0)

theorem returnFrom_eq_some_iff {n : Nat} :
    returnFrom depth spots = some n
      ↔ n < spots.length ∧ depth + depthOf (spots.take (n + 1)) = 0
        ∧ ∀ m < n, depth + depthOf (spots.take (m + 1)) ≠ 0 := by
  have hdepth {i : Nat} (h : i < (depthsFrom depth spots).length) :
      (depthsFrom depth spots)[i] = depth + depthOf (spots.take (i + 1)) :=
    Option.some.inj ((List.getElem?_eq_getElem h).symm.trans
      (getElem?_depthsFrom (by rwa [length_depthsFrom] at h) depth))
  simp only [returnFrom, List.findIdx?_eq_some_iff_getElem, hdepth, length_depthsFrom, beq_iff_eq,
    exists_prop, ne_eq]

theorem returnFrom_cons (depth : Int) (spot : Spot) (spots : List Spot) :
    returnFrom depth (spot :: spots)
      = if depth + spot.rise = 0 then some 0
        else (returnFrom (depth + spot.rise) spots).map (· + 1) := by
  rw [returnFrom, depthsFrom, List.findIdx?_cons, returnFrom]
  simp

theorem returnFrom_cons_of_ne (h : depth + spot.rise ≠ 0) (spots : List Spot) :
    returnFrom depth (spot :: spots) = (returnFrom (depth + spot.rise) spots).map (· + 1) := by
  rw [returnFrom_cons, if_neg h]

/-- A string leaves the depth as it is. -/
theorem returnFrom_string (hdepth : 0 < depth) (c : Char) (spots : List Spot) :
    returnFrom depth (⟨c, false⟩ :: spots) = (returnFrom depth spots).map (· + 1) := by
  rw [returnFrom_cons_of_ne (by rw [Spot.rise_string]; omega), Spot.rise_string, Int.add_zero]

theorem closeFrom_eq_returnFrom (hdepth : 0 < depth) (quote? : Option Char) (t : Text) :
    closeFrom quote? depth t = returnFrom depth (spotsFrom quote? t) := by
  fun_induction closeFrom quote? depth t with
  | case1 quote? depth => simp [spotsFrom, returnFrom, depthsFrom]
  | case2 quote depth c hescape =>
    rw [spotsFrom_some_cons, if_pos hescape, returnFrom_string hdepth]
    rfl
  | case3 quote depth c hescape d rest ih =>
    rw [ih hdepth, spotsFrom_escape hescape, returnFrom_string hdepth, returnFrom_string hdepth,
      Option.map_map]
    rfl
  | case4 quote depth c rest hescape ih =>
    rw [ih hdepth, spotsFrom_some_cons, if_neg hescape, returnFrom_string hdepth]
  | case5 depth c rest hquote ih =>
    rw [ih hdepth, spotsFrom_none_cons, if_pos hquote, returnFrom_string hdepth]
  | case6 depth c rest hquote hopen ih =>
    have hrise := Spot.rise_opener hopen
    rw [ih (by omega), spotsFrom_none_cons, if_neg hquote, returnFrom_cons_of_ne (by omega), hrise]
  | case7 c rest hquote hopen hclose =>
    rw [spotsFrom_none_cons, if_neg hquote, returnFrom_cons, Spot.rise_closer hopen hclose]
    rfl
  | case8 depth c rest hquote hopen hclose hone ih =>
    have hrise := Spot.rise_closer hopen hclose
    rw [ih (by omega), spotsFrom_none_cons, if_neg hquote, returnFrom_cons_of_ne (by omega), hrise]
    rfl
  | case9 depth c rest hquote hopen hclose ih =>
    have hrise := Spot.rise_other hopen hclose
    rw [ih hdepth, spotsFrom_none_cons, if_neg hquote, returnFrom_cons_of_ne (by omega), hrise,
      Int.add_zero]

theorem not_contains_allQuotes_of_mem_openers (hc : c ∈ openers) : ¬allQuotes.contains c := by
  have hquotes : openers.all (!allQuotes.contains ·) := by decide
  simpa using List.all_eq_true.1 hquotes c hc

theorem spots_cons_of_mem_openers (hc : c ∈ openers) (t : Text) :
    Text.spots (c :: t) = ⟨c, true⟩ :: spotsFrom none t := by
  rw [spots_eq_spotsFrom, spotsFrom_none_cons, if_neg (not_contains_allQuotes_of_mem_openers hc)]

theorem matchingClose?_eq_returnFrom (hc : c ∈ openers) (t : Text) :
    matchingClose? (c :: t) = returnFrom 0 (Text.spots (c :: t)) := by
  have hopen : openers.contains c := by simpa using hc
  have hrise := Spot.rise_opener hopen
  rw [matchingClose?, closeFrom, if_neg (not_contains_allQuotes_of_mem_openers hc), if_pos hopen,
    closeFrom_eq_returnFrom (by decide), spots_cons_of_mem_openers hc,
    returnFrom_cons_of_ne (by omega), hrise]

/-- Whether the brackets in code from `index` on are all closed behind the later place `i`. -/
def ReturnsAt (t : Text) (index i : Nat) : Prop :=
  index < i ∧ i < t.length ∧ depthOf ((Text.spots (t.drop index)).take (i - index + 1)) = 0

instance (t : Text) (index : Nat) : DecidablePred (ReturnsAt t index) :=
  fun _ ↦ inferInstanceAs (Decidable (_ ∧ _))

theorem matchingClose?_eq_some_iff {index close : Nat} (hindex : t[index]? = some c)
    (hc : c ∈ openers) :
    (matchingClose? (t.drop index)).map (index + ·) = some close
      ↔ IsLeast {i | ReturnsAt t index i} close := by
  obtain ⟨hlt, hget⟩ := List.getElem?_eq_some_iff.1 hindex
  have hdrop : t.drop index = c :: t.drop (index + 1) := by
    rw [List.drop_eq_getElem_cons hlt, hget]
  have hlength : (Text.spots (t.drop index)).length = t.length - index := by
    rw [length_spots, List.length_drop]
  -- Behind the opener itself the depth is one.
  have hopener : depthOf ((Text.spots (t.drop index)).take 1) ≠ 0 := by
    rw [hdrop, spots_cons_of_mem_openers hc, List.take_succ_cons, depthOf,
      Spot.rise_opener (by simpa using hc)]
    simp [depthOf]
  rw [Option.map_eq_some_iff, hdrop, matchingClose?_eq_returnFrom hc, ← hdrop]
  simp only [returnFrom_eq_some_iff, Int.zero_add, hlength]
  constructor
  · rintro ⟨n, ⟨hn, hzero, hfirst⟩, rfl⟩
    have hpos : n ≠ 0 := by
      rintro rfl
      exact hopener hzero
    refine ⟨⟨by omega, by omega, by rwa [Nat.add_sub_cancel_left]⟩, ?_⟩
    rintro i ⟨hi, -, hzero'⟩
    by_contra hlater
    exact hfirst (i - index) (by omega) hzero'
  · rintro ⟨⟨hi, hlast, hzero⟩, hleast⟩
    refine ⟨close - index, ⟨by omega, hzero, fun m hm hzero' ↦ ?_⟩, by omega⟩
    have hpos : m ≠ 0 := by
      rintro rfl
      exact hopener hzero'
    have hreturns : ReturnsAt t index (index + m) :=
      ⟨by omega, by omega, by rwa [Nat.add_sub_cancel_left]⟩
    have hle := hleast hreturns
    omega

theorem matchingClose?_eq_none_iff {index : Nat} (hindex : t[index]? = some c) (hc : c ∈ openers) :
    matchingClose? (t.drop index) = none ↔ ∀ i, ¬ReturnsAt t index i := by
  constructor
  · intro hnone i hreturns
    have hexists : ∃ i, ReturnsAt t index i := ⟨i, hreturns⟩
    have hleast : IsLeast {i | ReturnsAt t index i} (Nat.find hexists) :=
      ⟨Nat.find_spec hexists, fun _ h ↦ Nat.find_min' hexists h⟩
    have hsome := (matchingClose?_eq_some_iff hindex hc).2 hleast
    rw [hnone] at hsome
    exact absurd hsome (Option.some_ne_none _).symm
  · intro hno
    cases hclose : matchingClose? (t.drop index) with
    | none => rfl
    | some n =>
      have hleast := (matchingClose?_eq_some_iff hindex hc).1 (congrArg (·.map (index + ·)) hclose)
      exact absurd hleast.1 (hno _)

/-- The scans agree with the segments of a text on what stands in a string.  The parts of a text lie
between the separators in code at depth zero, none of them has such a separator, and an opening
bracket is closed where the depth of the brackets in code first returns to zero. -/
theorem scanners_agree (hseparator : separator ∉ scanMarks) (t : Text) :
    splitTopLevel separator t = splitAtDepthZero separator t
      ∧ (∀ part ∈ splitTopLevel separator t, part ≠ [] → splitTopLevel separator part = [part])
      ∧ ∀ index c, t[index]? = some c → c ∈ openers →
        (∀ close, (matchingClose? (t.drop index)).map (index + ·) = some close
          ↔ IsLeast {i | ReturnsAt t index i} close)
        ∧ (matchingClose? (t.drop index) = none ↔ ∀ i, ¬ReturnsAt t index i) := by
  refine ⟨splitTopLevel_eq_splitAtDepthZero hseparator t,
    fun part hpart hne ↦ splitTopLevel_of_mem hseparator hpart hne, fun index c hindex hc ↦ ?_⟩
  exact ⟨fun close ↦ matchingClose?_eq_some_iff hindex hc, matchingClose?_eq_none_iff hindex hc⟩

theorem scanners_agree_quoted_comma :
    ',' ∉ scanMarks
      ∧ splitAtDepthZero ',' "f(a, ')'), ',b" = (["f(a, ')')", "',b"] : List Text)
      ∧ IsLeast {i | ReturnsAt "f(a, ')'), ',b" 1 i} 8 := by
  have hcomma : ',' ∉ scanMarks := by decide
  obtain ⟨hsplit, -, hclose⟩ := scanners_agree hcomma "f(a, ')'), ',b"
  exact ⟨hcomma, hsplit.symm.trans (by decide +kernel),
    ((hclose 1 '(' (by decide) (by decide)).1 8).1 (by decide +kernel)⟩

end Text

end Recast
