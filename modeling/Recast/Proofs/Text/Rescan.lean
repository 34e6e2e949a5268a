import Recast.Proofs.Text.Code
import Recast.Proofs.Text.Edit

/-!
# Scanning a respelled line

The segments of a line are of a certain form, `Segment.Segmented`, and segments of that form are the
ones that the scan finds in the text they spell.  Code may be edited by putting in neutral characters
and strings may change their quotes: the form stays, so the new line is scanned into the new
segments.
-/

namespace Recast

/-! ## Strings -/

namespace Text

/-- What follows the string that the text starts in, if that string is closed. -/
def afterString (quote : Char) : Text → Option Text
  | [] => none
  | c :: rest =>
    if c == '\\' then
      match rest with
      | [] => none
      | _ :: rest => afterString quote rest
    else if c == quote then some rest
    else afterString quote rest

variable {quote c d : Char} {t body after : Text}

@[simp]
theorem afterString_nil : afterString quote [] = none := rfl

theorem afterString_cons : afterString quote (c :: t) =
    if c == '\\' then afterString quote (t.drop 1)
    else if c == quote then some t
    else afterString quote t := by
  cases t <;> simp [afterString]

/-- A string that is not closed stays so if what follows it neither closes it nor escapes. -/
theorem afterString_append_eq_none (h : afterString quote body = none)
    (ht : ∀ c ∈ t, c ≠ '\\' ∧ c ≠ quote) : afterString quote (body ++ t) = none := by
  have hnone (u : Text) (hu : ∀ c ∈ u, c ≠ '\\' ∧ c ≠ quote) : afterString quote u = none := by
    induction u with
    | nil => rfl
    | cons c u ih =>
      obtain ⟨hc, hu⟩ := List.forall_mem_cons.1 hu
      simp [afterString_cons, hc, ih hu]
  fun_induction afterString quote body with
  | case1 => exact hnone t ht
  | case2 c hescape =>
    have hdrop := hnone (t.drop 1) fun d hd ↦ ht d (List.mem_of_mem_drop hd)
    simpa [afterString_cons, hescape] using hdrop
  | case3 c hescape d rest ih => simpa [afterString_cons, hescape] using ih h
  | case4 => exact absurd h (by simp)
  | case5 c rest hescape hclose ih => simpa [afterString_cons, hescape, hclose] using ih h

/-- A closed string ends in its quote. -/
theorem getLast?_of_afterString (h : afterString quote body = some []) :
    body.getLast? = some quote := by
  fun_induction afterString quote body with
  | case1 | case2 => exact absurd h (by simp)
  | case3 c hescape d rest ih => rw [List.getLast?_cons, List.getLast?_cons, ih h]; rfl
  | case4 c rest hescape hclose =>
    obtain rfl := Option.some.inj h
    simpa using hclose
  | case5 c rest hescape hclose ih => rw [List.getLast?_cons, ih h]; rfl

/-- A closed string ends before what follows it. -/
theorem exists_of_afterString (h : afterString quote t = some after) :
    ∃ body, t = body ++ after ∧ afterString quote body = some [] := by
  fun_induction afterString quote t with
  | case1 | case2 => exact absurd h (by simp)
  | case3 c hescape d rest ih =>
    obtain ⟨body, rfl, hbody⟩ := ih h
    exact ⟨c :: d :: body, rfl, by simpa [afterString_cons, hescape] using hbody⟩
  | case4 c rest hescape hclose =>
    obtain rfl := Option.some.inj h
    exact ⟨[c], rfl, by simp_all [afterString_cons]⟩
  | case5 c rest hescape hclose ih =>
    obtain ⟨body, rfl, hbody⟩ := ih h
    exact ⟨c :: body, rfl, by simpa [afterString_cons, hescape, hclose] using hbody⟩

end Text

open Text

namespace Segment

variable {marks : Markers} {quote c : Char} {read body t u v : Text} {segments : List Segment}

theorem flush_eq_singleton {kind : SegmentKind} (h : read ≠ []) :
    flush kind read = [⟨kind, read.reverse⟩] := by
  simp [flush, h]

theorem scan_some_close (hescape : ¬c == '\\') (hclose : c == quote) :
    scan marks (some quote) read (c :: t) = ⟨.string, (c :: read).reverse⟩ :: scan marks none [] t := by
  cases t <;> simp_all [scan]

theorem scan_some_inside (hescape : ¬c == '\\') (hclose : ¬c == quote) :
    scan marks (some quote) read (c :: t) = scan marks (some quote) (c :: read) t := by
  cases t <;> simp_all [scan]

/-- A closed string is a segment by itself. -/
theorem scan_closed (h : afterString quote body = some []) (read t : Text) :
    scan marks (some quote) read (body ++ t)
      = ⟨.string, read.reverse ++ body⟩ :: scan marks none [] t := by
  fun_induction afterString quote body generalizing read with
  | case1 | case2 => exact absurd h (by simp)
  | case3 c hescape d rest ih => simp [scan, hescape, ih h]
  | case4 c rest hescape hclose =>
    obtain rfl := Option.some.inj h
    simp [scan_some_close hescape hclose]
  | case5 c rest hescape hclose ih => simp [scan_some_inside hescape hclose, ih h]

/-- A string that is not closed takes the rest of the line. -/
theorem scan_unclosed (h : afterString quote body = none) (hread : read ≠ []) :
    scan marks (some quote) read body = [⟨.string, read.reverse ++ body⟩] := by
  fun_induction afterString quote body generalizing read with
  | case1 => simp [scan, flush_eq_singleton hread]
  | case2 c hescape => simp [scan, hescape, flush]
  | case3 c hescape d rest ih =>
    have hstep := @ih (d :: c :: read) h (by simp)
    simp [scan, hescape, hstep]
  | case4 c rest hescape hclose => exact absurd h (by simp)
  | case5 c rest hescape hclose ih =>
    have hstep := @ih (c :: read) h (by simp)
    simp [scan_some_inside hescape hclose, hstep]

/-! ## Code -/

/-- Whether a text is code, and neither a string nor a comment starts in it when `next` follows. -/
def IsCode (marks : Markers) : Text → (next : Text) → Prop
  | [], _ => True
  | c :: u, next =>
    marks.startsComment (c :: u ++ next) = false ∧ marks.quotes.contains c = false
      ∧ IsCode marks u next

theorem isCode_append :
    IsCode marks (u ++ v) t ↔ IsCode marks u (v ++ t) ∧ IsCode marks v t := by
  induction u with
  | nil => simp [IsCode]
  | cons c u ih =>
    simp only [List.cons_append, IsCode, ih, List.append_assoc]
    exact ⟨fun h ↦ ⟨⟨h.1, h.2.1, h.2.2.1⟩, h.2.2.2⟩, fun h ↦ ⟨h.1.1, h.1.2.1, h.1.2.2, h.2⟩⟩

theorem isCode_neutral_append (hu : ∀ d ∈ u, marks.isNeutral d) :
    IsCode marks (u ++ v) t ↔ IsCode marks v t := by
  induction u with
  | nil => exact Iff.rfl
  | cons c u ih =>
    obtain ⟨hc, hu⟩ := List.forall_mem_cons.1 hu
    have hquote := (Markers.isNeutral_iff.1 hc).2.1
    rw [List.cons_append, IsCode, ih hu, List.cons_append, Markers.startsComment_cons_of_neutral hc]
    simp only [hquote, true_and]

theorem scan_code (h : IsCode marks u t) (read : Text) :
    scan marks none read (u ++ t) = scan marks none (u.reverse ++ read) t := by
  induction u generalizing read with
  | nil => rfl
  | cons c u ih =>
    obtain ⟨hcomment, hquote, hu⟩ := h
    rw [List.cons_append] at hcomment ⊢
    rw [scan, hcomment, hquote, if_neg Bool.false_ne_true, if_neg Bool.false_ne_true, ih hu]
    simp

/-! ## The form of a scan -/

/-- The form that the segments of a line have: code goes as far as it can, a string is closed unless
it is last, and a comment is last. -/
inductive Segmented (marks : Markers) : List Segment → Prop where
  | nil : Segmented marks []
  | code {u : Text} {segments : List Segment} (hne : u ≠ [])
      (hcode : IsCode marks u (textOf segments))
      (hnext : ∀ segment ∈ segments.head?, segment.kind ≠ .code)
      (h : Segmented marks segments) : Segmented marks (⟨.code, u⟩ :: segments)
  | closed {quote : Char} {body : Text} {segments : List Segment}
      (hquote : marks.quotes.contains quote) (hclosed : afterString quote body = some [])
      (h : Segmented marks segments) : Segmented marks (⟨.string, quote :: body⟩ :: segments)
  | unclosed {quote : Char} {body : Text} (hquote : marks.quotes.contains quote)
      (hopen : afterString quote body = none) : Segmented marks [⟨.string, quote :: body⟩]
  | comment {t : Text} (hcomment : marks.startsComment t) : Segmented marks [⟨.comment, t⟩]

/-- Code that has been read is put in front of the segments that follow it. -/
theorem Segmented.flush_append (hread : IsCode marks read.reverse (textOf segments))
    (hnext : ∀ segment ∈ segments.head?, segment.kind ≠ .code) (h : Segmented marks segments) :
    Segmented marks (flush .code read ++ segments) := by
  by_cases hnil : read = []
  · rw [hnil]
    exact h
  · rw [flush_eq_singleton hnil]
    exact .code (by simpa using hnil) hread hnext h

theorem segmented_scan {bound : Nat} (hbound : t.length ≤ bound)
    (hread : IsCode marks read.reverse t) : Segmented marks (scan marks none read t) := by
  -- A string takes the scan to a place further on, so the induction is on the length.
  induction bound generalizing t read with
  | zero =>
    obtain rfl := List.length_eq_zero_iff.1 (Nat.le_zero.1 hbound)
    simpa [scan] using Segmented.nil.flush_append hread (by simp)
  | succ bound ih =>
    cases t with
    | nil => simpa [scan] using Segmented.nil.flush_append hread (by simp)
    | cons c t =>
      have hshort : t.length ≤ bound := by simpa using hbound
      rw [scan]
      split
      · rename_i hcomment
        exact (Segmented.comment hcomment).flush_append (by simpa using hread) (by simp)
      · rename_i hcomment
        split
        · rename_i hquote
          cases hafter : afterString c t with
          | none =>
            rw [scan_unclosed hafter (by simp)]
            exact (Segmented.unclosed hquote hafter).flush_append (by simpa using hread) (by simp)
          | some after =>
            obtain ⟨body, rfl, hclosed⟩ := exists_of_afterString hafter
            rw [scan_closed hclosed]
            have hrest : Segmented marks (scan marks none [] after) :=
              ih (by simp at hshort; omega) trivial
            refine (Segmented.closed hquote hclosed hrest).flush_append ?_ (by simp)
            simpa [textOf_scan] using hread
        · rename_i hquote
          refine ih hshort ?_
          rw [List.reverse_cons, isCode_append]
          exact ⟨hread, by simpa using hcomment, by simpa using hquote, trivial⟩

end Segment

/-- No quote is part of a comment marker. -/
def Markers.IsApart (marks : Markers) : Prop :=
  ∀ quote, marks.quotes.contains quote → ∀ marker ∈ marks.comments, quote ∉ marker

namespace Segment

variable {marks : Markers} {quote c : Char} {read body t u v : Text} {segments others : List Segment}

theorem startsComment_append_quote (hmarks : marks.IsApart) (hquote : marks.quotes.contains quote)
    (u t : Text) : marks.startsComment (u ++ quote :: t) = marks.startsComment u := by
  rw [Markers.startsComment, Markers.startsComment, List.find?_congr fun marker hmarker ↦
    Markers.isPrefixOf_append_of_head fun d hd ↦ ?_]
  obtain rfl : quote = d := by simpa using hd
  exact hmarks quote hquote marker hmarker

theorem startsComment_quote (hmarks : marks.IsApart) (hquote : marks.quotes.contains quote)
    (t : Text) : marks.startsComment (quote :: t) = false := by
  have h := startsComment_append_quote hmarks hquote [] t
  rwa [List.nil_append, Markers.startsComment_nil] at h

/-- Segments that follow code start with a quote or a comment, so the code is all before them. -/
theorem Segmented.scan_eq (hmarks : marks.IsApart) (h : Segmented marks segments)
    (hnext : ∀ segment ∈ segments.head?, segment.kind ≠ .code) (read : Text) :
    scan marks none read (textOf segments)
      = flush .code read ++ scan marks none [] (textOf segments) := by
  cases h with
  | nil => simp [scan, flush]
  | code => exact absurd rfl (hnext _ rfl)
  | closed hquote hclosed h =>
    rw [textOf_cons, List.cons_append, scan, scan, startsComment_quote hmarks hquote, hquote]
    simp [flush]
  | unclosed hquote hopen =>
    rw [textOf_cons, List.cons_append, scan, scan, startsComment_quote hmarks hquote, hquote]
    simp [flush]
  | @comment t hcomment =>
    cases t with
    | nil => simp [Markers.startsComment_nil] at hcomment
    | cons c t => simp [scan, hcomment, flush]

/-- Segments of the right form are found by the scan of their text. -/
theorem Segmented.segments_textOf (hmarks : marks.IsApart) (h : Segmented marks segments) :
    marks.segments (textOf segments) = segments := by
  rw [Markers.segments]
  induction h with
  | nil => rfl
  | @code segments u hne hcode hnext h ih =>
    rw [textOf_cons, scan_code hcode, h.scan_eq hmarks hnext, ih]
    simp [flush, hne]
  | closed hquote hclosed h ih =>
    rw [textOf_cons, List.cons_append, scan, startsComment_quote hmarks hquote, hquote,
      if_neg Bool.false_ne_true, if_pos rfl, scan_closed hclosed, ih]
    rfl
  | unclosed hquote hopen =>
    rw [textOf_cons, List.cons_append, scan, startsComment_quote hmarks hquote, hquote,
      if_neg Bool.false_ne_true, if_pos rfl, textOf_nil, List.append_nil,
      scan_unclosed hopen (by simp)]
    rfl
  | @comment t hcomment =>
    cases t with
    | nil => simp [Markers.startsComment_nil] at hcomment
    | cons c t => simp [scan, hcomment, flush]

/-! ## Respelling -/

end Segment

/-- Whether a swap puts in neutral characters only, and at least one. -/
def Markers.NeutralSwap (marks : Markers) (_ new : Text) : Prop :=
  new ≠ [] ∧ ∀ c ∈ new, marks.isNeutral c

namespace Segment

variable {marks : Markers} {quote : Char} {line next t u : Text} {segments others : List Segment}

/-- Whether a comment starts is settled before the first swap, so an edited text starts no new
comment. -/
theorem startsComment_of_edits (h : Edits marks.NeutralSwap t u) (before : Text)
    (hcomment : marks.startsComment (before ++ u ++ next)) :
    marks.startsComment (before ++ t ++ next) := by
  induction h generalizing before next with
  | nil => exact hcomment
  | keep c _ ih =>
    have hstep := @ih next (before ++ [c])
    simp only [List.append_assoc, List.singleton_append] at hstep
    simp only [List.append_assoc, List.cons_append] at hcomment ⊢
    exact hstep hcomment
  | @swap old new t u hswap _ _ =>
    have hhead : marks.startsComment (before ++ (new ++ (u ++ next)))
        = marks.startsComment before := by
      apply Markers.startsComment_append_of_neutral
      intro d hd
      obtain ⟨c, new, rfl⟩ := List.exists_cons_of_ne_nil hswap.1
      exact hswap.2 d (by simp_all)
    simp only [List.append_assoc] at hcomment ⊢
    rw [hhead] at hcomment
    exact Markers.startsComment_append hcomment _
  | trans _ _ ih ih' => exact ih before (ih' before hcomment)

theorem IsCode.edits (h : IsCode marks t next) (hedits : Edits marks.NeutralSwap t u) :
    IsCode marks u next := by
  induction hedits with
  | nil => trivial
  | keep c hedits ih =>
    obtain ⟨hcomment, hquote, hcode⟩ := h
    refine ⟨?_, hquote, ih hcode⟩
    rw [← Bool.not_eq_true] at hcomment ⊢
    exact fun hstart ↦ hcomment (startsComment_of_edits (.keep c hedits) [] hstart)
  | swap hswap _ ih => exact (isCode_neutral_append hswap.2).2 (ih (isCode_append.1 h).2)
  | trans _ _ ih ih' => exact ih' (ih h)

theorem ne_nil_of_edits (h : Edits marks.NeutralSwap t u) (hne : t ≠ []) : u ≠ [] := by
  induction h with
  | nil => exact hne
  | keep c _ _ => simp
  | swap hswap _ _ => simp [hswap.1]
  | trans _ _ ih ih' => exact ih' (ih hne)

theorem isCode_quote (hmarks : marks.IsApart) (hquote : marks.quotes.contains quote) :
    IsCode marks u (quote :: t) ↔ IsCode marks u [] := by
  induction u with
  | nil => exact Iff.rfl
  | cons c u ih =>
    rw [IsCode, IsCode, ih, startsComment_append_quote hmarks hquote, List.append_nil]

/-- Whether one segment may take the place of another: code is edited by neutral characters, and a
string is written with other quotes, closed if it was closed. -/
inductive Respelled (marks : Markers) : Segment → Segment → Prop where
  | refl (segment : Segment) : Respelled marks segment segment
  | code {t u : Text} (h : Edits marks.NeutralSwap t u) : Respelled marks ⟨.code, t⟩ ⟨.code, u⟩
  | string {quote other : Char} {body content : Text}
      (hquote : marks.quotes.contains quote → marks.quotes.contains other)
      (hclosed : afterString quote body = some [] → afterString other content = some [])
      (hopen : afterString quote body = none → afterString other content = none) :
      Respelled marks ⟨.string, quote :: body⟩ ⟨.string, other :: content⟩

/-- A string that follows code still does after respelling. -/
theorem IsCode.respelled_string {body : Text} (hmarks : marks.IsApart)
    (hcode : IsCode marks u (textOf (⟨.string, quote :: body⟩ :: segments)))
    (hquote : marks.quotes.contains quote)
    (hrespelled : List.Forall₂ (Respelled marks) (⟨.string, quote :: body⟩ :: segments) others) :
    IsCode marks u (textOf others) := by
  rw [textOf_cons, List.cons_append, isCode_quote hmarks hquote] at hcode
  cases hrespelled with
  | cons hfirst hothers =>
    cases hfirst with
    | refl => rwa [textOf_cons, List.cons_append, isCode_quote hmarks hquote]
    | string hother _ _ => rwa [textOf_cons, List.cons_append, isCode_quote hmarks (hother hquote)]

/-- What follows code is still a string or a comment after respelling. -/
theorem IsCode.respelled (hmarks : marks.IsApart) (hcode : IsCode marks u (textOf segments))
    (hnext : ∀ segment ∈ segments.head?, segment.kind ≠ .code) (h : Segmented marks segments)
    (hrespelled : List.Forall₂ (Respelled marks) segments others) :
    IsCode marks u (textOf others) := by
  cases h with
  | nil =>
    cases hrespelled
    exact hcode
  | code => exact absurd rfl (hnext _ rfl)
  | closed hquote hclosed h =>
    exact hcode.respelled_string hmarks hquote hrespelled
  | unclosed hquote hopen =>
    exact hcode.respelled_string hmarks hquote hrespelled
  | comment =>
    cases hrespelled with
    | cons hfirst hothers =>
      cases hfirst
      cases hothers
      exact hcode

theorem Respelled.kind_eq {segment other : Segment} (h : Respelled marks segment other) :
    other.kind = segment.kind := by
  cases h <;> rfl

theorem kind_of_head?_respelled (hnext : ∀ segment ∈ segments.head?, segment.kind ≠ .code)
    (h : List.Forall₂ (Respelled marks) segments others) :
    ∀ segment ∈ others.head?, segment.kind ≠ .code := by
  cases h with
  | nil => simp
  | cons hfirst _ =>
    have hkind := hnext _ rfl
    simpa [hfirst.kind_eq] using hkind

theorem Segmented.respelled (hmarks : marks.IsApart) (h : Segmented marks segments)
    (hrespelled : List.Forall₂ (Respelled marks) segments others) : Segmented marks others := by
  induction h generalizing others with
  | nil =>
    cases hrespelled
    exact .nil
  | code hne hcode hnext h ih =>
    cases hrespelled with
    | cons hfirst hothers =>
      have hcode := hcode.respelled hmarks hnext h hothers
      have hnext := kind_of_head?_respelled hnext hothers
      cases hfirst with
      | refl => exact .code hne hcode hnext (ih hothers)
      | code hedits =>
        exact .code (ne_nil_of_edits hedits hne) (hcode.edits hedits) hnext (ih hothers)
  | closed hquote hclosed h ih =>
    cases hrespelled with
    | cons hfirst hothers =>
      cases hfirst with
      | refl => exact .closed hquote hclosed (ih hothers)
      | string hother hclosed' _ => exact .closed (hother hquote) (hclosed' hclosed) (ih hothers)
  | unclosed hquote hopen =>
    cases hrespelled with
    | cons hfirst hothers =>
      cases hothers
      cases hfirst with
      | refl => exact .unclosed hquote hopen
      | string hother _ hopen' => exact .unclosed (hother hquote) (hopen' hopen)
  | comment hcomment =>
    cases hrespelled with
    | cons hfirst hothers =>
      cases hothers
      cases hfirst
      exact .comment hcomment

/-- A respelled line is scanned into its respelled segments. -/
theorem segments_respelled (hmarks : marks.IsApart)
    (h : List.Forall₂ (Respelled marks) (marks.segments line) others) :
    marks.segments (textOf others) = others := by
  have hline : Segmented marks (marks.segments line) := segmented_scan (Nat.le_refl _) trivial
  exact (hline.respelled hmarks h).segments_textOf hmarks

/-- A segment with its text changed, if it is code. -/
def mapCode (f : Text → Text) (segment : Segment) : Segment :=
  if segment.kind = .code then ⟨.code, f segment.text⟩ else segment

theorem textOf_map_mapCode (f : Text → Text) (line : Text) :
    textOf ((marks.segments line).map (mapCode f)) = marks.mapCode f line := by
  rw [Markers.mapCode, textOf, List.flatMap_map]
  congr 1
  funext segment
  simp only [mapCode]
  split <;> rfl

/-- Editing the code of a line by neutral characters leaves its segments where they are. -/
theorem segments_mapCode (hmarks : marks.IsApart) {f : Text → Text}
    (hf : ∀ t, Edits marks.NeutralSwap t (f t)) (line : Text) :
    marks.segments (marks.mapCode f line) = (marks.segments line).map (mapCode f) := by
  rw [← textOf_map_mapCode]
  apply segments_respelled hmarks
  rw [List.forall₂_map_right_iff, List.forall₂_same]
  rintro ⟨kind, t⟩ -
  cases kind
  · exact .code (hf t)
  all_goals exact .refl _

end Segment

end Recast
