import Mathlib.Data.List.Find
import Recast.Proofs.Text.Characters

/-!
# The code of a line

The scan of a line collects segments.  What matters to the layout is less: which characters stand
in code, and whether the line ends there.  Both are recursions on the line, and they are all that a
count needs to know.

A character that is in no mark of the language is neutral.  Neutral characters before a text leave
its scan as it is.  Behind a text they stand in code if the text ends in code, and otherwise they
belong to its last string or to its comment.
-/

namespace Recast

namespace Markers

variable {marks : Markers} {quote? : Option Char} {c : Char} {t u : Text}

/-- The characters that stand in code; `quote?` is the quote of the string that the text starts
in. -/
def codeFrom (marks : Markers) : (quote? : Option Char) → Text → Text
  | _, [] => []
  | none, c :: rest =>
    if marks.startsComment (c :: rest) then []
    else if marks.quotes.contains c then codeFrom marks (some c) rest
    else c :: codeFrom marks none rest
  | some quote, c :: rest =>
    if c == '\\' then
      match rest with
      | [] => []
      | _ :: rest => codeFrom marks (some quote) rest
    else if c == quote then codeFrom marks none rest
    else codeFrom marks (some quote) rest

/-- Whether the text ends in code, not in a string or a comment. -/
def endsInCode (marks : Markers) : (quote? : Option Char) → Text → Bool
  | none, [] => true
  | some _, [] => false
  | none, c :: rest =>
    if marks.startsComment (c :: rest) then false
    else if marks.quotes.contains c then endsInCode marks (some c) rest
    else endsInCode marks none rest
  | some quote, c :: rest =>
    if c == '\\' then
      match rest with
      | [] => false
      | _ :: rest => endsInCode marks (some quote) rest
    else if c == quote then endsInCode marks none rest
    else endsInCode marks (some quote) rest

theorem codeFrom_none_cons (c : Char) (rest : Text) :
    marks.codeFrom none (c :: rest) =
      if marks.startsComment (c :: rest) then []
      else if marks.quotes.contains c then marks.codeFrom (some c) rest
      else c :: marks.codeFrom none rest := by
  rw [codeFrom]

theorem endsInCode_none_cons (c : Char) (rest : Text) :
    marks.endsInCode none (c :: rest) =
      if marks.startsComment (c :: rest) then false
      else if marks.quotes.contains c then marks.endsInCode (some c) rest
      else marks.endsInCode none rest := by
  rw [endsInCode]

/-- In a string a backslash takes the next character with it. -/
theorem codeFrom_some_cons (quote c : Char) (rest : Text) :
    marks.codeFrom (some quote) (c :: rest) =
      if c == '\\' then marks.codeFrom (some quote) (rest.drop 1)
      else if c == quote then marks.codeFrom none rest
      else marks.codeFrom (some quote) rest := by
  cases rest <;> simp [codeFrom]

theorem endsInCode_some_cons (quote c : Char) (rest : Text) :
    marks.endsInCode (some quote) (c :: rest) =
      if c == '\\' then marks.endsInCode (some quote) (rest.drop 1)
      else if c == quote then marks.endsInCode none rest
      else marks.endsInCode (some quote) rest := by
  cases rest <;> simp [endsInCode]

/-! ## Neutral characters -/

/-- Whether the character is in no mark of the language. -/
def isNeutral (marks : Markers) (c : Char) : Bool :=
  c != '\\' && !marks.quotes.contains c && marks.comments.all (!·.contains c)

theorem isNeutral_iff :
    marks.isNeutral c ↔
      c ≠ '\\' ∧ marks.quotes.contains c = false ∧ ∀ marker ∈ marks.comments, c ∉ marker := by
  simp [isNeutral, and_assoc]

theorem isPrefixOf_append_of_head {marker : Text} (hhead : ∀ d ∈ u.head?, d ∉ marker) :
    marker.isPrefixOf (t ++ u) = marker.isPrefixOf t := by
  induction marker generalizing t with
  | nil => simp
  | cons m marker ih =>
    cases t with
    | nil =>
      cases u with
      | nil => rfl
      | cons d u =>
        have hne : m ≠ d := fun h ↦ hhead d rfl (h ▸ List.mem_cons_self)
        simp [List.isPrefixOf, hne]
    | cons d t =>
      have hrest := ih (t := t) fun e he hmem ↦ hhead e he (List.mem_cons_of_mem m hmem)
      simp [List.isPrefixOf, hrest]

/-- Whether a comment starts here is settled before the next neutral character. -/
theorem startsComment_append_of_neutral (t : Text) (hhead : ∀ d ∈ u.head?, marks.isNeutral d) :
    marks.startsComment (t ++ u) = marks.startsComment t := by
  rw [startsComment, startsComment, List.find?_congr fun marker hmarker ↦
    isPrefixOf_append_of_head fun d hd ↦ (isNeutral_iff.1 (hhead d hd)).2.2 marker hmarker]

theorem startsComment_nil : marks.startsComment [] = false := by
  rw [startsComment]
  split
  · rename_i marker hfind
    simpa using List.find?_some hfind
  · rfl

theorem startsComment_cons_of_neutral (hc : marks.isNeutral c) (t : Text) :
    marks.startsComment (c :: t) = false := by
  have h : marks.startsComment ([] ++ c :: t) = marks.startsComment [] :=
    startsComment_append_of_neutral [] (by simpa using hc)
  rw [List.nil_append, startsComment_nil] at h
  exact h

/-- A comment that starts at the head of a text starts there whatever follows the text. -/
theorem startsComment_append (h : marks.startsComment t) (u : Text) :
    marks.startsComment (t ++ u) := by
  rw [startsComment] at h
  split at h
  case h_2 => exact absurd h (by simp)
  case h_1 marker hfind =>
    obtain ⟨hmatch, earlier, later, hcomments, hearlier⟩ := List.find?_eq_some_iff_append.1 hfind
    have hlonger : marker.isPrefixOf (t ++ u) := by
      rw [List.isPrefixOf_iff_prefix] at hmatch ⊢
      exact hmatch.trans (List.prefix_append t u)
    rw [startsComment, hcomments, List.find?_append]
    -- An earlier marker that is found only now is not empty: the text did not start with it.
    cases hfirst : earlier.find? (·.isPrefixOf (t ++ u)) with
    | none => simpa [hlonger] using h
    | some other =>
      have hother := hearlier other (List.mem_of_find?_eq_some hfirst)
      cases other with
      | nil => simp at hother
      | cons d other => simp

/-! ## Neutral characters around a text -/

theorem codeFrom_neutral_append (hu : ∀ d ∈ u, marks.isNeutral d) (t : Text) :
    marks.codeFrom none (u ++ t) = u ++ marks.codeFrom none t := by
  induction u with
  | nil => rfl
  | cons d u ih =>
    have hd := hu d List.mem_cons_self
    rw [List.cons_append, codeFrom, startsComment_cons_of_neutral hd,
      (isNeutral_iff.1 hd).2.1, ih fun e he ↦ hu e (List.mem_cons_of_mem d he)]
    rfl

theorem endsInCode_neutral_append (hu : ∀ d ∈ u, marks.isNeutral d) (t : Text) :
    marks.endsInCode none (u ++ t) = marks.endsInCode none t := by
  induction u with
  | nil => rfl
  | cons d u ih =>
    have hd := hu d List.mem_cons_self
    rw [List.cons_append, endsInCode, startsComment_cons_of_neutral hd,
      (isNeutral_iff.1 hd).2.1, ← ih fun e he ↦ hu e (List.mem_cons_of_mem d he)]
    rfl

theorem codeFrom_eq_self (ht : ∀ d ∈ t, marks.isNeutral d) : marks.codeFrom none t = t := by
  have h := codeFrom_neutral_append ht []
  simpa [codeFrom] using h

theorem endsInCode_of_neutral (ht : ∀ d ∈ t, marks.isNeutral d) : marks.endsInCode none t := by
  have h := endsInCode_neutral_append ht []
  simpa [endsInCode] using h

/-- What follows a text that ends in code is read by itself, if it starts with a neutral
character. -/
theorem append_of_endsInCode (hend : marks.endsInCode quote? t)
    (hhead : ∀ d ∈ u.head?, marks.isNeutral d) :
    marks.codeFrom quote? (t ++ u) = marks.codeFrom quote? t ++ marks.codeFrom none u
      ∧ marks.endsInCode quote? (t ++ u) = marks.endsInCode none u := by
  fun_induction endsInCode marks quote? t with
  | case1 => simp [codeFrom]
  | case2 quote | case3 c rest hcomment | case6 quote c hescape => exact absurd hend (by simp)
  | case4 c rest hcomment hquote ih | case5 c rest hcomment hquote ih =>
    have hsplit := startsComment_append_of_neutral (c :: rest) hhead
    rw [List.cons_append] at hsplit ⊢
    rw [codeFrom_none_cons, codeFrom_none_cons, endsInCode_none_cons, hsplit]
    simp only [hcomment, hquote]
    simpa using ih hend
  | case7 quote c hescape d rest ih =>
    rw [List.cons_append, codeFrom_some_cons, codeFrom_some_cons, endsInCode_some_cons]
    simpa [hescape] using ih hend
  | case8 quote c rest hescape hclose ih | case9 quote c rest hescape hclose ih =>
    rw [List.cons_append, codeFrom_some_cons, codeFrom_some_cons, endsInCode_some_cons]
    simpa [hescape, hclose] using ih hend

/-- Neutral characters in a string stay in it. -/
theorem neutral_in_string {quote : Char} (hquote : marks.quotes.contains quote)
    (hu : ∀ d ∈ u, marks.isNeutral d) :
    marks.codeFrom (some quote) u = [] ∧ marks.endsInCode (some quote) u = false := by
  induction u with
  | nil => simp [codeFrom, endsInCode]
  | cons d u ih =>
    obtain ⟨hescape, hnoquote, -⟩ := isNeutral_iff.1 (hu d List.mem_cons_self)
    have hne : d ≠ quote := by
      rintro rfl
      rw [hquote] at hnoquote
      exact absurd hnoquote (by simp)
    rw [codeFrom_some_cons, endsInCode_some_cons]
    simpa [hescape, hne] using ih fun e he ↦ hu e (List.mem_cons_of_mem d he)

/-- Neutral characters behind a text that does not end in code are in no code either. -/
theorem append_of_not_endsInCode (hend : marks.endsInCode quote? t = false)
    (hquote : ∀ quote ∈ quote?, marks.quotes.contains quote)
    (hu : ∀ d ∈ u, marks.isNeutral d) :
    marks.codeFrom quote? (t ++ u) = marks.codeFrom quote? t
      ∧ marks.endsInCode quote? (t ++ u) = false := by
  have hhead : ∀ d ∈ u.head?, marks.isNeutral d := fun d hd ↦ hu d (List.mem_of_head? hd)
  fun_induction endsInCode marks quote? t with
  | case1 => exact absurd hend (by simp)
  | case2 quote => simpa [codeFrom] using neutral_in_string (hquote quote rfl) hu
  | case3 c rest hcomment =>
    have hsplit := startsComment_append_of_neutral (c :: rest) hhead
    rw [List.cons_append] at hsplit ⊢
    rw [codeFrom_none_cons, codeFrom_none_cons, endsInCode_none_cons, hsplit]
    simp [hcomment]
  | case4 c rest hcomment hopen ih | case5 c rest hcomment hopen ih =>
    have hsplit := startsComment_append_of_neutral (c :: rest) hhead
    rw [List.cons_append] at hsplit ⊢
    rw [codeFrom_none_cons, codeFrom_none_cons, endsInCode_none_cons, hsplit]
    simp only [hcomment, hopen]
    simpa using ih hend (by simp_all)
  | case6 quote c hescape =>
    rw [List.cons_append, codeFrom_some_cons, codeFrom_some_cons, endsInCode_some_cons]
    have hstring := neutral_in_string (u := u.drop 1) (hquote quote rfl)
      fun e he ↦ hu e (List.mem_of_mem_drop he)
    simpa [hescape, codeFrom] using hstring
  | case7 quote c hescape d rest ih =>
    rw [List.cons_append, codeFrom_some_cons, codeFrom_some_cons, endsInCode_some_cons]
    simpa [hescape] using ih hend hquote
  | case8 quote c rest hescape hclose ih =>
    rw [List.cons_append, codeFrom_some_cons, codeFrom_some_cons, endsInCode_some_cons]
    simpa [hescape, hclose] using ih hend (by simp)
  | case9 quote c rest hescape hclose ih =>
    rw [List.cons_append, codeFrom_some_cons, codeFrom_some_cons, endsInCode_some_cons]
    simpa [hescape, hclose] using ih hend hquote

/-! ## Segments -/

end Markers

namespace Text

theorem countFrom_singleton (c : Char) (t : Text) : countFrom [c] 0 t = t.count c := by
  induction t with
  | nil => rfl
  | cons d t ih =>
    by_cases h : c = d
    · subst h
      simp [countFrom, List.isPrefixOf, ih, Nat.add_comm]
    · have hne : ¬d = c := fun heq ↦ h heq.symm
      simp [countFrom, List.isPrefixOf, h, hne, ih]

theorem occurrences_singleton (c : Char) (t : Text) : occurrences [c] t = t.count c :=
  countFrom_singleton c t

end Text

namespace Segment

/-- The text of the code segments. -/
def codeOf (segments : List Segment) : Text :=
  segments.flatMap fun segment ↦ if segment.kind = .code then segment.text else []

@[simp]
theorem codeOf_nil : codeOf [] = [] := rfl

@[simp]
theorem codeOf_cons (segment : Segment) (segments : List Segment) :
    codeOf (segment :: segments)
      = (if segment.kind = .code then segment.text else []) ++ codeOf segments :=
  List.flatMap_cons

@[simp]
theorem codeOf_append (segments others : List Segment) :
    codeOf (segments ++ others) = codeOf segments ++ codeOf others :=
  List.flatMap_append

theorem total_occurrences_eq_count (c : Char) (segments : List Segment) :
    total (fun segment ↦ if segment.kind = .code then Text.occurrences [c] segment.text else 0)
      segments = (codeOf segments).count c := by
  induction segments with
  | nil => rfl
  | cons segment segments ih =>
    rw [total, ih, codeOf_cons, List.count_append]
    split <;> simp [Text.occurrences_singleton]

@[simp]
theorem codeOf_flush_code (read : Text) : codeOf (flush .code read) = read.reverse := by
  cases read <;> simp [flush]

@[simp]
theorem codeOf_flush_string (read : Text) : codeOf (flush .string read) = [] := by
  cases read <;> simp [flush]

theorem kind_of_mem_flush {kind : SegmentKind} {read : Text} {segment : Segment}
    (h : segment ∈ flush kind read) : segment.kind = kind := by
  rw [flush] at h
  split at h
  · exact absurd h List.not_mem_nil
  · rw [List.mem_singleton.1 h]

/-- The code segments of a scan hold what it has read, if that is code, and what there is to
come. -/
theorem codeOf_scan (marks : Markers) (quote? : Option Char) (read t : Text) :
    codeOf (scan marks quote? read t)
      = (if quote?.isNone then read.reverse else []) ++ marks.codeFrom quote? t := by
  fun_induction scan marks quote? read t <;>
    simp_all [Markers.codeFrom, Markers.codeFrom_some_cons]

end Segment

namespace Markers

variable {marks : Markers} {c : Char} {t u line : Text}

/-- The number of times a character stands in code. -/
theorem countInCode_singleton (marks : Markers) (c : Char) (line : Text) :
    marks.countInCode [c] line = (marks.codeFrom none line).count c := by
  rw [countInCode, Segment.total_occurrences_eq_count, segments, Segment.codeOf_scan]
  simp

theorem kind_ne_comment_of_mem_scan {quote? : Option Char} {read : Text} {segment : Segment}
    (hend : marks.endsInCode quote? t) (h : segment ∈ Segment.scan marks quote? read t) :
    segment.kind ≠ .comment := by
  fun_induction Segment.scan marks quote? read t with
  | case1 read => simp [Segment.kind_of_mem_flush h]
  | case2 quote read => exact absurd hend (by simp [endsInCode])
  | case3 read c rest hcomment => exact absurd hend (by simp [endsInCode, hcomment])
  | case4 read c rest hcomment hquote ih =>
    rw [endsInCode_none_cons, if_neg hcomment, if_pos hquote] at hend
    rcases List.mem_append.1 h with h | h
    · simp [Segment.kind_of_mem_flush h]
    · exact ih hend h
  | case5 read c rest hcomment hquote ih =>
    rw [endsInCode_none_cons, if_neg hcomment, if_neg hquote] at hend
    exact ih hend h
  | case6 quote read c hescape => exact absurd hend (by simp [endsInCode, hescape])
  | case7 quote read c hescape d rest ih =>
    rw [endsInCode_some_cons, if_pos hescape] at hend
    exact ih hend h
  | case8 quote read c rest hescape hclose ih =>
    rw [endsInCode_some_cons, if_neg hescape, if_pos hclose] at hend
    rcases List.mem_cons.1 h with rfl | h
    · simp
    · exact ih hend h
  | case9 quote read c rest hescape hclose ih =>
    rw [endsInCode_some_cons, if_neg hescape, if_neg hclose] at hend
    exact ih hend h

/-- A line that ends in code has no comment. -/
theorem splitComment_of_endsInCode (h : marks.endsInCode none line) :
    marks.splitComment line = (line, []) := by
  simp only [splitComment]
  split
  · rename_i comment hlast
    exact absurd rfl (kind_ne_comment_of_mem_scan h (List.mem_of_getLast? hlast))
  · rfl

/-- A comment is the last segment, it comes out of code, and the code before it is all there is. -/
theorem exists_of_comment_mem_scan {quote? : Option Char} {read comment : Text}
    (h : ⟨.comment, comment⟩ ∈ Segment.scan marks quote? read t) :
    ∃ segments before, Segment.scan marks quote? read t = segments ++ [⟨.comment, comment⟩]
      ∧ t = before ++ comment ∧ marks.startsComment comment
      ∧ marks.endsInCode quote? before
      ∧ marks.codeFrom quote? before = marks.codeFrom quote? t := by
  have hflush {kind : SegmentKind} {read : Text} (hkind : kind ≠ .comment) :
      ⟨.comment, comment⟩ ∉ Segment.flush kind read :=
    fun hmem ↦ hkind (Segment.kind_of_mem_flush hmem).symm
  -- The part before the comment looks less far ahead than the whole text.
  have hahead {c : Char} {before : Text} (hnot : ¬marks.startsComment (c :: (before ++ comment))) :
      ¬marks.startsComment (c :: before) :=
    fun hstart ↦ hnot (startsComment_append hstart comment)
  fun_induction Segment.scan marks quote? read t with
  | case1 read => exact absurd h (hflush (by simp))
  | case2 quote read => exact absurd h (hflush (by simp))
  | case3 read c rest hcomment =>
    obtain rfl : comment = c :: rest := by
      rcases List.mem_append.1 h with h | h
      · exact absurd h (hflush (by simp))
      · simpa using h
    exact ⟨Segment.flush .code read, [], rfl, rfl, hcomment, rfl, by simp [codeFrom, hcomment]⟩
  | case4 read c rest hcomment hquote ih =>
    obtain ⟨segments, before, hscan, rfl, hstart, hend, hcode⟩ :=
      ih ((List.mem_append.1 h).resolve_left (hflush (by simp)))
    refine ⟨Segment.flush .code read ++ segments, c :: before, by simp [hscan], rfl, hstart, ?_, ?_⟩
    · rw [endsInCode_none_cons, if_neg (hahead hcomment), if_pos hquote]
      exact hend
    · rw [codeFrom_none_cons, codeFrom_none_cons, if_neg (hahead hcomment), if_neg hcomment,
        if_pos hquote, if_pos hquote]
      exact hcode
  | case5 read c rest hcomment hquote ih =>
    obtain ⟨segments, before, hscan, rfl, hstart, hend, hcode⟩ := ih h
    refine ⟨segments, c :: before, hscan, rfl, hstart, ?_, ?_⟩
    · rw [endsInCode_none_cons, if_neg (hahead hcomment), if_neg hquote]
      exact hend
    · rw [codeFrom_none_cons, codeFrom_none_cons, if_neg (hahead hcomment), if_neg hcomment,
        if_neg hquote, if_neg hquote, hcode]
  | case6 quote read c hescape => exact absurd h (hflush (by simp))
  | case7 quote read c hescape d rest ih =>
    obtain ⟨segments, before, hscan, rfl, hstart, hend, hcode⟩ := ih h
    refine ⟨segments, c :: d :: before, hscan, rfl, hstart, ?_, ?_⟩
    · simpa [endsInCode_some_cons, hescape] using hend
    · simpa [codeFrom_some_cons, hescape] using hcode
  | case8 quote read c rest hescape hclose ih =>
    obtain ⟨segments, before, hscan, rfl, hstart, hend, hcode⟩ :=
      ih ((List.mem_cons.1 h).resolve_left (by simp))
    refine ⟨⟨.string, (c :: read).reverse⟩ :: segments, c :: before, by simp [hscan], rfl, hstart,
      ?_, ?_⟩
    · simpa [endsInCode_some_cons, hescape, hclose] using hend
    · simpa [codeFrom_some_cons, hescape, hclose] using hcode
  | case9 quote read c rest hescape hclose ih =>
    obtain ⟨segments, before, hscan, rfl, hstart, hend, hcode⟩ := ih h
    refine ⟨segments, c :: before, hscan, rfl, hstart, ?_, ?_⟩
    · simpa [endsInCode_some_cons, hescape, hclose] using hend
    · simpa [codeFrom_some_cons, hescape, hclose] using hcode

/-- A line has no comment, or its code is that of the part before the comment, which ends in
code. -/
theorem splitComment_cases (marks : Markers) (line : Text) :
    marks.splitComment line = (line, [])
      ∨ marks.startsComment (marks.splitComment line).2
        ∧ marks.endsInCode none (marks.splitComment line).1
        ∧ marks.codeFrom none (marks.splitComment line).1 = marks.codeFrom none line := by
  have hsplit := splitComment_append marks line
  simp only [splitComment] at hsplit ⊢
  split at hsplit
  · rename_i comment hlast
    obtain ⟨segments, before, hscan, hline, hstart, hend, hcode⟩ :=
      exists_of_comment_mem_scan (List.mem_of_getLast? hlast)
    obtain rfl : Segment.textOf (marks.segments line).dropLast = before := by
      exact List.append_cancel_right (hsplit.trans hline)
    exact .inr ⟨hstart, hend, hcode⟩
  · exact .inl rfl

/-! ## Neutral characters behind a text -/

theorem endsInCode_append_neutral (t : Text) (hu : ∀ d ∈ u, marks.isNeutral d) :
    marks.endsInCode none (t ++ u) = marks.endsInCode none t := by
  cases hend : marks.endsInCode none t with
  | true =>
    rw [(append_of_endsInCode hend fun d hd ↦ hu d (List.mem_of_head? hd)).2]
    exact endsInCode_of_neutral hu
  | false => exact (append_of_not_endsInCode hend (by simp) hu).2

theorem codeFrom_append_neutral (t : Text) (hu : ∀ d ∈ u, marks.isNeutral d) :
    marks.codeFrom none (t ++ u)
      = marks.codeFrom none t ++ if marks.endsInCode none t then u else [] := by
  cases hend : marks.endsInCode none t with
  | true =>
    rw [(append_of_endsInCode hend fun d hd ↦ hu d (List.mem_of_head? hd)).1, codeFrom_eq_self hu,
      if_pos rfl]
  | false =>
    rw [(append_of_not_endsInCode hend (by simp) hu).1]
    simp

theorem countInCode_append_neutral (t : Text) (hu : ∀ d ∈ u, marks.isNeutral d) :
    marks.countInCode [c] (t ++ u)
      = marks.countInCode [c] t + if marks.endsInCode none t then u.count c else 0 := by
  rw [countInCode_singleton, countInCode_singleton, codeFrom_append_neutral t hu,
    List.count_append]
  split <;> rfl

/-! ## Sifted code -/

/-- The characters of a line's code that pass through a sieve, in their order. -/
def sift (marks : Markers) (sieve : Char → Bool) (line : Text) : Text :=
  (marks.codeFrom none line).filter sieve

variable {sieve : Char → Bool}

theorem countInCode_eq_count_sift (marks : Markers) (sieve : Char → Bool) (hc : sieve c)
    (line : Text) :
    marks.countInCode [c] line = (marks.sift sieve line).count c := by
  rw [countInCode_singleton, sift, List.count_filter hc]

/-- Neutral characters that are held back leave no trace in front of a text. -/
theorem sift_neutral_append (hu : ∀ d ∈ u, marks.isNeutral d)
    (hsieve : ∀ d ∈ u, ¬sieve d) (t : Text) :
    marks.sift sieve (u ++ t) = marks.sift sieve t := by
  rw [sift, codeFrom_neutral_append hu, List.filter_append, List.filter_eq_nil_iff.2 hsieve,
    List.nil_append, sift]

/-- Nor do they behind it, whether the text ends in code, in a string or in a comment. -/
theorem sift_append_neutral (t : Text) (hu : ∀ d ∈ u, marks.isNeutral d)
    (hsieve : ∀ d ∈ u, ¬sieve d) :
    marks.sift sieve (t ++ u) = marks.sift sieve t := by
  rw [sift, codeFrom_append_neutral t hu, List.filter_append, sift]
  split
  · rw [List.filter_eq_nil_iff.2 hsieve, List.append_nil]
  · rw [List.filter_nil, List.append_nil]

/-- A text that ends in code is sifted apart from what a neutral character sets off from it. -/
theorem sift_append_of_endsInCode (hend : marks.endsInCode none t)
    (hhead : ∀ d ∈ u.head?, marks.isNeutral d) :
    marks.sift sieve (t ++ u) = marks.sift sieve t ++ marks.sift sieve u := by
  rw [sift, (append_of_endsInCode hend hhead).1, List.filter_append, sift, sift]

theorem sift_of_startsComment (h : marks.startsComment t) : marks.sift sieve t = [] := by
  rw [sift]
  cases t with
  | nil => rfl
  | cons c t => rw [codeFrom_none_cons, if_pos h, List.filter_nil]

end Markers

end Recast
