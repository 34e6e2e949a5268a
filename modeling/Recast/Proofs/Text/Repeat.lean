import Recast.Proofs.Text.Trim
import Recast.Text.Brackets

/-!
# Repeated marks

A mark may stand once in a text or several times in a row.  Where a text starts and ends, what it
holds and what is left of it when it is trimmed does not depend on that, and a terminator in a row of
them does not change what a scan for brackets finds.
-/

namespace Recast.Text

/-- Whether the second text is the first with some marks repeated. -/
inductive Repeats (mark : Char) : Text → Text → Prop where
  | nil : Repeats mark [] []
  | keep (c : Char) {t u : Text} : Repeats mark t u → Repeats mark (c :: t) (c :: u)
  | again {t u : Text} : Repeats mark (mark :: t) u → Repeats mark (mark :: t) (mark :: u)

namespace Repeats

variable {mark c : Char} {t u v w : Text} {p : Char → Bool}

theorem refl (t : Text) : Repeats mark t t := by
  induction t with
  | nil => exact .nil
  | cons c t ih => exact .keep c ih

theorem append (h : Repeats mark t u) (h' : Repeats mark v w) : Repeats mark (t ++ v) (u ++ w) := by
  induction h with
  | nil => exact h'
  | keep c _ ih => exact .keep c ih
  | again _ ih => exact .again ih

theorem replicate (n : Nat) : Repeats mark [mark] (List.replicate (n + 1) mark) := by
  induction n with
  | zero => exact .refl _
  | succ n ih => exact .again ih

/-! ## What is found in the text -/

theorem head?_eq (h : Repeats mark t u) : u.head? = t.head? := by
  cases h <;> rfl

theorem getLast?_eq (h : Repeats mark t u) : u.getLast? = t.getLast? := by
  induction h with
  | nil => rfl
  | keep c _ ih => rw [List.getLast?_cons, List.getLast?_cons, ih]
  | again _ ih => rw [List.getLast?_cons, ih, List.getLast?_cons, Option.getD_some]

theorem mem_iff (h : Repeats mark t u) : c ∈ u ↔ c ∈ t := by
  induction h with
  | nil => exact Iff.rfl
  | keep d _ ih => rw [List.mem_cons, List.mem_cons, ih]
  | again _ ih => rw [List.mem_cons, ih, List.mem_cons, or_self_left]

theorem find?_eq (h : Repeats mark t u) : u.find? p = t.find? p := by
  induction h with
  | nil => rfl
  | keep c _ ih => rw [List.find?_cons, List.find?_cons, ih]
  | again _ ih =>
    rw [List.find?_cons, ih, List.find?_cons]
    cases p mark <;> rfl

theorem takeWhile_eq (h : Repeats mark t u) (hmark : p mark = false) :
    u.takeWhile p = t.takeWhile p := by
  induction h with
  | nil => rfl
  | keep c _ ih => rw [List.takeWhile_cons, List.takeWhile_cons, ih]
  | again => simp [hmark]

/-! ## Parts of the text -/

/-- A cut of the shorter text is one of the longer text. -/
theorem exists_append (h : Repeats mark (t ++ v) u) :
    ∃ u₁ u₂, u = u₁ ++ u₂ ∧ Repeats mark t u₁ ∧ Repeats mark v u₂ := by
  generalize htext : t ++ v = text at h
  induction h generalizing t with
  | nil =>
    obtain ⟨rfl, rfl⟩ := List.append_eq_nil_iff.1 htext
    exact ⟨[], [], rfl, .nil, .nil⟩
  | @keep c text u h ih =>
    cases t with
    | nil =>
      rw [List.nil_append] at htext
      exact ⟨[], c :: u, rfl, .nil, htext.symm ▸ .keep c h⟩
    | cons d t =>
      obtain ⟨rfl, hrest⟩ := List.cons.inj htext
      obtain ⟨u₁, u₂, rfl, h₁, h₂⟩ := ih hrest
      exact ⟨d :: u₁, u₂, rfl, .keep d h₁, h₂⟩
  | @again text u h ih =>
    cases t with
    | nil =>
      rw [List.nil_append] at htext
      exact ⟨[], mark :: u, rfl, .nil, htext.symm ▸ .again h⟩
    | cons d t =>
      obtain ⟨u₁, u₂, rfl, h₁, h₂⟩ := ih htext
      obtain ⟨rfl, -⟩ := List.cons.inj htext
      exact ⟨d :: u₁, u₂, rfl, .again h₁, h₂⟩

theorem eq_of_notMem (h : Repeats mark t u) (ht : mark ∉ t) : u = t := by
  induction h with
  | nil => rfl
  | keep c _ ih => rw [ih fun hmem ↦ ht (List.mem_cons_of_mem c hmem)]
  | again => exact absurd List.mem_cons_self ht

theorem exists_append_of_notMem (h : Repeats mark (v ++ t) u) (hv : mark ∉ v) :
    ∃ u', u = v ++ u' ∧ Repeats mark t u' := by
  obtain ⟨v', u', rfl, hv', h⟩ := h.exists_append
  exact ⟨u', by rw [hv'.eq_of_notMem hv], h⟩

theorem exists_cons_of_ne (h : Repeats mark (c :: t) u) (hc : c ≠ mark) :
    ∃ u', u = c :: u' ∧ Repeats mark t u' :=
  h.exists_append_of_notMem (v := [c]) (by simpa using hc.symm)

/-- The beginning of the longer text is that of the shorter one if it holds no mark. -/
theorem exists_append_right (h : Repeats mark t (v ++ u)) (hv : mark ∉ v) :
    ∃ t', t = v ++ t' ∧ Repeats mark t' u := by
  induction v generalizing t with
  | nil => exact ⟨t, rfl, h⟩
  | cons c v ih =>
    obtain ⟨hc, hv⟩ := not_or.1 (mt List.mem_cons.2 hv)
    cases h with
    | keep _ h =>
      obtain ⟨t', rfl, h'⟩ := ih h hv
      exact ⟨t', rfl, h'⟩
    | again => exact absurd rfl hc

/-- A character is followed by its repetitions and then by the rest. -/
theorem exists_replicate (h : Repeats mark (c :: t) u) :
    ∃ n u', u = c :: (List.replicate n mark ++ u') ∧ Repeats mark t u' := by
  generalize htext : c :: t = text at h
  induction h with
  | nil => exact absurd htext (by simp)
  | @keep d text u h _ =>
    obtain ⟨rfl, rfl⟩ := List.cons.inj htext
    exact ⟨0, u, rfl, h⟩
  | again _ ih =>
    obtain ⟨n, u', rfl, h⟩ := ih htext
    obtain ⟨rfl, -⟩ := List.cons.inj htext
    exact ⟨n + 1, u', rfl, h⟩

/-! ## Trimming -/

theorem dropWhile (h : Repeats mark t u) (p : Char → Bool) :
    Repeats mark (t.dropWhile p) (u.dropWhile p) := by
  induction h with
  | nil => exact .nil
  | keep c h ih =>
    rw [List.dropWhile_cons, List.dropWhile_cons]
    split
    · exact ih
    · exact .keep c h
  | @again t u h ih =>
    by_cases hmark : p mark
    · rw [List.dropWhile_cons_of_pos (l := u) hmark]
      exact ih
    · rw [List.dropWhile_cons_of_neg hmark, List.dropWhile_cons_of_neg hmark]
      exact .again h

theorem reverse (h : Repeats mark t u) : Repeats mark t.reverse u.reverse := by
  have hlast {w : Text} (hw : Repeats mark [mark] w) : Repeats mark [mark] (w ++ [mark]) := by
    obtain ⟨n, u, rfl, hnil⟩ := hw.exists_replicate
    cases hnil
    rw [List.append_nil, ← List.replicate_succ, ← List.replicate_succ']
    exact .replicate _
  induction h with
  | nil => exact .nil
  | keep c _ ih =>
    rw [List.reverse_cons, List.reverse_cons]
    exact ih.append (.refl [c])
  | again _ ih =>
    rw [List.reverse_cons] at ih
    obtain ⟨u₁, u₂, heq, h₁, h₂⟩ := ih.exists_append
    rw [List.reverse_cons, List.reverse_cons, heq, List.append_assoc]
    exact h₁.append (hlast h₂)

theorem trimEnd (h : Repeats mark t u) : Repeats mark (trimEnd t) (trimEnd u) :=
  (h.reverse.dropWhile isBlank).reverse

theorem trim (h : Repeats mark t u) : Repeats mark (trim t) (trim u) :=
  (h.dropWhile isBlank).trimEnd

end Repeats

/-! ## Scanning for brackets -/

section Scan

variable {quote? other? : Option Char} {depth depth' : Int} {t u t' : Text} {n : Nat} {c quote : Char}

theorem closeFrom_some_cons : closeFrom (some quote) depth (c :: t)
    = if c == '\\' then (closeFrom (some quote) depth (t.drop 1)).map (· + 2)
      else (closeFrom (if c == quote then none else some quote) depth t).map (· + 1) := by
  cases t <;> rfl

theorem closeFrom_replicate (hquote : quote? ≠ some ';') (n : Nat) (t : Text) :
    closeFrom quote? depth (List.replicate n ';' ++ t) = (closeFrom quote? depth t).map (· + n) := by
  have hstep (t : Text) : closeFrom quote? depth (';' :: t) = (closeFrom quote? depth t).map (· + 1) := by
    cases quote? with
    | none => rfl
    | some quote =>
      have hne : (';' == quote) = false := beq_eq_false_iff_ne.2 fun h ↦ hquote (h ▸ rfl)
      rw [closeFrom_some_cons, if_neg (by decide), hne, if_neg (by decide)]
  induction n with
  | zero => simp
  | succ n ih =>
    rw [List.replicate_succ, List.cons_append, hstep, ih, Option.map_map]
    rfl

/-- Whether the bracket that brings the depth back to zero is the last character. -/
def ClosesLast (quote? : Option Char) (depth : Int) (t : Text) : Prop :=
  ∃ n, closeFrom quote? depth t = some n ∧ n + 1 = t.length

theorem closesLast_iff (hlength : t.length = t'.length + n)
    (h : closeFrom quote? depth t = (closeFrom other? depth' t').map (· + n)) :
    ClosesLast quote? depth t ↔ ClosesLast other? depth' t' := by
  rw [ClosesLast, ClosesLast, h]
  cases closeFrom other? depth' t' with
  | none => simp
  | some m =>
    simp only [Option.map_some, Option.some.injEq, exists_eq_left']
    omega

theorem closesLast_replicate (hquote : quote? ≠ some ';') :
    ClosesLast quote? depth (List.replicate n ';' ++ t) ↔ ClosesLast quote? depth t :=
  closesLast_iff (by simp [Nat.add_comm]) (closeFrom_replicate hquote n t)

theorem ne_of_contains {chars : Text} (hchars : ';' ∉ chars) (hc : chars.contains c) : c ≠ ';' := by
  rintro rfl
  exact hchars (by simpa using hc)

theorem ne_of_escape (h : c == '\\') : c ≠ ';' := by
  rintro rfl
  exact absurd h (by decide)

theorem quoteAfter_ne (hquote : some quote ≠ some ';') :
    (if c == quote then none else some quote) ≠ some ';' := by
  split
  · simp
  · exact hquote

/-- An escape stays in one piece, and repetitions only follow it. -/
theorem Repeats.exists_escape {d : Char} (h : Repeats ';' (c :: d :: t) u) (hescape : c == '\\') :
    ∃ n u', u = c :: d :: (List.replicate n ';' ++ u') ∧ Repeats ';' t u' := by
  obtain ⟨u, rfl, hnext⟩ := h.exists_cons_of_ne (ne_of_escape hescape)
  obtain ⟨n, u, rfl, hrest⟩ := hnext.exists_replicate
  exact ⟨n, u, rfl, hrest⟩

/-- The last bracket of a text closes it also if terminators are repeated. -/
theorem Repeats.closesLast (h : Repeats ';' t u) (hquote : quote? ≠ some ';')
    (hclose : ClosesLast quote? depth t) : ClosesLast quote? depth u := by
  -- A character after which the scan goes on in the same way in both texts.
  have hstep {c : Char} {t u : Text} {quote? other? : Option Char} {depth depth' : Int}
      (h : Repeats ';' (c :: t) u) (hother : other? ≠ some ';')
      (hclose : ClosesLast quote? depth (c :: t))
      (hscan : ∀ t, closeFrom quote? depth (c :: t) = (closeFrom other? depth' t).map (· + 1))
      (ih : ∀ {u}, Repeats ';' t u → ClosesLast other? depth' t → ClosesLast other? depth' u) :
      ClosesLast quote? depth u := by
    obtain ⟨n, u, rfl, hrest⟩ := h.exists_replicate
    rw [closesLast_iff rfl (hscan _)] at hclose ⊢
    exact (closesLast_replicate hother).2 (ih hrest hclose)
  fun_induction closeFrom quote? depth t generalizing u with
  | case1 =>
    obtain ⟨n, hn, -⟩ := hclose
    exact absurd hn (by simp [closeFrom])
  | case2 quote depth c hescape =>
    obtain ⟨n, hn, -⟩ := hclose
    rw [closeFrom_some_cons, if_pos hescape] at hn
    exact absurd hn (by simp [closeFrom])
  | case3 quote depth c hescape d rest ih =>
    obtain ⟨n, u, rfl, hrest⟩ := h.exists_escape hescape
    have hscan (t : Text) : ClosesLast (some quote) depth (c :: d :: t)
        ↔ ClosesLast (some quote) depth t :=
      closesLast_iff rfl (by rw [closeFrom_some_cons, if_pos hescape]; rfl)
    rw [hscan] at hclose ⊢
    exact (closesLast_replicate hquote).2 (ih hrest hquote hclose)
  | case4 quote depth c rest hescape ih =>
    have hother : (if c == quote then none else some quote) ≠ some ';' := quoteAfter_ne hquote
    exact hstep h hother hclose (fun t ↦ by rw [closeFrom_some_cons, if_neg hescape])
      fun h ↦ ih h hother
  | case5 depth c rest hopens ih =>
    have hother : some c ≠ some ';' :=
      fun heq ↦ ne_of_contains (by decide) hopens (Option.some.inj heq)
    exact hstep h hother hclose (fun t ↦ by rw [closeFrom, if_pos hopens]) fun h ↦ ih h hother
  | case6 depth c rest hquotes hopens ih =>
    exact hstep h hquote hclose (fun t ↦ by rw [closeFrom, if_neg hquotes, if_pos hopens])
      fun h ↦ ih h hquote
  | case7 c rest hquotes hopens hcloses =>
    obtain ⟨n, hn, hlength⟩ := hclose
    rw [closeFrom, if_neg hquotes, if_neg hopens, if_pos hcloses, if_pos rfl] at hn
    obtain rfl := Option.some.inj hn
    obtain rfl : rest = [] := by simpa using hlength.symm
    obtain ⟨u, rfl, hnil⟩ := h.exists_cons_of_ne (ne_of_contains (by decide) hcloses)
    cases hnil
    exact ⟨0, by rw [closeFrom, if_neg hquotes, if_neg hopens, if_pos hcloses, if_pos rfl], rfl⟩
  | case8 depth c rest hquotes hopens hcloses hdepth ih =>
    exact hstep h hquote hclose
      (fun t ↦ by rw [closeFrom, if_neg hquotes, if_neg hopens, if_pos hcloses, if_neg hdepth])
      fun h ↦ ih h hquote
  | case9 depth c rest hquotes hopens hcloses ih =>
    exact hstep h hquote hclose
      (fun t ↦ by rw [closeFrom, if_neg hquotes, if_neg hopens, if_neg hcloses]) fun h ↦ ih h hquote

theorem topLevelPieces_some_cons {separator : Char} {piece : Text} :
    topLevelPieces separator (some quote) depth piece (c :: t)
      = if c == '\\' then
          match t with
          | [] => [(c :: piece).reverse]
          | d :: rest => topLevelPieces separator (some quote) depth (d :: c :: piece) rest
        else
          topLevelPieces separator (if c == quote then none else some quote) depth (c :: piece) t := by
  cases t <;> rfl

theorem topLevelPieces_replicate {separator : Char} (hquote : quote? ≠ some ';')
    (hseparator : separator ≠ ';') (n : Nat) (piece t : Text) :
    topLevelPieces separator quote? depth piece (List.replicate n ';' ++ t)
      = topLevelPieces separator quote? depth (List.replicate n ';' ++ piece) t := by
  have hstep (piece t : Text) : topLevelPieces separator quote? depth piece (';' :: t)
      = topLevelPieces separator quote? depth (';' :: piece) t := by
    cases quote? with
    | none =>
      have hne : (';' == separator) = false := beq_eq_false_iff_ne.2 hseparator.symm
      rw [topLevelPieces, if_neg (by decide), if_neg (by decide), if_neg (by decide), hne]
      rfl
    | some quote =>
      have hne : (';' == quote) = false := beq_eq_false_iff_ne.2 fun h ↦ hquote (h ▸ rfl)
      rw [topLevelPieces_some_cons, if_neg (by decide), hne, if_neg (by decide)]
  induction n generalizing piece with
  | zero => rfl
  | succ n ih =>
    rw [List.replicate_succ, List.cons_append, hstep, ih, ← List.replicate_succ, List.replicate_succ',
      List.append_assoc]
    rfl

/-- There are as many pieces if terminators are repeated. -/
theorem Repeats.length_topLevelPieces {separator : Char} {piece piece' : Text} (h : Repeats ';' t u)
    (hseparator : separator ≠ ';') (hquote : quote? ≠ some ';') :
    (topLevelPieces separator quote? depth piece' u).length
      = (topLevelPieces separator quote? depth piece t).length := by
  -- A character that is read into the piece.
  have hstep {c : Char} {t u : Text} {quote? other? : Option Char} {depth depth' : Int}
      {piece piece' : Text} (h : Repeats ';' (c :: t) u) (hother : other? ≠ some ';')
      (hscan : ∀ piece t, topLevelPieces separator quote? depth piece (c :: t)
        = topLevelPieces separator other? depth' (c :: piece) t)
      (ih : ∀ {u piece'}, Repeats ';' t u → (topLevelPieces separator other? depth' piece' u).length
        = (topLevelPieces separator other? depth' (c :: piece) t).length) :
      (topLevelPieces separator quote? depth piece' u).length
        = (topLevelPieces separator other? depth' (c :: piece) t).length := by
    obtain ⟨n, u, rfl, hrest⟩ := h.exists_replicate
    rw [hscan, topLevelPieces_replicate hother hseparator]
    exact ih hrest
  fun_induction topLevelPieces separator quote? depth piece t generalizing u piece' with
  | case1 =>
    cases h
    rfl
  | case2 quote depth piece c hescape =>
    obtain ⟨u, rfl, hnil⟩ := h.exists_cons_of_ne (ne_of_escape hescape)
    cases hnil
    rw [topLevelPieces_some_cons, if_pos hescape]
    rfl
  | case3 quote depth piece c hescape d rest ih =>
    obtain ⟨n, u, rfl, hrest⟩ := h.exists_escape hescape
    rw [topLevelPieces_some_cons, if_pos hescape]
    simp only
    rw [topLevelPieces_replicate hquote hseparator]
    exact ih hrest hquote
  | case4 quote depth piece c rest hescape ih =>
    have hother : (if c == quote then none else some quote) ≠ some ';' := quoteAfter_ne hquote
    exact hstep h hother (fun piece t ↦ by rw [topLevelPieces_some_cons, if_neg hescape])
      fun h ↦ ih h hother
  | case5 depth piece c rest hopens ih =>
    have hother : some c ≠ some ';' :=
      fun heq ↦ ne_of_contains (by decide) hopens (Option.some.inj heq)
    exact hstep h hother (fun piece t ↦ by rw [topLevelPieces, if_pos hopens]) fun h ↦ ih h hother
  | case6 depth piece c rest hquotes hopens ih =>
    exact hstep h hquote (fun piece t ↦ by rw [topLevelPieces, if_neg hquotes, if_pos hopens])
      fun h ↦ ih h hquote
  | case7 depth piece c rest hquotes hopens hcloses ih =>
    exact hstep h hquote
      (fun piece t ↦ by rw [topLevelPieces, if_neg hquotes, if_neg hopens, if_pos hcloses])
      fun h ↦ ih h hquote
  | case8 depth piece c rest hquotes hopens hcloses hcut ih =>
    have hc : c ≠ ';' := by
      rintro rfl
      exact hseparator (eq_of_beq (Bool.and_eq_true_iff.1 hcut).1).symm
    obtain ⟨u, rfl, hrest⟩ := h.exists_cons_of_ne hc
    rw [topLevelPieces, if_neg hquotes, if_neg hopens, if_neg hcloses, if_pos hcut,
      List.length_cons, List.length_cons, ih hrest hquote]
  | case9 depth piece c rest hquotes hopens hcloses hcut ih =>
    exact hstep h hquote
      (fun piece t ↦ by
        rw [topLevelPieces, if_neg hquotes, if_neg hopens, if_neg hcloses, if_neg hcut])
      fun h ↦ ih h hquote

end Scan

theorem hasTopLevelColon_eq (t : Text) :
    hasTopLevelColon t = decide ((topLevelPieces ':' none 0 [] t).length > 1) := by
  rw [hasTopLevelColon, splitTopLevel]
  split
  · rename_i hpieces
    have hlength := congrArg List.length hpieces
    rw [List.length_map] at hlength
    rw [hlength]
    rfl
  · rw [List.length_map]

theorem Repeats.hasTopLevelColon_eq {t u : Text} (h : Repeats ';' t u) :
    hasTopLevelColon u = hasTopLevelColon t := by
  have hlength : (topLevelPieces ':' none 0 [] u).length = (topLevelPieces ':' none 0 [] t).length :=
    h.length_topLevelPieces (by decide) (by simp)
  rw [Text.hasTopLevelColon_eq, Text.hasTopLevelColon_eq, hlength]

theorem length_trim_le (t : Text) : (trim t).length ≤ t.length := by
  have hparts := congrArg List.length (indentation_append_trim t)
  rw [List.length_append, List.length_append] at hparts
  omega

/-- An expression loses something with its parentheses if they are around the whole of it. -/
theorem unwrapParens_ne_iff {t : Text} (htrim : trim t = t) (hopen : t.head? = some '(') :
    unwrapParens t ≠ t ↔ ClosesLast none 0 t := by
  obtain ⟨rest, rfl⟩ := List.head?_eq_some_iff.1 hopen
  have hstarts : startsWith ('(' :: rest) ['('] := by simp [startsWith, List.isPrefixOf]
  have hcloses : matchingClose? ('(' :: rest) = some (('(' :: rest).length - 1)
      ↔ ClosesLast none 0 ('(' :: rest) := by
    rw [ClosesLast, matchingClose?]
    simp [eq_comm]
  simp only [unwrapParens, htrim, hstarts, Bool.true_and, beq_iff_eq]
  rw [← hcloses]
  split
  · rename_i hclose
    refine iff_of_true (fun heq ↦ ?_) hclose
    have hlength := congrArg List.length heq
    have hle : (trim (('(' :: rest).drop 1).dropLast).length ≤ rest.length - 1 := by
      refine Nat.le_trans (length_trim_le _) ?_
      simp
    rw [hlength, List.length_cons] at hle
    omega
  · rename_i hclose
    exact iff_of_false (by simp) hclose

theorem Repeats.unwrapParens_ne {t u : Text} (h : Repeats ';' t u) (hopen : t.head? = some '(')
    (hlast : ∀ c ∈ t.getLast?, isBlank c = false) (hne : unwrapParens t ≠ t) : unwrapParens u ≠ u := by
  have htrim {v : Text} (hopen : v.head? = some '(') (hlast : ∀ c ∈ v.getLast?, isBlank c = false) :
      Text.trim v = v := by
    refine trim_eq_self (fun c hc ↦ ?_) hlast
    rw [Option.mem_def, hopen, Option.some.injEq] at hc
    rw [← hc]
    decide
  rw [unwrapParens_ne_iff (htrim hopen hlast) hopen] at hne
  rw [← h.head?_eq] at hopen
  rw [← h.getLast?_eq] at hlast
  rw [unwrapParens_ne_iff (htrim hopen hlast) hopen]
  exact h.closesLast (by simp) hne


end Recast.Text
