import Recast.Proofs.Grammar.FunctionHeader
import Recast.Proofs.Pattern.Lazy

/-!
# Counted loops

A counted loop binds a variable, tests it and counts it up, in three parts that are taken apart one
by one.  In front of the variable that is bound a declaration may stand, and no blank has to part
the two: where the language writes no declaration, a variable that starts with the word for one
loses its beginning.
-/

namespace Recast

open Pattern Text

/-! ## Operands -/

/-- Whether a text is a name or a number in decimal notation. -/
def isOperand (t : Text) : Bool :=
  isName t || !t.isEmpty && t.all Char.isDigit

/-- Whether a text is made of the characters of names, and of at least one. -/
structure IsPlainWord (w : Text) : Prop where
  ne_nil : w ≠ []
  chars : ∀ c ∈ w, isNameChar c

theorem isPlainWord_of_isName {name : Text} (h : isName name) : IsPlainWord name :=
  ⟨ne_nil_of_isName h, fun _ ↦ isNameChar_of_mem h⟩

theorem isPlainWord_of_isOperand {t : Text} (h : isOperand t) : IsPlainWord t := by
  rcases Bool.or_eq_true_iff.1 h with h | h
  · exact isPlainWord_of_isName h
  · obtain ⟨hne, hdigits⟩ := Bool.and_eq_true_iff.1 h
    refine ⟨by simpa using hne, fun c hc ↦ ?_⟩
    simp [isNameChar, Char.isAlphanum, List.all_eq_true.1 hdigits c hc]

namespace IsPlainWord

variable {w t : Text} {before : Option Char} {captures : List Capture} {mark c : Char}
  {accepts : Char → Bool} {q : Pattern} {slot : Slot} {after : Reading}

theorem isNameChar_of_mem_head? (hw : IsPlainWord w) (hc : c ∈ (w ++ t).head?) :
    isNameChar c := by
  rw [List.head?_append, Option.mem_def, Option.or_eq_some_iff] at hc
  rcases hc with hc | ⟨hnil, -⟩
  · exact hw.chars c (List.mem_of_head? hc)
  · exact absurd (List.head?_eq_none_iff.1 hnil) hw.ne_nil

theorem readAt_blanks (hw : IsPlainWord w) {u : Text} (hu : ∀ c ∈ u, isBlank c) :
    blanks.readAt ⟨before, u ++ (w ++ t), captures⟩ = some ⟨endOf before u, w ++ t, captures⟩ :=
  readAt_most_char hu fun _ hc ↦ isBlank_of_isNameChar (hw.isNameChar_of_mem_head? hc)

theorem readAt_blanks1 (hw : IsPlainWord w) :
    blanks1.readAt ⟨before, ' ' :: (w ++ t), captures⟩ = some ⟨some ' ', w ++ t, captures⟩ := by
  have hblank (c : Char) (hc : c ∈ [' ']) : isBlank c := isBlank_of_mem_space hc
  exact readAt_most1_char hblank (List.cons_ne_nil _ _) fun _ hc ↦
    isBlank_of_isNameChar (hw.isNameChar_of_mem_head? hc)

theorem readAt_word (hw : IsPlainWord w) (ht : ∀ c ∈ t.head?, isWord c = false) :
    word.readAt ⟨before, w ++ t, captures⟩ = some ⟨endOf before w, t, captures⟩ :=
  readAt_most1_char (fun c hc ↦ isWord_of_isNameChar (hw.chars c hc)) hw.ne_nil ht

theorem readAt_keep_word (hw : IsPlainWord w) (slot : Slot)
    (ht : ∀ c ∈ t.head?, isWord c = false) :
    (keep slot word).readAt ⟨before, w ++ t, captures⟩
      = some ⟨endOf before w, t, ⟨slot, w ++ t, t⟩ :: captures⟩ :=
  readAt_keep (hw.readAt_word ht)

theorem readAt_mark_eq_none (hw : IsPlainWord w) (hmark : isNameChar mark = false) :
    (Pattern.char (· == mark)).readAt ⟨before, w ++ t, captures⟩ = none := by
  obtain ⟨c, w, rfl⟩ := List.exists_cons_of_ne_nil hw.ne_nil
  have hc := ne_of_isNameChar (hw.chars c List.mem_cons_self) hmark
  exact if_neg (by simpa using hc)

/-- A mark that is no part of a name does not stand where a word starts. -/
theorem readAt_maybe_mark (hw : IsPlainWord w) (hmark : isNameChar mark = false) :
    (maybe (Pattern.char (· == mark))).readAt ⟨before, w ++ t, captures⟩
      = some ⟨before, w ++ t, captures⟩ :=
  readAt_maybe_of_none (hw.readAt_mark_eq_none hmark)

/-- A lazy run reads a word to its end if what follows cannot be read inside a word. -/
theorem readAt_keep_fewest1 (hw : IsPlainWord w)
    (haccepts : ∀ c, isNameChar c → accepts c)
    (hstuck : ∀ before c rest captures, isNameChar c →
      q.readAt ⟨before, c :: rest, captures⟩ = none)
    (hq : q.readAt ⟨endOf before w, t, ⟨slot, w ++ t, t⟩ :: captures⟩ = some after) :
    (keep slot (fewest1 (.char accepts)) ++ q).readAt ⟨before, w ++ t, captures⟩
      = some after := by
  refine readAt_keep_fewest1_char hw.ne_nil (fun c hc ↦ haccepts c (hw.chars c hc))
    (fun v rest captures _ hsplit hrest ↦ ?_) hq
  obtain ⟨c, rest, rfl⟩ := List.exists_cons_of_ne_nil hrest
  exact hstuck _ c _ _ (hw.chars c (hsplit ▸ by simp))

theorem isLevel (hw : IsPlainWord w) : IsLevel w := by
  refine isLevel_of_forall fun c hc ↦ ?_
  have hname := hw.chars c hc
  have hnot (chars : Text) (hchars : chars.all fun d ↦ !isNameChar d) : c ∉ chars :=
    fun hmem ↦ ne_of_isNameChar hname (by simpa using List.all_eq_true.1 hchars c hmem) rfl
  exact ⟨hnot allQuotes (by decide), hnot openers (by decide), hnot closers (by decide),
    ne_of_isNameChar hname (by decide)⟩

theorem notMem (hw : IsPlainWord w) (hmark : isNameChar mark = false) : mark ∉ w :=
  fun hmem ↦ ne_of_isNameChar (hw.chars mark hmem) hmark rfl

theorem trim_eq_self (hw : IsPlainWord w) : trim w = w :=
  Text.trim_eq_self (fun c hc ↦ isBlank_of_isNameChar (hw.chars c (List.mem_of_head? hc)))
    fun c hc ↦ isBlank_of_isNameChar (hw.chars c (List.mem_of_getLast? hc))

end IsPlainWord

/-! ## Counted loops -/

namespace Form

/-- The words for a declaration that may stand before the variable of a counted loop. -/
def declarationWords : List Text :=
  ["let", "var", "const", "int", "long", "size_t", "auto", "unsigned"]

/-- `var = start` without a declaration in front. -/
def countedBinding : Pattern :=
  (blanks ++ maybe '$') ++ (keep .var word ++ ((blanks ++ maybe ':' ++ '=')
    ++ (blanks ++ (keep .start little1 ++ (blanks ++ textEnd)))))

theorem readAt_countedStart (reading : Reading) :
    countedStart.readAt reading
      = (blanks ++ (maybe (anyOf (declarationWords.map text)) ++ countedBinding)).readAt
          reading := by
  simp only [countedStart, readAt_append_assoc]
  rfl

section Counted

variable {var start stop gap sigil : Text} {before : Option Char} {captures : List Capture}

theorem readAt_lineEnd_eq_none (before : Option Char) (c : Char) (rest : Text)
    (captures : List Capture) (hc : isNameChar c) :
    (blanks ++ textEnd).readAt ⟨before, c :: rest, captures⟩ = none := by
  have hblank : isBlank c = false := isBlank_of_isNameChar hc
  have hline : c ≠ '\n' := ne_of_isNameChar hc rfl
  refine (readAt_most_char_append (by simpa using hblank)).trans ?_
  exact if_neg (by simp [hline])

theorem inLine_of_isNameChar (c : Char) (hc : isNameChar c) : inLine c :=
  bne_iff_ne.2 (ne_of_isNameChar hc rfl)

/-- An operand at the end of its part. -/
theorem readAt_keep_last {slot : Slot} {operand : Text} (hw : IsPlainWord operand) :
    (keep slot little1 ++ (blanks ++ textEnd)).readAt ⟨before, operand, captures⟩
      = some ⟨endOf before operand, [], ⟨slot, operand, []⟩ :: captures⟩ := by
  have h : (keep slot little1 ++ (blanks ++ textEnd)).readAt ⟨before, operand ++ [], captures⟩
      = some ⟨endOf before operand, [], ⟨slot, operand ++ [], []⟩ :: captures⟩ :=
    hw.readAt_keep_fewest1 inLine_of_isNameChar readAt_lineEnd_eq_none rfl
  rwa [List.append_nil] at h

/-- The gap before a variable with or without a sigil. -/
theorem readAt_blanks_sigil (hgap : ∀ c ∈ gap, isBlank c) (hsigil : sigil = [] ∨ sigil = ['$'])
    (hvar : IsPlainWord var) (rest : Text) :
    blanks.readAt ⟨before, gap ++ (sigil ++ (var ++ rest)), captures⟩
      = some ⟨endOf before gap, sigil ++ (var ++ rest), captures⟩ := by
  rcases hsigil with rfl | rfl
  · exact hvar.readAt_blanks hgap
  · exact readAt_most_char hgap (by rintro c ⟨⟩; rfl)

theorem readAt_maybe_sigil (hsigil : sigil = [] ∨ sigil = ['$']) (hvar : IsPlainWord var)
    (rest : Text) :
    (maybe '$').readAt ⟨before, sigil ++ (var ++ rest), captures⟩
      = some ⟨endOf before sigil, var ++ rest, captures⟩ := by
  rcases hsigil with rfl | rfl
  · exact hvar.readAt_maybe_mark rfl
  · rfl

/-- A blank and an operand at the end of its part. -/
theorem readAt_gap_last {slot : Slot} {operand : Text} (hw : IsPlainWord operand) :
    (blanks ++ (keep slot little1 ++ (blanks ++ textEnd))).readAt
        ⟨before, ' ' :: operand, captures⟩
      = some ⟨endOf (some ' ') operand, [], ⟨slot, operand, []⟩ :: captures⟩ := by
  have hgap : blanks.readAt ⟨before, [' '] ++ (operand ++ []), captures⟩
      = some ⟨some ' ', operand ++ [], captures⟩ :=
    hw.readAt_blanks fun _ ↦ isBlank_of_mem_space
  rw [List.append_nil] at hgap
  exact readAt_append hgap (readAt_keep_last hw)

/-- A binding is read with a gap, a sigil or a colon and without. -/
theorem readAt_countedBinding {mark : Text} (hgap : ∀ c ∈ gap, isBlank c)
    (hsigil : sigil = [] ∨ sigil = ['$']) (hmark : mark = " = " ∨ mark = " := ")
    (hvar : IsPlainWord var) (hstart : IsPlainWord start) :
    countedBinding.readAt ⟨before, gap ++ (sigil ++ (var ++ (mark ++ start))), captures⟩
      = some ⟨endOf (some ' ') start, [],
          ⟨.start, start, []⟩ :: ⟨.var, var ++ (mark ++ start), mark ++ start⟩ :: captures⟩ := by
  have hword (before : Option Char) (captures : List Capture) :=
    @IsPlainWord.readAt_keep_word var (mark ++ start) before captures hvar .var
      (by rcases hmark with rfl | rfl <;> rintro c ⟨⟩ <;> rfl)
  have hequals (before : Option Char) (captures : List Capture) :
      (blanks ++ maybe ':' ++ '=').readAt ⟨before, mark ++ start, captures⟩
        = some ⟨some '=', ' ' :: start, captures⟩ := by
    rcases hmark with rfl | rfl <;> rfl
  exact readAt_append
    (readAt_append (readAt_blanks_sigil hgap hsigil hvar _) (readAt_maybe_sigil hsigil hvar _))
    (readAt_append (hword _ _) (readAt_append (hequals _ _) (readAt_gap_last hstart)))

/-- Without a variable there is no binding. -/
theorem readAt_countedBinding_eq_none {mark : Text} (hmark : mark = " = " ∨ mark = " := ") :
    countedBinding.readAt ⟨before, mark ++ start, captures⟩ = none := by
  rcases hmark with rfl | rfl <;> rfl

theorem readStart_countedTest (hsigil : sigil = [] ∨ sigil = ['$']) (hvar : IsPlainWord var)
    (hstop : IsPlainWord stop) :
    countedTest.readStart ([' '] ++ (sigil ++ (var ++ (" < " ++ stop))))
      = some ⟨endOf (some ' ') stop, [],
          [⟨.stop, stop, []⟩, ⟨.comparison, ['<'] ++ ' ' :: stop, ' ' :: stop⟩,
           ⟨.var, var ++ (" < " ++ stop), " < " ++ stop⟩]⟩ := by
  have hword (before : Option Char) (captures : List Capture) :=
    @IsPlainWord.readAt_keep_word var (" < " ++ stop) before captures hvar .var
      (by rintro c ⟨⟩; rfl)
  have hless (before : Option Char) (captures : List Capture) :
      (blanks ++ keep .comparison ("<=" <|> "<")).readAt ⟨before, " < " ++ stop, captures⟩
        = some ⟨some '<', ' ' :: stop,
            ⟨.comparison, ['<'] ++ ' ' :: stop, ' ' :: stop⟩ :: captures⟩ := rfl
  have hpattern (reading : Reading) : countedTest.readAt reading
      = ((blanks ++ maybe '$') ++ (keep .var word ++ ((blanks ++ keep .comparison ("<=" <|> "<"))
          ++ (blanks ++ (keep .stop little1 ++ (blanks ++ textEnd)))))).readAt reading := rfl
  rw [readStart, hpattern]
  exact readAt_append
    (readAt_append (readAt_blanks_sigil (fun _ ↦ isBlank_of_mem_space) hsigil hvar _)
      (readAt_maybe_sigil hsigil hvar _))
    (readAt_append (hword _ _) (readAt_append (hless _ _) (readAt_gap_last hstop)))

theorem readStart_countedUpdate (hsigil : sigil = [] ∨ sigil = ['$']) (hvar : IsPlainWord var) :
    countedUpdate.readStart ([' '] ++ (sigil ++ (var ++ "++")))
      = some ⟨some '+', [], [⟨.var, var ++ "++", "++"⟩]⟩ := by
  have hword (before : Option Char) (captures : List Capture) :=
    @IsPlainWord.readAt_keep_word var "++" before captures hvar .var (by rintro c ⟨⟩; rfl)
  have hplus (before : Option Char) (captures : List Capture) :
      (blanks ++ ("++" <|> "+=" ++ blanks ++ keep .step word)).readAt ⟨before, "++", captures⟩
        = some ⟨some '+', [], captures⟩ := rfl
  have hgap (captures : List Capture) :
      blanks.readAt ⟨some '+', [], captures⟩ = some ⟨some '+', [], captures⟩ := rfl
  have hend (captures : List Capture) :
      textEnd.readAt ⟨some '+', [], captures⟩ = some ⟨some '+', [], captures⟩ := rfl
  have hvaried (before : Option Char) :
      (maybe '$' ++ keep .var word ++ blanks ++ ("++" <|> "+=" ++ blanks ++ keep .step word)).readAt
          ⟨before, sigil ++ (var ++ "++"), []⟩
        = some ⟨some '+', [], [⟨.var, var ++ "++", "++"⟩]⟩ := by
    simp only [readAt_append_assoc]
    exact readAt_append (readAt_maybe_sigil hsigil hvar _) (readAt_append (hword _ _) (hplus _ _))
  exact readAt_append (readAt_append
    (readAt_append (readAt_blanks_sigil (fun _ ↦ isBlank_of_mem_space) hsigil hvar _)
      (readAt_either_left (hvaried _))) (hgap _)) (hend _)

/-- The range of a counted loop is found if the variable that is bound is the one that is tested and
counted. -/
theorem rangeOfCounted_eq {initial name rest : Text} {last : Option Char}
    (hsigil : sigil = [] ∨ sigil = ['$']) (hvar : IsPlainWord var) (hstop : IsPlainWord stop)
    (hinitial : countedStart.readStart initial
      = some ⟨last, [], [⟨.start, start, []⟩, ⟨.var, name ++ rest, rest⟩]⟩) :
    rangeOfCounted initial ([' '] ++ (sigil ++ (var ++ (" < " ++ stop))))
        ([' '] ++ (sigil ++ (var ++ "++")))
      = if name = var then some (.forRange var start stop "1") else none := by
  rw [rangeOfCounted, hinitial, readStart_countedTest hsigil hvar hstop,
    readStart_countedUpdate hsigil hvar]
  by_cases hname : name = var
  · simp [Reading.get, Reading.get?, Capture.text, hname]
  · simp [Reading.get, Reading.get?, Capture.text, hname, Ne.symm hname]

end Counted

/-! ## Declarations -/

/-- Whether a name goes on after a word for a declaration. -/
def ExtendsDeclaration (name : Text) : Prop :=
  ∃ word ∈ declarationWords, ∃ rest, rest ≠ [] ∧ name = word ++ rest

section Declarations

variable {var start w : Text} {before : Option Char} {captures : List Capture}

theorem isPlainWord_of_mem_declarationWords (h : w ∈ declarationWords) : IsPlainWord w := by
  have hall : declarationWords.all isName := by decide
  exact isPlainWord_of_isName (List.all_eq_true.1 hall w h)

theorem readAt_anyOf_append {words : List Text} (hne : words ≠ []) (q : Pattern)
    (reading : Reading) :
    (anyOf (words.map text) ++ q).readAt reading
      = words.findSome? fun w ↦ (text w ++ q).readAt reading := by
  induction words with
  | nil => exact absurd rfl hne
  | cons first words ih =>
    cases words with
    | nil => simp [anyOf]
    | cons second words =>
      have hstep : anyOf ((first :: second :: words).map text)
          = .either (text first) (anyOf ((second :: words).map text)) := rfl
      rw [hstep, readAt_either_append, List.findSome?_cons, ih (List.cons_ne_nil _ _)]
      cases (text first ++ q).readAt reading <;> rfl

/-- A binding behind a declaration is one of the word that goes on after it. -/
theorem readAt_declared {rest : Text} (hrest : IsPlainWord rest) (hstart : IsPlainWord start) :
    (text w ++ countedBinding).readAt ⟨before, w ++ rest ++ (" := " ++ start), captures⟩
      = some ⟨endOf (some ' ') start, [],
          ⟨.start, start, []⟩ :: ⟨.var, rest ++ (" := " ++ start), " := " ++ start⟩
            :: captures⟩ := by
  rw [List.append_assoc, readAt_text_append]
  have hgap : ∀ c ∈ ([] : Text), isBlank c := by simp
  exact readAt_countedBinding hgap (.inl rfl) (.inr rfl) hrest hstart

theorem readAt_declared_eq_none (hw : IsPlainWord w) (hvar : IsPlainWord var)
    (h : ¬∃ rest, rest ≠ [] ∧ var = w ++ rest) :
    (text w ++ countedBinding).readAt ⟨before, var ++ (" := " ++ start), captures⟩ = none := by
  by_cases hstarts : w <+: var ++ (" := " ++ start)
  · have hshort : w <+: var := by
      rcases List.prefix_or_prefix_of_prefix hstarts (List.prefix_append var _) with h | ⟨u, rfl⟩
      · exact h
      · cases u with
        | nil => simp
        | cons c u =>
          have hc : c = ' ' := by
            have := (List.prefix_append_right_inj var).1 hstarts
            exact (List.cons_prefix_cons.1 this).1
          exact absurd (hc ▸ by simp) (hw.notMem (rfl : isNameChar ' ' = false))
    obtain ⟨rest, rfl⟩ := hshort
    obtain rfl : rest = [] := by
      by_contra hne
      exact h ⟨rest, hne, rfl⟩
    rw [List.append_nil, readAt_text_append]
    exact readAt_countedBinding_eq_none (.inr rfl)
  · exact readAt_append_eq_none (readAt_text_eq_none hstarts) _

/-- A declaration with a blank behind it, and the sigil that stands for one. -/
theorem readStart_countedStart {declaration sigil : Text}
    (hdeclaration : declaration = "let " ∧ sigil = [] ∨ declaration = "int " ∧ sigil = []
      ∨ declaration = [] ∧ sigil = ['$'])
    (hvar : IsPlainWord var) (hstart : IsPlainWord start) :
    countedStart.readStart (declaration ++ (sigil ++ (var ++ (" = " ++ start))))
      = some ⟨endOf (some ' ') start, [],
          [⟨.start, start, []⟩, ⟨.var, var ++ (" = " ++ start), " = " ++ start⟩]⟩ := by
  have hlet (t : Text) : (blanks ++ maybe (anyOf (declarationWords.map text))).readAt
      ⟨none, "let" ++ ' ' :: t, []⟩ = some ⟨some 't', ' ' :: t, []⟩ := rfl
  have hint (t : Text) : (blanks ++ maybe (anyOf (declarationWords.map text))).readAt
      ⟨none, "int" ++ ' ' :: t, []⟩ = some ⟨some 't', ' ' :: t, []⟩ := rfl
  have hnone (t : Text) : (blanks ++ maybe (anyOf (declarationWords.map text))).readAt
      ⟨none, '$' :: t, []⟩ = some ⟨none, '$' :: t, []⟩ := rfl
  have hblank (c : Char) (hc : c ∈ ([' '] : Text)) : isBlank c := isBlank_of_mem_space hc
  have hempty (c : Char) (hc : c ∈ ([] : Text)) : isBlank c := absurd hc List.not_mem_nil
  rw [readStart, readAt_countedStart, ← readAt_append_assoc]
  rcases hdeclaration with ⟨rfl, rfl⟩ | ⟨rfl, rfl⟩ | ⟨rfl, rfl⟩
  · exact readAt_append (hlet _)
      (readAt_countedBinding hblank (.inl rfl) (.inl rfl) hvar hstart)
  · exact readAt_append (hint _)
      (readAt_countedBinding hblank (.inl rfl) (.inl rfl) hvar hstart)
  · exact readAt_append (hnone _)
      (readAt_countedBinding hempty (.inr rfl) (.inl rfl) hvar hstart)

/-- Without a declaration the words for one are looked for in the variable. -/
theorem readStart_countedStart_bare (hvar : IsPlainWord var) :
    countedStart.readStart (var ++ (" := " ++ start))
      = (declarationWords.findSome? fun w ↦
          (text w ++ countedBinding).readAt ⟨none, var ++ (" := " ++ start), []⟩).or
        (countedBinding.readAt ⟨none, var ++ (" := " ++ start), []⟩) := by
  have hblanks (c : Char) (hc : c ∈ (var ++ (" := " ++ start)).head?) : isBlank c = false :=
    isBlank_of_isNameChar (hvar.isNameChar_of_mem_head? hc)
  rw [readStart, readAt_countedStart]
  refine (readAt_most_char_append hblanks).trans ?_
  have hwords : declarationWords ≠ [] := List.cons_ne_nil _ _
  rw [readAt_maybe_append, readAt_anyOf_append hwords]

theorem readStart_countedStart_of_not_extends (hvar : IsPlainWord var)
    (hstart : IsPlainWord start) (h : ¬ExtendsDeclaration var) :
    countedStart.readStart (var ++ (" := " ++ start))
      = some ⟨endOf (some ' ') start, [],
          [⟨.start, start, []⟩, ⟨.var, var ++ (" := " ++ start), " := " ++ start⟩]⟩ := by
  have hnone : (declarationWords.findSome? fun w ↦
      (text w ++ countedBinding).readAt ⟨none, var ++ (" := " ++ start), []⟩) = none := by
    refine List.findSome?_eq_none_iff.2 fun w hw ↦ ?_
    exact readAt_declared_eq_none (isPlainWord_of_mem_declarationWords hw) hvar
      fun hrest ↦ h ⟨w, hw, hrest⟩
  rw [readStart_countedStart_bare hvar, hnone, Option.none_or]
  exact readAt_countedBinding (List.forall_mem_nil _) (.inl rfl) (.inr rfl) hvar hstart

/-- A variable that goes on after a word for a declaration loses that word. -/
theorem exists_readStart_countedStart_of_extends (hvar : IsPlainWord var)
    (hstart : IsPlainWord start) (h : ExtendsDeclaration var) :
    ∃ name, name ≠ var ∧ countedStart.readStart (var ++ (" := " ++ start))
      = some ⟨endOf (some ' ') start, [],
          [⟨.start, start, []⟩, ⟨.var, name ++ (" := " ++ start), " := " ++ start⟩]⟩ := by
  obtain ⟨w, hw, rest, hrest, rfl⟩ := h
  have hfound : (declarationWords.findSome? fun w' ↦ (text w' ++ countedBinding).readAt
      ⟨none, w ++ rest ++ (" := " ++ start), []⟩).isSome := by
    have hplain : IsPlainWord rest :=
      ⟨hrest, fun c hc ↦ hvar.chars c (List.mem_append_right w hc)⟩
    exact List.findSome?_isSome_iff.2 ⟨w, hw, by rw [readAt_declared hplain hstart]; rfl⟩
  obtain ⟨reading, hreading⟩ := Option.isSome_iff_exists.1 hfound
  -- The word that is found need not be the one we know of, but it too is cut off.
  obtain ⟨w', hw', hread⟩ := List.exists_of_findSome?_eq_some hreading
  obtain ⟨rest', hrest', hsplit⟩ : ∃ rest', rest' ≠ [] ∧ w ++ rest = w' ++ rest' := by
    by_contra hnot
    rw [readAt_declared_eq_none (isPlainWord_of_mem_declarationWords hw') hvar hnot] at hread
    exact absurd hread nofun
  have hplain' : IsPlainWord rest' :=
    ⟨hrest', fun c hc ↦ hvar.chars c (hsplit ▸ List.mem_append_right w' hc)⟩
  refine ⟨rest', fun heq ↦ ?_, ?_⟩
  · have hlength := congrArg List.length (heq.trans hsplit)
    have hpos := List.length_pos_of_ne_nil (isPlainWord_of_mem_declarationWords hw').ne_nil
    rw [List.length_append] at hlength
    omega
  · rw [readStart_countedStart_bare hvar, hreading, Option.some_or, ← hread, hsplit,
      readAt_declared hplain' hstart]

end Declarations

end Form

end Recast
