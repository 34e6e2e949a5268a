import Recast.Proofs.Construct.Parts
import Recast.Proofs.Pattern.Replace
import Recast.Proofs.Pattern.Search
import Recast.Proofs.Text.Code
import Recast.Proofs.Text.Lines
import Recast.Proofs.Text.Name

/-!
# The bound of a counted loop

A counted loop is read as a range if its parts speak of one variable.  The bound of the range is
then all of the test behind the comparison.  Nothing looks into it: a test that goes on with a
logical operator takes the operator into the bound.
-/

namespace Recast

open Pattern Text

/-! ## Logical operators outside brackets and strings -/

/-- Whether a logical operator starts here. -/
def startsLogical (t : Text) : Bool :=
  startsWith t ['&', '&'] || startsWith t ['|', '|']

/-- Whether a logical operator stands in no bracket and no string, for a scan that has reached
`depth` and stands inside a string opened by `quote?`. -/
def compoundFrom (quotes : Text) : (quote? : Option Char) → (depth : Nat) → Text → Bool
  | _, _, [] => false
  | some quote, depth, c :: rest =>
    if c == '\\' then
      match rest with
      | [] => false
      | _ :: rest => compoundFrom quotes (some quote) depth rest
    else compoundFrom quotes (if c == quote then none else some quote) depth rest
  | none, depth, c :: rest =>
    if quotes.contains c then compoundFrom quotes (some c) depth rest
    else if openers.contains c then compoundFrom quotes none (depth + 1) rest
    else if closers.contains c then compoundFrom quotes none (depth - 1) rest
    else (depth == 0 && startsLogical (c :: rest)) || compoundFrom quotes none depth rest

/-- Whether an expression of the language is joined by a logical operator. -/
def Language.isCompound (language : Language) (t : Text) : Bool :=
  compoundFrom language.profile.markers.quotes none 0 t

/-- Whether the character is no quote, no bracket and no part of a logical operator. -/
def isPlainChar (c : Char) : Bool :=
  !(allQuotes ++ openers ++ closers ++ ['&', '|']).contains c

section Plain

variable {quotes t u : Text} {quote? : Option Char} {depth : Nat} {c : Char}

theorem isPlainChar_iff :
    isPlainChar c ↔ c ∉ allQuotes ∧ c ∉ openers ∧ c ∉ closers ∧ c ≠ '&' ∧ c ≠ '|' := by
  simp [isPlainChar]

theorem startsLogical_append (t : Text) (hu : ∀ c ∈ u.head?, isPlainChar c) :
    startsLogical (t ++ u) = startsLogical t := by
  have hhead {mark : Char} (hmark : mark = '&' ∨ mark = '|') :
      ∀ c ∈ u.head?, c ∉ [mark, mark] := by
    intro c hc hmem
    obtain ⟨-, -, -, hand, hor⟩ := isPlainChar_iff.1 (hu c hc)
    rcases hmark with rfl | rfl <;> simp_all
  unfold startsLogical startsWith
  rw [Markers.isPrefixOf_append_of_head (hhead (.inl rfl)),
    Markers.isPrefixOf_append_of_head (hhead (.inr rfl))]

theorem compoundFrom_none_cons (c : Char) (rest : Text) :
    compoundFrom quotes none depth (c :: rest) =
      if quotes.contains c then compoundFrom quotes (some c) depth rest
      else if openers.contains c then compoundFrom quotes none (depth + 1) rest
      else if closers.contains c then compoundFrom quotes none (depth - 1) rest
      else (depth == 0 && startsLogical (c :: rest)) || compoundFrom quotes none depth rest := by
  rw [compoundFrom]

theorem compoundFrom_some_cons (quote c : Char) (rest : Text) :
    compoundFrom quotes (some quote) depth (c :: rest) =
      if c == '\\' then compoundFrom quotes (some quote) depth (rest.drop 1)
      else compoundFrom quotes (if c == quote then none else some quote) depth rest := by
  cases rest <;> simp [compoundFrom]

/-- In code a plain character changes nothing. -/
theorem compoundFrom_cons_of_isPlainChar (hquotes : quotes ⊆ allQuotes) (hc : isPlainChar c)
    (t : Text) :
    compoundFrom quotes none depth (c :: t) = compoundFrom quotes none depth t := by
  obtain ⟨hquote, hopener, hcloser, -, -⟩ := isPlainChar_iff.1 hc
  have hlogical : startsLogical (c :: t) = false := startsLogical_append [] (u := c :: t) (by simpa)
  have hnot : c ∉ quotes := fun hmem ↦ hquote (hquotes hmem)
  simp [compoundFrom_none_cons, hnot, hopener, hcloser, hlogical]

theorem compoundFrom_append_left (hquotes : quotes ⊆ allQuotes) (hu : ∀ c ∈ u, isPlainChar c)
    (t : Text) : compoundFrom quotes none depth (u ++ t) = compoundFrom quotes none depth t := by
  induction u with
  | nil => rfl
  | cons c u ih =>
    obtain ⟨hc, hu⟩ := List.forall_mem_cons.1 hu
    rw [List.cons_append, compoundFrom_cons_of_isPlainChar hquotes hc, ih hu]

/-- Plain characters make up no logical operator, in code or in a string. -/
theorem compoundFrom_eq_false (hu : ∀ c ∈ u, isPlainChar c) :
    compoundFrom quotes quote? depth u = false := by
  fun_induction compoundFrom quotes quote? depth u with
  | case1 | case2 => rfl
  | case3 quote depth c hc d rest ih =>
    exact ih fun e he ↦ hu e (List.mem_cons_of_mem c (List.mem_cons_of_mem d he))
  | case4 quote depth c rest hc ih => exact ih fun e he ↦ hu e (List.mem_cons_of_mem c he)
  | case5 depth c rest hquote ih | case6 depth c rest hquote hopener ih
  | case7 depth c rest hquote hopener hcloser ih =>
    exact ih fun e he ↦ hu e (List.mem_cons_of_mem c he)
  | case8 depth c rest hquote hopener hcloser ih =>
    have hlogical : startsLogical (c :: rest) = false :=
      startsLogical_append [] (u := c :: rest) (by simpa using hu c List.mem_cons_self)
    rw [hlogical, ih fun e he ↦ hu e (List.mem_cons_of_mem c he)]
    simp

theorem compoundFrom_append_right (hu : ∀ c ∈ u, isPlainChar c) (t : Text) :
    compoundFrom quotes quote? depth (t ++ u) = compoundFrom quotes quote? depth t := by
  fun_induction compoundFrom quotes quote? depth t with
  | case1 => exact compoundFrom_eq_false hu
  | case2 quote depth c hc =>
    -- The backslash hides the first of the plain characters.
    rw [List.cons_append, compoundFrom_some_cons, if_pos hc]
    exact compoundFrom_eq_false fun d hd ↦ hu d (List.mem_of_mem_drop hd)
  | case3 quote depth c hc d rest ih =>
    rw [List.cons_append, compoundFrom_some_cons, if_pos hc]
    exact ih
  | case4 quote depth c rest hc ih => rw [List.cons_append, compoundFrom_some_cons, if_neg hc, ih]
  | case5 depth c rest hquote ih => rw [List.cons_append, compoundFrom_none_cons, if_pos hquote, ih]
  | case6 depth c rest hquote hopener ih =>
    rw [List.cons_append, compoundFrom_none_cons, if_neg hquote, if_pos hopener, ih]
  | case7 depth c rest hquote hopener hcloser ih =>
    rw [List.cons_append, compoundFrom_none_cons, if_neg hquote, if_neg hopener, if_pos hcloser, ih]
  | case8 depth c rest hquote hopener hcloser ih =>
    have hlogical : startsLogical (c :: rest ++ u) = startsLogical (c :: rest) :=
      startsLogical_append (c :: rest) fun d hd ↦ hu d (List.mem_of_head? hd)
    rw [List.cons_append] at hlogical ⊢
    rw [compoundFrom_none_cons, if_neg hquote, if_neg hopener, if_neg hcloser, hlogical, ih]

/-- A class of characters that has no mark in it is plain. -/
theorem isPlainChar_of_accepts {accepts : Char → Bool}
    (haccepts : ∀ d ∈ allQuotes ++ openers ++ closers ++ ['&', '|'], accepts d = false)
    (hc : accepts c) : isPlainChar c := by
  by_contra hnot
  have hmem : c ∈ allQuotes ++ openers ++ closers ++ ['&', '|'] := by
    rw [isPlainChar, Bool.not_eq_true', Bool.not_eq_false, List.contains_iff_mem] at hnot
    exact hnot
  simp [haccepts c hmem] at hc

theorem isPlainChar_of_isWord (hc : isWord c) : isPlainChar c := by
  refine isPlainChar_of_accepts (fun d hd ↦ ?_) hc
  simp only [allQuotes, openers, closers, List.cons_append, List.nil_append, List.mem_cons,
    List.not_mem_nil, or_false] at hd
  rcases hd with rfl | rfl | rfl | rfl | rfl | rfl | rfl | rfl | rfl | rfl | rfl <;> rfl

theorem isPlainChar_of_isBlank (hc : isBlank c) : isPlainChar c := by
  refine isPlainChar_of_accepts (fun d hd ↦ ?_) hc
  simp only [allQuotes, openers, closers, List.cons_append, List.nil_append, List.mem_cons,
    List.not_mem_nil, or_false] at hd
  rcases hd with rfl | rfl | rfl | rfl | rfl | rfl | rfl | rfl | rfl | rfl | rfl <;> rfl

theorem Language.quotes_subset (language : Language) :
    language.profile.markers.quotes ⊆ allQuotes := by
  cases language <;> decide

end Plain

/-! ## The test of a counted loop -/

section Test

variable {line test u : Text} {reading : Reading}

/-- The test of a counted loop is what stands between its semicolons. -/
theorem splitOn_of_readStart_counted {lead update closing gap ending : Pattern} {chars : Text}
    (hlead : lead.OnlyReads (· ≠ ';')) (hchars : ';' ∈ chars)
    (hupdate : update.avoids .test) (hclosing : closing.avoids .test) (hgap : gap.avoids .test)
    (hending : ending.avoids .test)
    (h : (lead ++ ';' ++ keep .test (Grammar.without chars) ++ ';' ++ update ++ closing ++ gap
      ++ ending).readStart line = some reading) :
    (splitOn ';' line)[1]? = some (reading.get .test) := by
  obtain ⟨gapped, hgapped, hget₁, -⟩ := exists_of_mem_append hending (mem_outcomes_of_readStart h)
  obtain ⟨closed, hclosed, hget₂, -⟩ := exists_of_mem_append hgap hgapped
  obtain ⟨updated, hupdated, hget₃, -⟩ := exists_of_mem_append hclosing hclosed
  obtain ⟨marked, hmarked, hget₄, -⟩ := exists_of_mem_append hupdate hupdated
  have hfixed : (Pattern.char (· == ';')).avoids .test := rfl
  obtain ⟨tested, htested, hget₅, mark, hmark, hmarkIs⟩ := exists_of_mem_append hfixed hmarked
  obtain ⟨led, hled, hkept⟩ := List.mem_flatMap.1 htested
  obtain ⟨test, htest, hdescribes, hget⟩ := exists_of_mem_keep hkept
  obtain ⟨_, hline, initial, semicolon, rfl, hinitial, hsemicolon⟩ := exists_describes hled
  obtain rfl := describes_mark.1 hmarkIs
  obtain rfl := describes_mark.1 hsemicolon
  have hfree : ';' ∉ test := fun hmem ↦ by
    have haccepts := describes_most_char.1 hdescribes ';' hmem
    simp [noneOf, hchars] at haccepts
  have hline : line = initial ++ ';' :: (test ++ ';' :: marked.rest) := by
    simpa [Reading.start, htest, hmark] using hline
  have hfirst : ';' ∉ initial := fun hmem ↦ hlead.of_describes hinitial ';' hmem rfl
  rw [hline, splitOn_append_cons hfirst, splitOn_append_cons hfree,
    Reading.get, hget₁, hget₂, hget₃, hget₄, hget₅, hget]
  rfl

/-- The bound in a test stands behind plain characters and before blanks. -/
theorem exists_stop_of_readStart (h : Form.countedTest.readStart test = some reading) :
    ∃ before after, test = before ++ reading.get .stop ++ after
      ∧ (∀ c ∈ before, isPlainChar c) ∧ ∀ c ∈ after, isPlainChar c := by
  have hended : textEnd.avoids .stop := rfl
  have hblanks : blanks.avoids .stop := rfl
  obtain ⟨blank, hblank, hafter⟩ := List.mem_flatMap.1 (mem_outcomes_of_readStart h)
  obtain ⟨stopped, hstopped, hget, gap, hgap, hgapIs⟩ := exists_of_mem_append hblanks hblank
  obtain ⟨led, hled, hkept⟩ := List.mem_flatMap.1 hstopped
  obtain ⟨stop, hstop, -, hkeeps⟩ := exists_of_mem_keep hkept
  obtain ⟨before, htest, hbefore⟩ := exists_describes hled
  have hblank (c : Char) (hc : isBlank c) : isPlainChar c := isPlainChar_of_isBlank hc
  have hword (c : Char) (hc : isWord c) : isPlainChar c := isPlainChar_of_isWord hc
  have hplain : ∀ c ∈ before, isPlainChar c := by
    refine OnlyReads.of_describes ?_ hbefore
    exact ⟨⟨⟨⟨⟨hblank, onlyReads_mark rfl, trivial⟩, hword, hword⟩, hblank⟩,
      onlyReads_text (List.all_eq_true.1 (by decide)),
      onlyReads_text (List.all_eq_true.1 (by decide))⟩, hblank⟩
  refine ⟨before, gap ++ blank.rest, ?_, hplain, List.forall_mem_append.2 ⟨?_, ?_⟩⟩
  · rw [Reading.get, get?_eq_of_avoids hended hafter, hget, hkeeps]
    simpa [Reading.start, hstop, hgap] using htest
  · exact fun c hc ↦ hblank c (describes_most_char.1 hgapIs c hc)
  · exact fun c hc ↦ hblank c (isBlank_of_mem_outcomes_textEnd hafter hc)

/-- A bound holds a logical operator outside brackets and strings if the test does. -/
theorem isCompound_stop (language : Language)
    (h : Form.countedTest.readStart test = some reading) :
    language.isCompound (reading.get .stop) = language.isCompound test := by
  obtain ⟨before, after, htest, hbefore, hafter⟩ := exists_stop_of_readStart h
  rw [htest, List.append_assoc]
  unfold Language.isCompound
  rw [compoundFrom_append_left language.quotes_subset hbefore, compoundFrom_append_right hafter]

end Test

/-! ## Counted loops that are read as ranges -/

/-- The pattern of a recognizer of counted loops. -/
def Recognizer.counted? : Recognizer → Option Pattern
  | .line .forCounted pattern => some pattern
  | _ => none

section Ranges

variable {source : Language} {pattern : Pattern} {line : Text}

/-- Every pattern of a counted loop takes the test from between the semicolons of the line. -/
theorem Language.splitOn_of_readStart {reading : Reading}
    (hmem : .line .forCounted pattern ∈ source.recognizers .loops)
    (h : pattern.readStart line = some reading) :
    (splitOn ';' line)[1]? = some (reading.get .test) := by
  have hpattern : pattern ∈ (source.recognizers .loops).filterMap Recognizer.counted? :=
    List.mem_filterMap.2 ⟨_, hmem, rfl⟩
  have hblank (c : Char) (hc : isBlank c) : c ≠ ';' := by
    rintro rfl
    exact absurd hc (by decide)
  have hletters : (text "for").OnlyReads (· ≠ ';') :=
    onlyReads_text fun c hc heq ↦ absurd (heq ▸ hc) (by decide)
  have hother {chars : Text} (hchars : ';' ∈ chars) (c : Char) (hc : noneOf chars c) : c ≠ ';' :=
    fun heq ↦ by simp [noneOf, heq, hchars] at hc
  cases source
  case python | ruby | rust => exact absurd hpattern List.not_mem_nil
  case go =>
    obtain rfl := List.mem_singleton.1 hpattern
    refine splitOn_of_readStart_counted ?_ (by simp) rfl rfl rfl rfl h
    exact ⟨⟨⟨hblank, hletters⟩, hblank, hblank⟩, hother (by simp)⟩
  all_goals
    obtain rfl := List.mem_singleton.1 hpattern
    refine splitOn_of_readStart_counted ?_ (by simp) rfl rfl rfl rfl h
    exact ⟨⟨⟨⟨hblank, hletters⟩, hblank⟩, onlyReads_mark (by decide)⟩, hother (by simp)⟩

/-- The bound of a counted loop holds a logical operator outside brackets and strings if and only if
the test of the loop does. -/
theorem range_bound_isCompound_iff {construct : Construct} {var start stop step : Text}
    (hmem : .line .forCounted pattern ∈ source.recognizers .loops)
    (hrecognized : (Recognizer.line .forCounted pattern).recognize source line
      = .ok (some construct))
    (hform : construct.form = .forRange var start stop step) :
    ∃ test, (splitOn ';' line)[1]? = some test
      ∧ (source.isCompound stop ↔ source.isCompound test) := by
  cases hread : pattern.readStart line with
  | none => simp [Recognizer.recognize, hread] at hrecognized
  | some reading =>
    have hcounted : (Recognizer.line .forCounted pattern).recognize source line
        = .ok (some ⟨(Form.rangeOfCounted (reading.get .initial) (reading.get .test)
          (reading.get .update)).getD (.forCounted (trim (reading.get .initial))
          (trim (reading.get .test)) (trim (reading.get .update))),
          reading.get .indent, reading.has .closes, none⟩) := by
      simp only [Recognizer.recognize, hread]
      rfl
    obtain rfl := Option.some.inj (Except.ok.inj (hcounted.symm.trans hrecognized))
    refine ⟨_, Language.splitOn_of_readStart hmem hread, ?_⟩
    cases hrange : Form.rangeOfCounted (reading.get .initial) (reading.get .test)
      (reading.get .update) with
    | none => simp [hrange] at hform
    | some form =>
      simp only [hrange, Option.getD_some] at hform
      simp only [Form.rangeOfCounted, Option.bind_eq_bind, Option.bind_eq_some_iff] at hrange
      obtain ⟨first, -, bound, hbound, advance, -, -, -, -, -, hrange⟩ := hrange
      obtain rfl := Option.some.inj hrange
      obtain ⟨-, -, rfl, -⟩ := Form.forRange.inj hform
      rw [← isCompound_stop source hbound]
      split
      · unfold Language.isCompound
        rw [compoundFrom_append_right (List.all_eq_true.1 (by decide))]
      · rfl

/-- An operator in brackets belongs to the bound, which is not compound, and neither is the test. -/
theorem range_bound_isCompound_iff_brackets :
    ∃ pattern construct, .line .forCounted pattern ∈ Language.java.recognizers .loops
      ∧ (Recognizer.line .forCounted pattern).recognize .java
        ("for (int i = 0; i < pick(a || b); i++) " ++ ['{']) = .ok (some construct)
      ∧ construct.form = .forRange "i" "0" "pick(a || b)" "1"
      ∧ Language.java.isCompound "pick(a || b)" = false
      ∧ ∃ test, (splitOn ';' ("for (int i = 0; i < pick(a || b); i++) " ++ ['{']))[1]? = some test
        ∧ Language.java.isCompound test = false := by
  have hmem : Grammar.curlyFor.2 ∈ Language.java.recognizers .loops := List.mem_cons_self
  have hrecognized : Grammar.curlyFor.2.recognize .java
      ("for (int i = 0; i < pick(a || b); i++) " ++ ['{'])
      = .ok (some ⟨.forRange "i" "0" "pick(a || b)" "1", [], false, none⟩) := by
    decide +kernel
  have hbound : Language.java.isCompound "pick(a || b)" = false := by decide
  obtain ⟨test, htest, hcompound⟩ := range_bound_isCompound_iff hmem hrecognized rfl
  refine ⟨_, _, hmem, hrecognized, rfl, hbound, test, htest, ?_⟩
  rw [← Bool.not_eq_true, ← hcompound, hbound]
  exact Bool.false_ne_true

/-- A second condition of the test is taken into the bound. -/
theorem range_bound_takes_second_condition :
    ∃ pattern construct, .line .forCounted pattern ∈ Language.javascript.recognizers .loops
      ∧ (Recognizer.line .forCounted pattern).recognize .javascript
        ("for (let i = 0; i < n && ok; i++) " ++ ['{']) = .ok (some construct)
      ∧ construct.form = .forRange "i" "0" "n && ok" "1"
      ∧ Language.javascript.isCompound "n && ok" := by
  have hrecognized : Grammar.curlyFor.2.recognize .javascript
      ("for (let i = 0; i < n && ok; i++) " ++ ['{'])
      = .ok (some ⟨.forRange "i" "0" "n && ok" "1", [], false, none⟩) := by
    decide +kernel
  exact ⟨_, _, List.mem_cons_self, hrecognized, rfl, by decide⟩

end Ranges

end Recast
