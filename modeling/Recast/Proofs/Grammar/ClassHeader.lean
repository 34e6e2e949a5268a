import Recast.Proofs.Grammar.FunctionHeader

/-!
# Reading the header of a class

For each language, the header of a class in the wording of that language is taken apart by the
first recognizer for classes.  A clause for the base is there or is left out as a whole.
-/

namespace Recast

open Pattern Text

section Classes

variable {name base line rest t : Text} {language : Language} {before : Option Char}
  {captures : List Capture}

theorem baseClass_of_isName (hbase : isName base) (hobject : base ≠ "object")
    (hmeta : base ≠ "metaclass") : Form.baseClass base = some base := by
  have hsplit : splitTopLevel ',' (joinWith ", " [base]) = [base] := by
    apply splitTopLevel_joinWith
    intro piece hpiece
    rw [List.mem_singleton.1 hpiece]
    exact ⟨isLevel_of_isName hbase, ne_nil_of_isName hbase, Emission.trim_typedParam hbase .python⟩
  rw [joinWith, List.intercalate_singleton] at hsplit
  rw [Form.baseClass, hsplit]
  apply List.find?_cons_of_pos
  rw [Bool.and_eq_true, Bool.and_eq_true]
  exact ⟨⟨by simp [ne_nil_of_isName hbase], bne_iff_ne.2 hobject⟩, bne_iff_ne.2 hmeta⟩

theorem readAt_class_name {lead : Pattern} (hname : isName name)
    (hlead : lead.readAt ⟨none, line, []⟩
      = some ⟨before, ' ' :: (name ++ rest), [⟨.indent, line, line⟩]⟩)
    (hrest : ∀ c ∈ rest.head?, isWord c = false) :
    (lead ++ blanks1 ++ keep .name word).readAt ⟨none, line, []⟩
      = some ⟨endOf (some ' ') name, rest,
          [⟨.name, name ++ rest, rest⟩, ⟨.indent, line, line⟩]⟩ :=
  readAt_append (readAt_append hlead (readAt_blanks1_name hname))
    (readAt_keep (readAt_word hname hrest))

/-- What is kept of the base of a class. -/
def baseCaptures (base? : Option Text) (t : Text) : List Capture :=
  (base?.map fun base ↦ ⟨.base, base ++ t, t⟩).toList

/-- A header of a class whose name has been read. -/
theorem recognizes_class {pattern head tail : Pattern} {others : List Recognizer}
    {base? : Option Text}
    (hgrammar : language.recognizers .classes = .line .classDef pattern :: others)
    (hhead : head.readAt ⟨none, line, []⟩
      = some ⟨before, rest, [⟨.name, name ++ rest, rest⟩, ⟨.indent, line, line⟩]⟩)
    (htail : ∀ before captures, ∃ after, tail.readAt ⟨before, rest, captures⟩
      = some ⟨after, [], baseCaptures base? t ++ captures⟩)
    (hbase : ∀ base ∈ base?, Form.baseClass base = some base)
    (hpattern : ∀ reading, pattern.readAt reading = (head ++ tail).readAt reading) :
    Recognizes language .classes line (.classDef name base?) := by
  obtain ⟨after, htail⟩ := htail before [⟨.name, name ++ rest, rest⟩, ⟨.indent, line, line⟩]
  refine recognizes_of_readStart hgrammar ((hpattern _).trans (readAt_append hhead htail)) ?_
  cases base? with
  | none =>
    simp [Form.ofReading, Reading.require, Reading.get, Reading.get?, baseCaptures, bind,
      Except.bind, pure, Except.pure]
    rfl
  | some base =>
    simp [Form.ofReading, Reading.require, Reading.get, Reading.get?, baseCaptures, bind,
      Except.bind, pure, Except.pure, hbase base rfl]

/-- A base that a clause names after what introduces it. -/
theorem readAt_base {introduction : Pattern} {reading : Reading} (hbase : isName base)
    (extra : Text) (ht : ∀ c ∈ t.head?, wordOr extra c = false)
    (hintroduction : introduction.readAt reading = some ⟨before, base ++ t, captures⟩) :
    (introduction ++ keep .base (Grammar.wordsOr extra)).readAt reading
      = some ⟨endOf before base, t, ⟨.base, base ++ t, t⟩ :: captures⟩ :=
  readAt_append hintroduction (readAt_keep (readAt_wordsOr hbase extra ht))

theorem recognizes_python_class {base? : Option Text} (hname : isName name)
    (hbase : ∀ base ∈ base?, isName base)
    (hkept : ∀ base ∈ base?, Form.baseClass base = some base)
    (hline : line = "class " ++ (name ++ (around "(" base? ")" ++ ":"))) :
    Recognizes .python .classes line (.classDef name base?) := by
  have hmark : ∀ c ∈ (around "(" base? ")" ++ ":").head?, isWord c = false := by
    cases base? <;> (rintro c ⟨⟩; rfl)
  have hlead : (Grammar.indent ++ "class").readAt ⟨none, line, []⟩
      = some ⟨some 's', ' ' :: (name ++ (around "(" base? ")" ++ ":")),
          [⟨.indent, line, line⟩]⟩ := by
    generalize around "(" base? ")" ++ ":" = rest at hline
    subst hline
    cbv
  have htail (before : Option Char) (captures : List Capture) : ∃ after,
      (blanks ++ (maybe ('(' ++ keep .base (Grammar.without ")") ++ ')')
        ++ Grammar.colonOpen)).readAt ⟨before, around "(" base? ")" ++ ":", captures⟩
        = some ⟨after, [], baseCaptures base? (')' :: ":") ++ captures⟩ := by
    refine ⟨some ':', ?_⟩
    cases base? with
    | none => rfl
    | some base =>
      have hclause : (maybe ('(' ++ keep .base (Grammar.without ")") ++ ')')).readAt
            ⟨before, '(' :: (base ++ ')' :: ":"), captures⟩
          = some ⟨some ')', ":", ⟨.base, base ++ ')' :: ":", ')' :: ":"⟩ :: captures⟩ := by
        refine readAt_maybe (readAt_keep_most_mark (fun c hc ↦ ?_) (by decide) rfl)
        have hc := ne_of_isNameChar (isNameChar_of_mem (hbase base rfl) hc)
          (rfl : isNameChar ')' = false)
        simp [noneOf, hc]
      rw [around, List.append_assoc, List.append_assoc]
      exact readAt_append rfl (readAt_append hclause rfl)
  refine recognizes_class rfl (readAt_class_name hname hlead hmark) htail hkept fun reading ↦ ?_
  simp only [readAt_append_assoc]

/-- A clause for the base that is left out where there is no base. -/
theorem readAt_maybe_base {clause tail : Pattern} {opening : Text} {base? : Option Text}
    (hbase : ∀ base ∈ base?, isName base)
    (hnone : ∀ before captures, clause.readAt ⟨before, t, captures⟩ = none)
    (hclause : ∀ base, isName base → ∀ before captures, ∃ after,
      clause.readAt ⟨before, opening ++ (base ++ t), captures⟩
        = some ⟨after, t, ⟨.base, base ++ t, t⟩ :: captures⟩)
    (htail : ∀ before captures, ∃ after,
      tail.readAt ⟨before, t, captures⟩ = some ⟨after, [], captures⟩)
    (before : Option Char) (captures : List Capture) : ∃ after,
    (maybe clause ++ tail).readAt ⟨before, around opening base? [] ++ t, captures⟩
      = some ⟨after, [], baseCaptures base? t ++ captures⟩ := by
  cases base? with
  | none =>
    obtain ⟨after, htail⟩ := htail before captures
    exact ⟨after, readAt_append (readAt_maybe_of_none (hnone before captures)) htail⟩
  | some base =>
    obtain ⟨middle, hclause⟩ := hclause base (hbase base rfl) before captures
    obtain ⟨after, htail⟩ := htail middle (⟨.base, base ++ t, t⟩ :: captures)
    rw [around, List.append_nil, List.append_assoc]
    exact ⟨after, readAt_append (readAt_maybe hclause) htail⟩

theorem readAt_extends (hbase : isName base) (extra : Text) (hextra : wordOr extra ' ' = false)
    (before : Option Char) (captures : List Capture) :
    (blanks1 ++ "extends" ++ blanks1 ++ keep .base (Grammar.wordsOr extra)).readAt
        ⟨before, " extends " ++ (base ++ [' ', '{']), captures⟩
      = some ⟨endOf (some ' ') base, [' ', '{'],
          ⟨.base, base ++ [' ', '{'], [' ', '{']⟩ :: captures⟩ := by
  have hextends : (blanks1 ++ "extends").readAt
        ⟨before, " extends " ++ (base ++ [' ', '{']), captures⟩
      = some ⟨some 's', ' ' :: (base ++ [' ', '{']), captures⟩ := by
    cbv
  exact readAt_base hbase extra (by rintro c ⟨⟩; exact hextra)
    (readAt_append hextends (readAt_blanks1_name hbase))

/-- A header with `extends` in a language whose names may have type arguments. -/
theorem recognizes_extends {lead : Pattern} {pattern : Pattern} {others : List Recognizer}
    {base? : Option Text}
    (hgrammar : language.recognizers .classes = .line .classDef pattern :: others)
    (hname : isName name) (hbase : ∀ base ∈ base?, isName base)
    (hkept : ∀ base ∈ base?, Form.baseClass base = some base)
    (hlead : lead.readAt ⟨none, line, []⟩
      = some ⟨before, ' ' :: (name ++ (around " extends " base? [] ++ [' ', '{'])),
          [⟨.indent, line, line⟩]⟩)
    (hpattern : pattern = lead ++ blanks1 ++ keep .name word ++ maybe Grammar.typeArgs
      ++ maybe (blanks1 ++ "extends" ++ blanks1 ++ keep .base (Grammar.wordsOr ".")
        ++ maybe Grammar.typeArgs)
      ++ maybe (blanks1 ++ "implements" ++ blanks1
        ++ most1 (.char fun c ↦ wordOr ".,<>" c || isBlank c))
      ++ blanks ++ Grammar.brace?) :
    Recognizes language .classes line (.classDef name base?) := by
  have hmark : ∀ c ∈ (around " extends " base? [] ++ [' ', '{']).head?, isWord c = false := by
    cases base? <;> (rintro c ⟨⟩; rfl)
  have hargs (before : Option Char) (captures : List Capture) :
      (maybe Grammar.typeArgs).readAt
          ⟨before, around " extends " base? [] ++ [' ', '{'], captures⟩
        = some ⟨before, around " extends " base? [] ++ [' ', '{'], captures⟩ := by
    cases base? <;> rfl
  have hhead := readAt_append (readAt_class_name hname hlead hmark) (hargs _ _)
  have hclause (base : Text) (hbase : isName base) (before : Option Char)
      (captures : List Capture) : ∃ after,
      (blanks1 ++ "extends" ++ blanks1 ++ keep .base (Grammar.wordsOr ".")
        ++ maybe Grammar.typeArgs).readAt
          ⟨before, " extends " ++ (base ++ [' ', '{']), captures⟩
        = some ⟨after, [' ', '{'], ⟨.base, base ++ [' ', '{'], [' ', '{']⟩ :: captures⟩ :=
    ⟨_, readAt_append (readAt_extends hbase "." rfl before captures) rfl⟩
  have hrest (before : Option Char) (captures : List Capture) : ∃ after,
      (maybe (blanks1 ++ "implements" ++ blanks1
          ++ most1 (.char fun c ↦ wordOr ".,<>" c || isBlank c))
        ++ (blanks ++ Grammar.brace?)).readAt ⟨before, [' ', '{'], captures⟩
        = some ⟨after, [], captures⟩ :=
    ⟨some '{', rfl⟩
  have htail := readAt_maybe_base hbase (fun _ _ ↦ rfl) hclause hrest
  refine recognizes_class hgrammar hhead htail hkept fun reading ↦ ?_
  rw [hpattern]
  simp only [readAt_append_assoc]

theorem recognizes_script_class {base? : Option Text} (hscript : language.grammar = Grammar.script)
    (hname : isName name) (hbase : ∀ base ∈ base?, isName base)
    (hkept : ∀ base ∈ base?, Form.baseClass base = some base)
    (hline : line = "class " ++ (name ++ (around " extends " base? [] ++ [' ', '{']))) :
    Recognizes language .classes line (.classDef name base?) := by
  have hlead : (Grammar.indent ++ maybe (Grammar.modifier ["export"])
        ++ maybe (Grammar.modifier ["default"]) ++ maybe (Grammar.modifier ["abstract"])
        ++ "class").readAt ⟨none, line, []⟩
      = some ⟨some 's', ' ' :: (name ++ (around " extends " base? [] ++ [' ', '{'])),
          [⟨.indent, line, line⟩]⟩ := by
    generalize around " extends " base? [] ++ [' ', '{'] = rest at hline
    subst hline
    cbv
  have hgrammar : language.recognizers .classes = Grammar.script.recognizers .classes := by
    rw [Language.recognizers, hscript]
  exact recognizes_extends hgrammar hname hbase hkept hlead rfl

theorem recognizes_java_class {base? : Option Text} (hname : isName name)
    (hbase : ∀ base ∈ base?, isName base)
    (hkept : ∀ base ∈ base?, Form.baseClass base = some base)
    (hline : line = "public class " ++ (name ++ (around " extends " base? [] ++ [' ', '{']))) :
    Recognizes .java .classes line (.classDef name base?) := by
  have hlead : (Grammar.indent
        ++ most (Grammar.modifier
          ["public", "private", "protected", "abstract", "final", "static"])
        ++ "class").readAt ⟨none, line, []⟩
      = some ⟨some 's', ' ' :: (name ++ (around " extends " base? [] ++ [' ', '{'])),
          [⟨.indent, line, line⟩]⟩ := by
    generalize around " extends " base? [] ++ [' ', '{'] = rest at hline
    subst hline
    cbv
  exact recognizes_extends rfl hname hbase hkept hlead rfl

theorem recognizes_php_class {base? : Option Text} (hname : isName name)
    (hbase : ∀ base ∈ base?, isName base)
    (hkept : ∀ base ∈ base?, Form.baseClass base = some base)
    (hline : line = "class " ++ (name ++ (around " extends " base? [] ++ [' ', '{']))) :
    Recognizes .php .classes line (.classDef name base?) := by
  have hmark : ∀ c ∈ (around " extends " base? [] ++ [' ', '{']).head?, isWord c = false := by
    cases base? <;> (rintro c ⟨⟩; rfl)
  have hlead : (Grammar.indent ++ maybe (Grammar.modifier ["abstract", "final"])
        ++ "class").readAt ⟨none, line, []⟩
      = some ⟨some 's', ' ' :: (name ++ (around " extends " base? [] ++ [' ', '{'])),
          [⟨.indent, line, line⟩]⟩ := by
    generalize around " extends " base? [] ++ [' ', '{'] = rest at hline
    subst hline
    cbv
  have hrest (before : Option Char) (captures : List Capture) : ∃ after,
      (maybe (blanks1 ++ "implements" ++ blanks1
          ++ most1 (.char fun c ↦ wordOr "\\," c || isBlank c))
        ++ (blanks ++ Grammar.brace?)).readAt ⟨before, [' ', '{'], captures⟩
        = some ⟨after, [], captures⟩ :=
    ⟨some '{', rfl⟩
  have htail := readAt_maybe_base hbase (fun _ _ ↦ rfl)
    (fun base hbase before captures ↦ ⟨_, readAt_extends hbase "\\" rfl before captures⟩) hrest
  refine recognizes_class rfl (readAt_class_name hname hlead hmark) htail hkept fun reading ↦ ?_
  simp only [readAt_append_assoc]

theorem recognizes_cpp_class {base? : Option Text} (hname : isName name)
    (hbase : ∀ base ∈ base?, isName base)
    (hkept : ∀ base ∈ base?, Form.baseClass base = some base)
    (hline : line = "class " ++ (name ++ (around " : public " base? [] ++ [' ', '{']))) :
    Recognizes .cpp .classes line (.classDef name base?) := by
  have hmark : ∀ c ∈ (around " : public " base? [] ++ [' ', '{']).head?, isWord c = false := by
    cases base? <;> (rintro c ⟨⟩; rfl)
  have hlead : (Grammar.indent ++ anyOf ["class", "struct"]).readAt ⟨none, line, []⟩
      = some ⟨some 's', ' ' :: (name ++ (around " : public " base? [] ++ [' ', '{'])),
          [⟨.indent, line, line⟩]⟩ := by
    generalize around " : public " base? [] ++ [' ', '{'] = rest at hline
    subst hline
    cbv
  have hclause (base : Text) (hbase : isName base) (before : Option Char)
      (captures : List Capture) : ∃ after,
      (blanks ++ ':' ++ blanks ++ maybe (anyOf ["public", "protected", "private"]) ++ blanks
        ++ keep .base (Grammar.wordsOr ":")).readAt
          ⟨before, " : public " ++ (base ++ [' ', '{']), captures⟩
        = some ⟨after, [' ', '{'], ⟨.base, base ++ [' ', '{'], [' ', '{']⟩ :: captures⟩ := by
    have haccess : (blanks ++ ':' ++ blanks
          ++ maybe (anyOf ["public", "protected", "private"])).readAt
          ⟨before, " : public " ++ (base ++ [' ', '{']), captures⟩
        = some ⟨some 'c', [' '] ++ (base ++ [' ', '{']), captures⟩ := by
      cbv
    exact ⟨_, readAt_base hbase ":" (by rintro c ⟨⟩; rfl)
      (readAt_append haccess (readAt_blanks_name hbase fun _ ↦ isBlank_of_mem_space))⟩
  have htail := readAt_maybe_base hbase (fun _ _ ↦ rfl) hclause
    (fun _ _ ↦ ⟨some '{', (rfl : (blanks ++ Grammar.brace?).readAt _ = _)⟩)
  refine recognizes_class rfl (readAt_class_name hname hlead hmark) htail hkept fun reading ↦ ?_
  simp only [readAt_append_assoc]

theorem recognizes_csharp_class {base? : Option Text} (hname : isName name)
    (hbase : ∀ base ∈ base?, isName base)
    (hkept : ∀ base ∈ base?, Form.baseClass base = some base)
    (hline : line = "public class " ++ (name ++ (around " : " base? [] ++ [' ', '{']))) :
    Recognizes .csharp .classes line (.classDef name base?) := by
  have hmark : ∀ c ∈ (around " : " base? [] ++ [' ', '{']).head?, isWord c = false := by
    cases base? <;> (rintro c ⟨⟩; rfl)
  have hlead : (Grammar.indent
        ++ most (Grammar.modifier
          ["public", "private", "protected", "internal", "abstract", "sealed", "static",
           "partial"])
        ++ "class").readAt ⟨none, line, []⟩
      = some ⟨some 's', ' ' :: (name ++ (around " : " base? [] ++ [' ', '{'])),
          [⟨.indent, line, line⟩]⟩ := by
    generalize around " : " base? [] ++ [' ', '{'] = rest at hline
    subst hline
    cbv
  have hargs (before : Option Char) (captures : List Capture) :
      (maybe Grammar.typeArgs).readAt ⟨before, around " : " base? [] ++ [' ', '{'], captures⟩
        = some ⟨before, around " : " base? [] ++ [' ', '{'], captures⟩ := by
    cases base? <;> rfl
  have hclause (base : Text) (hbase : isName base) (before : Option Char)
      (captures : List Capture) : ∃ after,
      (blanks ++ ':' ++ blanks ++ keep .base (Grammar.wordsOr ".") ++ maybe Grammar.typeArgs
        ++ most (blanks ++ ',' ++ blanks ++ Grammar.wordsOr ".<>")).readAt
          ⟨before, " : " ++ (base ++ [' ', '{']), captures⟩
        = some ⟨after, [' ', '{'], ⟨.base, base ++ [' ', '{'], [' ', '{']⟩ :: captures⟩ := by
    have hcolon : (blanks ++ ':').readAt ⟨before, " : " ++ (base ++ [' ', '{']), captures⟩
        = some ⟨some ':', [' '] ++ (base ++ [' ', '{']), captures⟩ := by
      cbv
    have hnamed := readAt_base hbase "." (by rintro c ⟨⟩; rfl)
      (readAt_append hcolon (readAt_blanks_name hbase fun _ ↦ isBlank_of_mem_space))
    exact ⟨_, readAt_append (readAt_append hnamed rfl) rfl⟩
  have htail := readAt_maybe_base hbase (fun _ _ ↦ rfl) hclause
    (fun _ _ ↦ ⟨some '{', (rfl : (blanks ++ Grammar.brace?).readAt _ = _)⟩)
  refine recognizes_class rfl (readAt_append (readAt_class_name hname hlead hmark) (hargs _ _))
    htail hkept fun reading ↦ ?_
  simp only [readAt_append_assoc]

theorem recognizes_ruby_class {base? : Option Text} (hname : isName name)
    (hbase : ∀ base ∈ base?, isName base)
    (hkept : ∀ base ∈ base?, Form.baseClass base = some base)
    (hline : line = ("class " : Text) ++ (name ++ (around " < " base? [] ++ []))) :
    Recognizes .ruby .classes line (.classDef name base?) := by
  have hmark : ∀ c ∈ (around " < " base? [] ++ []).head?, isWord c = false := by
    cases base? <;> (rintro c ⟨⟩; try rfl)
  have hlead : (Grammar.indent ++ "class").readAt ⟨none, line, []⟩
      = some ⟨some 's', ' ' :: (name ++ (around " < " base? [] ++ [])),
          [⟨.indent, line, line⟩]⟩ := by
    generalize around " < " base? [] ++ [] = rest at hline
    subst hline
    cbv
  have hclause (base : Text) (hbase : isName base) (before : Option Char)
      (captures : List Capture) : ∃ after,
      (blanks ++ '<' ++ blanks ++ keep .base (Grammar.wordsOr ":")).readAt
          ⟨before, (" < " : Text) ++ (base ++ []), captures⟩
        = some ⟨after, [], ⟨.base, base ++ [], []⟩ :: captures⟩ := by
    have hless : (blanks ++ '<').readAt ⟨before, (" < " : Text) ++ (base ++ []), captures⟩
        = some ⟨some '<', [' '] ++ (base ++ []), captures⟩ := by
      generalize base ++ [] = t
      cbv
    exact ⟨_, readAt_base hbase ":" (by simp)
      (readAt_append hless (readAt_blanks_name hbase fun _ ↦ isBlank_of_mem_space))⟩
  have hend (before : Option Char) (captures : List Capture) : ∃ after,
      textEnd.readAt ⟨before, [], captures⟩ = some ⟨after, [], captures⟩ :=
    ⟨before, rfl⟩
  have htail := readAt_maybe_base hbase (fun _ _ ↦ rfl) hclause hend
  exact recognizes_class rfl (readAt_class_name hname hlead hmark) htail hkept fun reading ↦
    readAt_append_assoc _ _ _ _

/-- The structure that stands for a class. -/
theorem recognizes_go_class (hname : isName name)
    (hline : line = "type " ++ (name ++ (" struct" ++ [' ', '{']))) :
    Recognizes .go .classes line (.classDef name none) := by
  have hlead : (Grammar.indent ++ "type").readAt ⟨none, line, []⟩
      = some ⟨some 'e', ' ' :: (name ++ (" struct" ++ [' ', '{'])), [⟨.indent, line, line⟩]⟩ := by
    generalize ((" struct" : Text) ++ [' ', '{']) = rest at hline
    subst hline
    cbv
  have htail (before : Option Char) (captures : List Capture) : ∃ after,
      (blanks1 ++ ("struct" ++ (blanks ++ Grammar.brace?))).readAt
          ⟨before, " struct" ++ [' ', '{'], captures⟩
        = some ⟨after, [], baseCaptures none [] ++ captures⟩ :=
    ⟨some '{', by cbv⟩
  refine recognizes_class rfl (readAt_class_name hname hlead (by rintro c ⟨⟩; rfl)) htail
    (by simp) fun reading ↦ ?_
  simp only [readAt_append_assoc]

theorem recognizes_rust_class (hname : isName name)
    (hline : line = "struct " ++ (name ++ [' ', '{'])) :
    Recognizes .rust .classes line (.classDef name none) := by
  have hlead : (Grammar.indent ++ maybe (Grammar.modifier ["pub"]) ++ "struct").readAt
        ⟨none, line, []⟩
      = some ⟨some 't', ' ' :: (name ++ [' ', '{']), [⟨.indent, line, line⟩]⟩ := by
    subst hline
    cbv
  have htail (before : Option Char) (captures : List Capture) : ∃ after,
      (blanks ++ (maybe Grammar.typeArgs ++ (blanks ++ Grammar.brace?))).readAt
          ⟨before, [' ', '{'], captures⟩ = some ⟨after, [], baseCaptures none [] ++ captures⟩ :=
    ⟨some '{', rfl⟩
  refine recognizes_class rfl (readAt_class_name hname hlead (by rintro c ⟨⟩; rfl)) htail
    (by simp) fun reading ↦ ?_
  simp only [readAt_append_assoc]

end Classes

end Recast
