import Mathlib
import Recast.Recasting.Rule
import Recast.Proofs.Emission.Parameters

/-!
# Reading the header of a function

For each language, the header of a function in the wording of that language is taken apart by the
first recognizer for functions: what stands in front of the name is read first, then the name, the
list of parameters, and what opens the block.
-/

namespace Recast

open Pattern Text

/-! ## What a recognizer finds -/

/-- Whether the first recognizer of a category that accepts a line finds the form in it. -/
def Recognizes (language : Language) (category : Category) (line : Text) (form : Form) : Prop :=
  ∃ construct, Rule.firstConstruct language line (language.recognizers category)
      = .ok (some construct)
    ∧ construct.form = form

section Recognition

variable {language : Language} {category : Category} {kind : Kind} {pattern : Pattern}
  {others : List Recognizer} {line name t u : Text} {before : Option Char} {reading : Reading}
  {captures : List Capture}

theorem recognize_line_eq_none (h : pattern.readStart line = none) (language : Language) :
    (Recognizer.line kind pattern).recognize language line = .ok none := by
  rw [Recognizer.recognize, h]

/-- The recognizers that do not accept a line are passed over. -/
theorem recognizes_of_skipped {skipped : List Recognizer} {form : Form}
    (hgrammar : language.recognizers category = skipped ++ .line kind pattern :: others)
    (hskipped : ∀ recognizer ∈ skipped, recognizer.recognize language line = .ok none)
    (hread : pattern.readStart line = some reading)
    (hform : Form.ofReading kind language reading = .ok (some form)) :
    Recognizes language category line form := by
  refine ⟨⟨form, reading.get .indent, reading.has .closes, none⟩, ?_, rfl⟩
  rw [hgrammar]
  clear hgrammar
  induction skipped with
  | nil =>
    rw [List.nil_append, Rule.firstConstruct, Recognizer.recognize, hread]
    simp only [hform]
    rfl
  | cons first skipped ih =>
    rw [List.cons_append, Rule.firstConstruct, hskipped first List.mem_cons_self]
    exact ih fun recognizer h ↦ hskipped recognizer (List.mem_cons_of_mem first h)

theorem recognizes_of_readStart {form : Form}
    (hgrammar : language.recognizers category = .line kind pattern :: others)
    (hread : pattern.readStart line = some reading)
    (hform : Form.ofReading kind language reading = .ok (some form)) :
    Recognizes language category line form := by
  have hfirst : language.recognizers category = [] ++ .line kind pattern :: others := hgrammar
  exact recognizes_of_skipped hfirst (List.forall_mem_nil _) hread hform

/-- A line is recognized as one form only. -/
theorem Recognizes.eq {form other : Form} (h : Recognizes language category line form)
    (hother : Recognizes language category line other) : form = other := by
  obtain ⟨construct, hconstruct, rfl⟩ := h
  obtain ⟨construct', hconstruct', rfl⟩ := hother
  rw [hconstruct] at hconstruct'
  rw [Option.some.inj (Except.ok.inj hconstruct')]

@[simp]
theorem Capture.text_append (slot : Slot) (u t : Text) : Capture.text ⟨slot, u ++ t, t⟩ = u := by
  simp [Capture.text]

theorem recognizes_function {params : List Text}
    (hgrammar : language.recognizers .functions = .line .function pattern :: others)
    (hread : pattern.readStart line = some reading) (hget : reading.get? .name = some name)
    (hname : isName name) (hparams : Form.params language (reading.get .params) = params) :
    Recognizes language .functions line (.function name params) := by
  apply recognizes_of_readStart hgrammar hread
  have hmarks : dropEndWhile (fun c ↦ c == '?' || c == '!') name = name := by
    apply dropEndWhile_eq_self
    intro c hc
    have hchar := isNameChar_of_mem hname (List.mem_of_getLast? hc)
    simp [ne_of_isNameChar hchar (rfl : isNameChar '?' = false),
      ne_of_isNameChar hchar (rfl : isNameChar '!' = false)]
  simp [Form.ofReading, Reading.require, hget, hmarks, hparams, bind, Except.bind, pure,
    Except.pure]

end Recognition

/-! ## The pieces of headers -/

section Pieces

variable {name list t : Text} {before : Option Char} {captures : List Capture}
  {accepts : Char → Bool}

theorem isNameChar_of_mem_head? (hname : isName name) {c : Char} (hc : c ∈ (name ++ t).head?) :
    isNameChar c := by
  rw [List.head?_append, Option.mem_def, Option.or_eq_some_iff] at hc
  rcases hc with hc | ⟨hnil, -⟩
  · exact isNameChar_of_mem hname (List.mem_of_head? hc)
  · exact absurd (List.head?_eq_none_iff.1 hnil) (ne_nil_of_isName hname)

theorem readAt_blanks_name (hname : isName name) {u : Text} (hu : ∀ c ∈ u, isBlank c) :
    blanks.readAt ⟨before, u ++ (name ++ t), captures⟩
      = some ⟨endOf before u, name ++ t, captures⟩ :=
  readAt_most_char hu fun _ hc ↦ isBlank_of_isNameChar (isNameChar_of_mem_head? hname hc)

theorem readAt_blanks1_name (hname : isName name) :
    blanks1.readAt ⟨before, ' ' :: (name ++ t), captures⟩
      = some ⟨some ' ', name ++ t, captures⟩ := by
  have hblank (c : Char) (hc : c ∈ [' ']) : isBlank c := isBlank_of_mem_space hc
  exact readAt_most1_char hblank (List.cons_ne_nil _ _) fun _ hc ↦
    isBlank_of_isNameChar (isNameChar_of_mem_head? hname hc)

theorem readAt_wordsOr (hname : isName name) (extra : Text)
    (ht : ∀ c ∈ t.head?, wordOr extra c = false) :
    (Grammar.wordsOr extra).readAt ⟨before, name ++ t, captures⟩
      = some ⟨endOf before name, t, captures⟩ := by
  refine readAt_most1_char (fun c hc ↦ ?_) (ne_nil_of_isName hname) ht
  simp [wordOr, isWord_of_isNameChar (isNameChar_of_mem hname hc)]

theorem readAt_word (hname : isName name) (ht : ∀ c ∈ t.head?, isWord c = false) :
    word.readAt ⟨before, name ++ t, captures⟩ = some ⟨endOf before name, t, captures⟩ :=
  readAt_most1_char (fun _ hc ↦ isWord_of_isNameChar (isNameChar_of_mem hname hc))
    (ne_nil_of_isName hname) ht

/-- A mark that is no part of a name cannot be read where a name starts. -/
theorem readAt_mark_name (hname : isName name) {mark : Char} (hmark : isNameChar mark = false) :
    (Pattern.char (· == mark)).readAt ⟨before, name ++ t, captures⟩ = none := by
  cases name with
  | nil => exact absurd hname Bool.false_ne_true
  | cons c rest =>
    have hc := ne_of_isNameChar (isNameChar_of_mem hname List.mem_cons_self) hmark
    exact if_neg (by simpa using hc)

theorem readAt_params {p : Pattern} {reading : Reading} (hlist : ∀ c ∈ list, accepts c)
    (ht : ')' ∉ t) (hp : p.readAt reading = some ⟨before, '(' :: (list ++ ')' :: t), captures⟩) :
    (p ++ blanks ++ '(' ++ keep .params (most (.char accepts)) ++ ')').readAt reading
      = some ⟨some ')', t, ⟨.params, list ++ ')' :: t, ')' :: t⟩ :: captures⟩ :=
  readAt_keep_most_mark hlist ht (readAt_append (readAt_append hp rfl) rfl)

theorem inLine_of_isListChar (hlist : ∀ c ∈ list, Emission.isListChar c) :
    ∀ c ∈ list, inLine c :=
  fun c hc ↦ bne_iff_ne.2 (Emission.ne_of_isListChar (hlist c hc) rfl)

theorem noneOf_of_isNameChar {chars : Text} (hchars : chars.all (!isNameChar ·)) (c : Char)
    (hc : isNameChar c) : noneOf chars c := by
  have hnot : c ∉ chars := by
    intro hmem
    have hmark := List.all_eq_true.1 hchars c hmem
    rw [hc] at hmark
    exact absurd hmark Bool.false_ne_true
  simp [noneOf, hnot]

theorem noneOf_of_isListChar (hlist : ∀ c ∈ list, Emission.isListChar c) {mark : Char}
    (hmark : Emission.isListChar mark = false) : ∀ c ∈ list, noneOf [mark] c := by
  intro c hc
  simp [noneOf, Emission.ne_of_isListChar (hlist c hc) hmark]

end Pieces

/-! ## Functions -/

section Functions

variable {name list line ending rest : Text} {params : List Text} {before : Option Char}

/-- The name of a function, once what stands in front of it has been read. -/
theorem readAt_called {lead : Pattern} (hname : isName name)
    (hlead : lead.readAt ⟨none, line, []⟩
      = some ⟨before, name ++ '(' :: rest, [⟨.indent, line, line⟩]⟩) :
    (lead ++ keep .name word).readAt ⟨none, line, []⟩
      = some ⟨endOf before name, '(' :: rest,
          [⟨.name, name ++ '(' :: rest, '(' :: rest⟩, ⟨.indent, line, line⟩]⟩ :=
  readAt_append hlead (readAt_keep (readAt_word hname (by rintro c ⟨⟩; rfl)))

/-- No type arguments stand between the name and the parameters. -/
theorem readAt_typeArgs {head : Pattern} {reading : Reading} {captures : List Capture}
    (hhead : head.readAt reading = some ⟨before, '(' :: rest, captures⟩) :
    (head ++ blanks ++ maybe Grammar.typeArgs).readAt reading
      = some ⟨before, '(' :: rest, captures⟩ :=
  readAt_append (readAt_append hhead rfl) rfl

/-- A header whose name, parameters and ending have been read. -/
theorem recognizes_signature {language : Language} {pattern head tail : Pattern}
    {accepts : Char → Bool} {others : List Recognizer} {after : Option Char}
    (hgrammar : language.recognizers .functions = .line .function pattern :: others)
    (hhead : head.readAt ⟨none, line, []⟩ = some ⟨before, '(' :: (list ++ ')' :: ending),
      [⟨.name, name ++ rest, rest⟩, ⟨.indent, line, line⟩]⟩)
    (htail : ∀ captures, tail.readAt ⟨some ')', ending, captures⟩ = some ⟨after, [], captures⟩)
    (hlist : ∀ c ∈ list, accepts c) (hend : ')' ∉ ending) (hname : isName name)
    (hparams : Form.params language list = params)
    (hpattern : ∀ reading, pattern.readAt reading
      = (head ++ blanks ++ '(' ++ keep .params (most (.char accepts)) ++ ')' ++ tail).readAt
          reading) :
    Recognizes language .functions line (.function name params) := by
  have hread : pattern.readStart line = some ⟨after, [],
      [⟨.params, list ++ ')' :: ending, ')' :: ending⟩, ⟨.name, name ++ rest, rest⟩,
       ⟨.indent, line, line⟩]⟩ := by
    rw [readStart, hpattern]
    exact readAt_append (readAt_params hlist hend hhead) (htail _)
  refine recognizes_function hgrammar hread ?_ hname ?_
  · simp [Reading.get?]
  · simpa [Reading.get, Reading.get?] using hparams

theorem recognizes_python_function (hname : isName name)
    (hlist : ∀ c ∈ list, Emission.isListChar c) (hparams : Form.params .python list = params)
    (hline : line = "def " ++ (name ++ '(' :: (list ++ ')' :: ":"))) :
    Recognizes .python .functions line (.function name params) := by
  generalize hrest : list ++ ')' :: ":" = rest at hline
  have hlead : (Grammar.indent ++ maybe (Grammar.modifier ["async"]) ++ "def").readAt
        ⟨none, line, []⟩
      = some ⟨some 'f', ' ' :: (name ++ '(' :: rest), [⟨.indent, line, line⟩]⟩ := by
    subst hline
    cbv
  have htail (captures : List Capture) :
      (blanks ++ (maybe ("->" ++ blanks ++ Grammar.without1 [':', '{'])
        ++ Grammar.colonOpen)).readAt ⟨some ')', ":", captures⟩
        = some ⟨some ':', [], captures⟩ := rfl
  have hhead := readAt_called hname (readAt_append hlead (readAt_blanks1_name hname))
  subst hrest
  refine recognizes_signature rfl hhead htail (inLine_of_isListChar hlist) (by decide) hname
    hparams fun reading ↦ ?_
  simp only [readAt_append_assoc]
  rfl

theorem recognizes_script_function {language : Language}
    (hscript : language.grammar = Grammar.script) (hname : isName name)
    (hlist : ∀ c ∈ list, Emission.isListChar c) (hparams : Form.params language list = params)
    (hline : line = "function " ++ (name ++ '(' :: (list ++ ')' :: [' ', '{']))) :
    Recognizes language .functions line (.function name params) := by
  generalize hrest : list ++ ')' :: [' ', '{'] = rest at hline
  have hlead : (Grammar.indent ++ maybe (Grammar.modifier ["export"])
        ++ maybe (Grammar.modifier ["default"]) ++ maybe (Grammar.modifier ["async"])
        ++ "function").readAt ⟨none, line, []⟩
      = some ⟨some 'n', [' '] ++ (name ++ '(' :: rest), [⟨.indent, line, line⟩]⟩ := by
    subst hline
    cbv
  have hstar (before : Option Char) (captures : List Capture) :
      (maybe '*').readAt ⟨before, name ++ '(' :: rest, captures⟩
        = some ⟨before, name ++ '(' :: rest, captures⟩ :=
    readAt_maybe_of_none (readAt_mark_name hname rfl)
  have hgap (before : Option Char) (captures : List Capture) :
      blanks.readAt ⟨before, [] ++ (name ++ '(' :: rest), captures⟩
        = some ⟨before, name ++ '(' :: rest, captures⟩ :=
    readAt_blanks_name hname (by simp)
  have htail (captures : List Capture) :
      (blanks ++ (Grammar.resultType? ++ (blanks ++ Grammar.brace?))).readAt
          ⟨some ')', [' ', '{'], captures⟩ = some ⟨some '{', [], captures⟩ := rfl
  have hopen := readAt_append hlead (readAt_blanks_name hname fun _ ↦ isBlank_of_mem_space)
  have hhead := readAt_called hname (readAt_append (readAt_append hopen (hstar _ _)) (hgap _ _))
  subst hrest
  have hgrammar : language.recognizers .functions = Grammar.script.recognizers .functions := by
    rw [Language.recognizers, hscript]
  refine recognizes_signature hgrammar (readAt_typeArgs hhead) htail
    (inLine_of_isListChar hlist) (by decide) hname hparams
    fun reading ↦ ?_
  simp only [readAt_append_assoc]
  rfl

/-- A method whose modifiers are `public` and `static` and whose type is a placeholder. -/
theorem recognizes_method {language : Language} {modifiers : List Pattern}
    {others : List Recognizer} (type : Text)
    (hgrammar : language.recognizers .functions
      = (Grammar.curlyMethod modifiers).2 :: others)
    (hname : isName name) (hlist : ∀ c ∈ list, Emission.isListChar c)
    (hparams : Form.params language list = params)
    (hlead : (Grammar.indent ++ most1 (Grammar.modifier modifiers)
          ++ maybe ('<' ++ Grammar.without1 ">" ++ '>' ++ blanks1)).readAt ⟨none, line, []⟩
      = some ⟨some ' ', type ++ ' ' :: (name ++ '(' :: (list ++ ')' :: [' ', '{'])),
          [⟨.indent, line, line⟩]⟩)
    (htype : ∀ t captures,
      (notAhead (anyOf ["class", "interface", "enum", "record", "struct"] ++ edge)
          ++ Grammar.typeName).readAt ⟨some ' ', type ++ ' ' :: t, captures⟩
        = some ⟨type.getLast?, ' ' :: t, captures⟩) :
    Recognizes language .functions line (.function name params) := by
  have htail (captures : List Capture) :
      (blanks ++ (Grammar.throwsClause? ++ Grammar.brace?)).readAt
          ⟨some ')', [' ', '{'], captures⟩ = some ⟨some '{', [], captures⟩ := rfl
  have hhead := readAt_called hname
    (readAt_append hlead (readAt_maybe (readAt_append (htype _ _) (readAt_blanks1_name hname))))
  refine recognizes_signature hgrammar hhead htail
    (noneOf_of_isListChar hlist (rfl : Emission.isListChar ';' = false)) (by decide) hname hparams
    fun reading ↦ ?_
  simp only [readAt_append_assoc]
  rfl

theorem recognizes_java_function (hname : isName name)
    (hlist : ∀ c ∈ list, Emission.isListChar c) (hparams : Form.params .java list = params)
    (hline : line = "public static Object " ++ (name ++ '(' :: (list ++ ')' :: [' ', '{']))) :
    Recognizes .java .functions line (.function name params) := by
  refine recognizes_method "Object" rfl hname hlist hparams ?_ fun t captures ↦ ?_
  · subst hline
    cbv
  · cbv

theorem recognizes_csharp_function (hname : isName name)
    (hlist : ∀ c ∈ list, Emission.isListChar c) (hparams : Form.params .csharp list = params)
    (hline : line = "public static object " ++ (name ++ '(' :: (list ++ ')' :: [' ', '{']))) :
    Recognizes .csharp .functions line (.function name params) := by
  refine recognizes_method "object" rfl hname hlist hparams ?_ fun t captures ↦ ?_
  · subst hline
    cbv
  · cbv

/-- The text of a header from its name on has no other marks than those of its list. -/
theorem notMem_signature (hname : isName name) (hlist : ∀ c ∈ list, Emission.isListChar c)
    {c : Char} (hc : Emission.isListChar c = false) (hopen : c ≠ '(') (hclose : c ≠ ')')
    (hend : c ∉ ending) : c ∉ name ++ '(' :: (list ++ ')' :: ending) := by
  have hlisted {t : Text} (ht : ∀ d ∈ t, Emission.isListChar d) : c ∉ t :=
    fun hmem ↦ Emission.ne_of_isListChar (ht c hmem) hc rfl
  have hnot := hlisted fun d hd ↦
    Emission.isListChar_of_isNameChar (isNameChar_of_mem hname hd)
  simp [hnot, hlisted hlist, hopen, hclose, hend]

theorem recognizes_cpp_function (hname : isName name)
    (hlist : ∀ c ∈ list, Emission.isListChar c) (hparams : Form.params .cpp list = params)
    (hline : line = "void " ++ (name ++ '(' :: (list ++ ')' :: [' ', '{']))) :
    Recognizes .cpp .functions line (.function name params) := by
  have habsent : ∀ c ∈ ' ' :: (name ++ '(' :: (list ++ ')' :: [' ', '{'])),
      oneOf "*&" c = false := by
    intro c hc
    have hstar : '*' ∉ name ++ '(' :: (list ++ ')' :: [' ', '{']) :=
      notMem_signature hname hlist rfl (by decide) (by decide) (by decide)
    have hamp : '&' ∉ name ++ '(' :: (list ++ ')' :: [' ', '{']) :=
      notMem_signature hname hlist rfl (by decide) (by decide) (by decide)
    rcases List.mem_cons.1 hc with rfl | hc
    · rfl
    · have hne : c ≠ '*' ∧ c ≠ '&' :=
        ⟨ne_of_mem_of_not_mem hc hstar, ne_of_mem_of_not_mem hc hamp⟩
      simp [oneOf, hne]
  generalize hrest : list ++ ')' :: [' ', '{'] = rest at hline habsent
  have hlead : (Grammar.indent
        ++ most (Grammar.modifier ["static", "inline", "virtual", "constexpr", "explicit"])
        ++ Grammar.notKeyword ++ Grammar.wordsOr ":<>,").readAt ⟨none, line, []⟩
      = some ⟨some 'd', ' ' :: (name ++ '(' :: rest), [⟨.indent, line, line⟩]⟩ := by
    subst hline
    cbv
  have hgap (captures : List Capture) :
      (blanks ++ most1 (.char (oneOf "*&")) ++ blanks <|> blanks1).readAt
          ⟨some 'd', ' ' :: (name ++ '(' :: rest), captures⟩
        = some ⟨some ' ', name ++ '(' :: rest, captures⟩ := by
    refine (readAt_either_right (readAt_append_eq_none ?_ blanks)).trans
      (readAt_blanks1_name hname)
    exact readAt_append_most1_char_eq_none blanks habsent
  have htail (captures : List Capture) :
      (blanks ++ (maybe ("const" ++ blanks) ++ (maybe ("override" ++ blanks)
          ++ ('{' ++ textEnd)))).readAt ⟨some ')', [' ', '{'], captures⟩
        = some ⟨some '{', [], captures⟩ := rfl
  have hhead := readAt_called hname (readAt_append hlead (hgap _))
  subst hrest
  refine recognizes_signature rfl hhead htail
    (noneOf_of_isListChar hlist (rfl : Emission.isListChar ';' = false)) (by decide) hname hparams
    fun reading ↦ ?_
  simp only [readAt_append_assoc]
  rfl

theorem recognizes_go_function (hname : isName name)
    (hlist : ∀ c ∈ list, Emission.isListChar c) (hparams : Form.params .go list = params)
    (hline : line = "func " ++ (name ++ '(' :: (list ++ ')' :: [' ', '{']))) :
    Recognizes .go .functions line (.function name params) := by
  generalize hrest : list ++ ')' :: [' ', '{'] = rest at hline
  have hlead : (Grammar.indent ++ "func").readAt ⟨none, line, []⟩
      = some ⟨some 'c', ' ' :: (name ++ '(' :: rest), [⟨.indent, line, line⟩]⟩ := by
    subst hline
    cbv
  have hreceiver (before : Option Char) (captures : List Capture) :
      (maybe ('(' ++ Grammar.without ")" ++ ')' ++ blanks)).readAt
          ⟨before, name ++ '(' :: rest, captures⟩
        = some ⟨before, name ++ '(' :: rest, captures⟩ :=
    readAt_maybe_of_none (readAt_append_eq_none (readAt_append_eq_none
      (readAt_append_eq_none (readAt_mark_name hname rfl) _) _) _)
  have htail (captures : List Capture) :
      (fewest (.char (noneOf ['{'])) ++ Grammar.brace?).readAt ⟨some ')', [' ', '{'], captures⟩
        = some ⟨some '{', [], captures⟩ := rfl
  have hhead := readAt_called hname
    (readAt_append (readAt_append hlead (readAt_blanks1_name hname)) (hreceiver _ _))
  subst hrest
  refine recognizes_signature rfl hhead htail
    (noneOf_of_isListChar hlist (rfl : Emission.isListChar ')' = false)) (by decide) hname hparams
    fun reading ↦ ?_
  simp only [readAt_append_assoc]
  rfl

theorem recognizes_rust_function (hname : isName name)
    (hlist : ∀ c ∈ list, Emission.isListChar c) (hparams : Form.params .rust list = params)
    (hline : line = "fn " ++ (name ++ '(' :: (list ++ ')' :: [' ', '{']))) :
    Recognizes .rust .functions line (.function name params) := by
  generalize hrest : list ++ ')' :: [' ', '{'] = rest at hline
  have hlead : (Grammar.indent ++ maybe ("pub" ++ maybe ('(' ++ Grammar.without ")" ++ ')')
        ++ blanks1) ++ maybe (Grammar.modifier ["async"]) ++ "fn").readAt ⟨none, line, []⟩
      = some ⟨some 'n', ' ' :: (name ++ '(' :: rest), [⟨.indent, line, line⟩]⟩ := by
    subst hline
    cbv
  have htail (captures : List Capture) :
      (blanks ++ (maybe ("->" ++ blanks ++ Grammar.littleWithout1 ['{'])
          ++ (blanks ++ Grammar.brace?))).readAt ⟨some ')', [' ', '{'], captures⟩
        = some ⟨some '{', [], captures⟩ := rfl
  have hhead := readAt_called hname (readAt_append hlead (readAt_blanks1_name hname))
  subst hrest
  refine recognizes_signature rfl (readAt_typeArgs hhead) htail (inLine_of_isListChar hlist)
    (by decide) hname hparams fun reading ↦ ?_
  simp only [readAt_append_assoc]
  rfl

theorem recognizes_php_function (hname : isName name)
    (hlist : ∀ c ∈ list, Emission.isListChar c) (hparams : Form.params .php list = params)
    (hline : line = "function " ++ (name ++ '(' :: (list ++ ')' :: [' ', '{']))) :
    Recognizes .php .functions line (.function name params) := by
  generalize hrest : list ++ ')' :: [' ', '{'] = rest at hline
  have hlead : (Grammar.indent ++ most (Grammar.modifier
        ["public", "private", "protected", "static", "abstract", "final"]) ++ "function").readAt
        ⟨none, line, []⟩
      = some ⟨some 'n', ' ' :: (name ++ '(' :: rest), [⟨.indent, line, line⟩]⟩ := by
    subst hline
    cbv
  have hamp (before : Option Char) (captures : List Capture) :
      (maybe '&').readAt ⟨before, name ++ '(' :: rest, captures⟩
        = some ⟨before, name ++ '(' :: rest, captures⟩ :=
    readAt_maybe_of_none (readAt_mark_name hname rfl)
  have htail (captures : List Capture) :
      (blanks ++ (maybe (':' ++ blanks ++ maybe '?' ++ Grammar.wordsOr "\\")
          ++ (blanks ++ Grammar.brace?))).readAt ⟨some ')', [' ', '{'], captures⟩
        = some ⟨some '{', [], captures⟩ := rfl
  have hhead := readAt_called hname
    (readAt_append (readAt_append hlead (readAt_blanks1_name hname)) (hamp _ _))
  subst hrest
  refine recognizes_signature rfl hhead htail (inLine_of_isListChar hlist) (by decide) hname
    hparams fun reading ↦ ?_
  simp only [readAt_append_assoc]
  rfl

/-- The name of a method that has no receiver and no question or exclamation mark. -/
theorem readAt_ruby_name (hname : isName name) (hdot : '.' ∉ name ++ rest)
    (hmark : ∀ c ∈ rest.head?, isWord c = false ∧ oneOf "?!" c = false)
    (hline : line = "def " ++ (name ++ rest)) :
    (Grammar.indent ++ "def" ++ blanks1 ++ maybe "self."
        ++ keep .name (word ++ maybe (.char (oneOf "?!")))).readAt ⟨none, line, []⟩
      = some ⟨endOf (some ' ') name, rest,
          [⟨.name, name ++ rest, rest⟩, ⟨.indent, line, line⟩]⟩ := by
  have hlead : (Grammar.indent ++ "def").readAt ⟨none, line, []⟩
      = some ⟨some 'f', ' ' :: (name ++ rest), [⟨.indent, line, line⟩]⟩ := by
    subst hline
    cbv
  have hself (before : Option Char) (captures : List Capture) :
      (maybe "self.").readAt ⟨before, name ++ rest, captures⟩
        = some ⟨before, name ++ rest, captures⟩ := by
    apply readAt_maybe_of_none
    apply readAt_text_eq_none
    intro hself
    exact hdot (hself.subset (by decide))
  have hnone (before : Option Char) (captures : List Capture) :
      (maybe (.char (oneOf "?!"))).readAt ⟨before, rest, captures⟩
        = some ⟨before, rest, captures⟩ := by
    apply readAt_maybe_of_none
    cases rest with
    | nil => rfl
    | cons c rest => exact if_neg (Bool.eq_false_iff.1 (hmark c rfl).2)
  exact readAt_append
    (readAt_append (readAt_append hlead (readAt_blanks1_name hname)) (hself _ _))
    (readAt_keep (readAt_append (readAt_word hname fun c hc ↦ (hmark c hc).1) (hnone _ _)))

theorem recognizes_ruby_function (hname : isName name)
    (hlist : ∀ c ∈ list, Emission.isListChar c) (hparams : Form.params .ruby list = params)
    (hline : line = "def " ++ (name ++ '(' :: (list ++ [')']))) :
    Recognizes .ruby .functions line (.function name params) := by
  have hdot : '.' ∉ name ++ '(' :: (list ++ [')']) :=
    notMem_signature hname hlist rfl (by decide) (by decide) (by decide)
  have hhead := readAt_ruby_name hname hdot (by rintro c ⟨⟩; decide) hline
  have hgap (before : Option Char) (captures : List Capture) :
      blanks.readAt ⟨before, '(' :: (list ++ [')']), captures⟩
        = some ⟨before, '(' :: (list ++ [')']), captures⟩ := rfl
  have hlisted (before : Option Char) (captures : List Capture) :
      (maybe ('(' ++ keep .params anything ++ ')')).readAt
          ⟨before, '(' :: (list ++ [')']), captures⟩
        = some ⟨some ')', [], ⟨.params, list ++ [')'], [')']⟩ :: captures⟩ :=
    readAt_maybe (readAt_keep_most_mark (inLine_of_isListChar hlist) List.not_mem_nil rfl)
  have hend (before : Option Char) (captures : List Capture) :
      textEnd.readAt ⟨before, [], captures⟩ = some ⟨before, [], captures⟩ := rfl
  refine recognizes_function rfl (readAt_append
    (readAt_append (readAt_append hhead (hgap _ _)) (hlisted _ _)) (hend _ _)) ?_ hname ?_
  · simp [Reading.get?]
  · simpa [Reading.get, Reading.get?] using hparams

theorem recognizes_ruby_function_bare (hname : isName name)
    (hline : line = ("def " : Text) ++ (name ++ [])) :
    Recognizes .ruby .functions line (.function name []) := by
  have hdot : '.' ∉ name ++ [] := by
    rw [List.append_nil]
    exact notMem_of_isName hname rfl
  have hhead := readAt_ruby_name hname hdot (by simp) hline
  have hgap (before : Option Char) (captures : List Capture) :
      blanks.readAt ⟨before, [], captures⟩ = some ⟨before, [], captures⟩ := rfl
  have hnone (before : Option Char) (captures : List Capture) :
      (maybe ('(' ++ keep .params anything ++ ')')).readAt ⟨before, [], captures⟩
        = some ⟨before, [], captures⟩ := rfl
  have hend (before : Option Char) (captures : List Capture) :
      textEnd.readAt ⟨before, [], captures⟩ = some ⟨before, [], captures⟩ := rfl
  refine recognizes_function rfl (readAt_append
    (readAt_append (readAt_append hhead (hgap _ _)) (hnone _ _)) (hend _ _)) ?_ hname rfl
  simp [Reading.get?, Capture.text]

end Functions

end Recast
