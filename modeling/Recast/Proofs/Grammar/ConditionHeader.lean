import Recast.Emission.All
import Recast.Proofs.Grammar.FunctionHeader
import Recast.Proofs.Language.Profile
import Recast.Proofs.Pattern.Lazy

/-!
# Headers with a condition are read as they are written

A condition stands behind a keyword, and what opens the block behind the condition: a pair of
parentheses and a brace, a brace, a colon, or nothing but the end of the line.  In parentheses the
condition reaches to the last closing one.  Elsewhere it is read lazily, and what follows it cannot
be found earlier, since a trimmed condition does not end in a blank.
-/

namespace Recast

open Pattern Text Grammar

/-! ## Conditions -/

/-- A condition as it is kept: one line, trimmed, and without parentheses around it or cut apart by
those that are put around it. -/
structure IsCondition (cond : Text) : Prop where
  ne_nil : cond ≠ []
  trimmed : trim cond = cond
  line : '\n' ∉ cond
  wrapped : unwrapParens ("(" ++ cond ++ ")") = cond
  bare : unwrapParens cond = cond

/-- Whether a text ends in blanks and a word. -/
def EndsInWord (word t : Text) : Prop :=
  ∃ u gap, gap ≠ [] ∧ (∀ c ∈ gap, isBlank c) ∧ t = u ++ (gap ++ word)

namespace IsCondition

variable {cond : Text} {kind : Kind} {form : Text → Form} {reading : Reading}

theorem inLine (hcond : IsCondition cond) : ∀ c ∈ cond, inLine c :=
  fun _ hc ↦ bne_iff_ne.2 fun heq ↦ hcond.line (heq ▸ hc)

theorem isBlank_head (hcond : IsCondition cond) (t : Text) :
    ∀ c ∈ (cond ++ t).head?, isBlank c = false := by
  intro c hc
  rw [List.head?_append_of_ne_nil _ hcond.ne_nil] at hc
  exact isBlank_of_trim_eq_self hcond.trimmed (.inl hc)

/-- Every rest of a condition has ink in it. -/
theorem exists_ink (hcond : IsCondition cond) {v w : Text} (hsplit : cond = v ++ w) (hw : w ≠ []) :
    ∃ c ∈ w, isBlank c = false := by
  refine ⟨w.getLast hw, List.getLast_mem hw, isBlank_of_trim_eq_self hcond.trimmed (.inr ?_)⟩
  rw [hsplit, List.getLast?_append_of_ne_nil _ hw]
  exact List.getLast?_eq_some_getLast hw

theorem condition_of_paren (hcond : IsCondition cond) (hget : reading.get? .cond = some cond)
    (hparen : reading.has .paren) (hnegate : reading.has .negate = false) :
    Form.condition kind reading = .ok (some cond) := by
  simp only [Form.condition, Reading.require, hget, hparen, hnegate]
  simp only [bind, Except.bind, hcond.trimmed, hcond.wrapped]
  rfl

theorem condition_of_bare (hcond : IsCondition cond) (hget : reading.get? .cond = some cond)
    (hparen : reading.has .paren = false) (hnegate : reading.has .negate = false) :
    Form.condition kind reading = .ok (some cond) := by
  simp only [Form.condition, Reading.require, hget, hparen, hnegate]
  simp only [bind, Except.bind, hcond.trimmed, hcond.bare]
  rfl

end IsCondition

/-- Whether the forms of a kind consist of a condition. -/
def Kind.HasCondition (kind : Kind) (form : Text → Form) : Prop :=
  kind = .ifThen ∧ form = .ifThen ∨ kind = .elseIf ∧ form = .elseIf
    ∨ kind = .whileLoop ∧ form = .whileLoop

theorem Kind.HasCondition.ofReading {kind : Kind} {form : Text → Form} {reading : Reading}
    {cond : Text} (h : kind.HasCondition form)
    (hcond : Form.condition kind reading = .ok (some cond)) (language : Language) :
    Form.ofReading kind language reading = .ok (some (form cond)) := by
  rcases h with ⟨rfl, rfl⟩ | ⟨rfl, rfl⟩ | ⟨rfl, rfl⟩ <;> simp only [Form.ofReading, hcond] <;> rfl

/-! ## What stands around a condition -/

/-- Whether nothing has been read but an indentation and the end of the block before. -/
def IsLead (captures : List Capture) : Prop :=
  ∀ capture ∈ captures, capture.slot = .indent ∨ capture.slot = .closes

/-- Whether a pattern reads a keyword and leaves what follows it. -/
def ReadsKeyword (lead : Pattern) (keyword : Text) : Prop :=
  ∀ t, ∃ before captures, lead.readAt ⟨none, keyword ++ t, []⟩ = some ⟨before, t, captures⟩
    ∧ IsLead captures

/-- Whether a pattern finds the condition in the rest of a line behind a keyword. -/
def ReadsCondition (tail : Pattern) (rest cond : Text) : Prop :=
  ∀ before captures kind, IsLead captures → ∃ reading,
    tail.readAt ⟨before, rest, captures⟩ = some reading
      ∧ Form.condition kind reading = .ok (some cond)

section Styles

variable {cond : Text} {before last : Option Char} {captures : List Capture} {kind : Kind}

theorem IsLead.get?_eq_none (hlead : IsLead captures) {slot : Slot}
    (hslot : slot ≠ .indent ∧ slot ≠ .closes) (before : Option Char) (rest : Text) :
    (Reading.mk before rest captures).get? slot = none := by
  have hfind : captures.find? (·.slot = slot) = none := by
    refine List.find?_eq_none.2 fun capture hcapture ↦ ?_
    rcases hlead capture hcapture with h | h <;> simp [h, hslot.1.symm, hslot.2.symm]
  rw [Reading.get?, hfind, Option.map_none]

/-- A condition that stands without parentheses. -/
theorem IsLead.condition (hlead : IsLead captures) (hcond : IsCondition cond) (t : Text) :
    Form.condition kind ⟨last, [], ⟨.cond, cond ++ t, t⟩ :: captures⟩ = .ok (some cond) := by
  have hnone {slot : Slot} (hslot : slot ≠ .indent ∧ slot ≠ .closes ∧ slot ≠ .cond) :
      Reading.has ⟨last, [], ⟨.cond, cond ++ t, t⟩ :: captures⟩ slot = false := by
    have h := hlead.get?_eq_none ⟨hslot.1, hslot.2.1⟩ last []
    have hskip : Reading.get? ⟨last, [], ⟨.cond, cond ++ t, t⟩ :: captures⟩ slot
        = Reading.get? ⟨last, [], captures⟩ slot := by
      simp [Reading.get?, hslot.2.2.symm]
    rw [Reading.has, hskip, h, Option.isSome_none]
  exact hcond.condition_of_bare (by simp [Reading.get?]) (hnone (by decide)) (hnone (by decide))

/-- A condition in parentheses reaches to the last closing one. -/
theorem readsCondition_paren (hcond : IsCondition cond) :
    ReadsCondition parenCondition (" (" ++ (cond ++ [')', ' ', '{'])) cond := by
  intro before captures kind hlead
  have hopen (t : Text) : (blanks ++ keep .paren '(').readAt ⟨before, " (" ++ t, captures⟩
      = some ⟨some '(', t, ⟨.paren, '(' :: t, t⟩ :: captures⟩ := rfl
  have hgap (captures : List Capture) : blanks.readAt ⟨some ')', [' ', '{'], captures⟩
      = some ⟨some ' ', ['{'], captures⟩ := rfl
  have hbrace (captures : List Capture) : brace?.readAt ⟨some ' ', ['{'], captures⟩
      = some ⟨some '{', [], captures⟩ := rfl
  refine ⟨_, readAt_append (readAt_append (readAt_keep_most_mark hcond.inLine (by simp) (hopen _))
    (hgap _)) (hbrace _), hcond.condition_of_paren (by simp [Reading.get?]) rfl ?_⟩
  have hnegate : Slot.negate ≠ .indent ∧ Slot.negate ≠ .closes := by decide
  have hnone := hlead.get?_eq_none hnegate (some '{') []
  simpa [Reading.has, Reading.get?] using hnone

/-- The blank between a keyword and a condition. -/
theorem readAt_blanks1_condition (hcond : IsCondition cond) (t : Text) :
    blanks1.readAt ⟨before, [' '] ++ (cond ++ t), captures⟩
      = some ⟨some ' ', cond ++ t, captures⟩ :=
  readAt_most1_char (fun _ ↦ isBlank_of_mem_space) (List.cons_ne_nil _ _) (hcond.isBlank_head t)

/-- A lazy condition stops at what cannot be found earlier. -/
theorem readsCondition_lazy {accepts : Char → Bool} {tail : Pattern} {t : Text}
    (hcond : IsCondition cond) (haccepts : ∀ c ∈ cond, accepts c)
    (hstuck : ∀ before captures v w, cond = v ++ w → w ≠ [] →
      tail.readAt ⟨before, w ++ t, captures⟩ = none)
    (hend : ∀ before captures, ∃ last, tail.readAt ⟨before, t, captures⟩
      = some ⟨last, [], captures⟩) :
    ReadsCondition (blanks1 ++ (keep .cond (fewest1 (.char accepts)) ++ tail))
      ([' '] ++ (cond ++ t)) cond := by
  intro before captures kind hlead
  obtain ⟨last, hlast⟩ := hend (endOf (some ' ') cond) (⟨.cond, cond ++ t, t⟩ :: captures)
  have hlazy := readAt_keep_fewest1_char hcond.ne_nil haccepts
    (fun v w captures _ hsplit hw ↦ hstuck _ captures v w hsplit hw) hlast
  exact ⟨_, readAt_append (readAt_blanks1_condition hcond t) hlazy, hlead.condition hcond t⟩

/-- A lazy condition in front of blanks and a mark that ends the line. -/
theorem readsCondition_mark {accepts : Char → Bool} {opener : Pattern} {t : Text}
    (hcond : IsCondition cond) (haccepts : ∀ c ∈ cond, accepts c) (ht : '\n' ∉ t)
    (hlength : ∀ v, opener.Describes v → v.length ≤ t.length)
    (hend : ∀ before captures, ∃ last, (blanks ++ opener ++ textEnd).readAt ⟨before, t, captures⟩
      = some ⟨last, [], captures⟩) :
    ReadsCondition (blanks1 ++ (keep .cond (fewest1 (.char accepts))
      ++ (blanks ++ opener ++ textEnd))) ([' '] ++ (cond ++ t)) cond := by
  refine readsCondition_lazy hcond haccepts (fun before captures v w hsplit hw ↦ ?_) hend
  obtain ⟨c, hc, hink⟩ := hcond.exists_ink hsplit hw
  have hline : '\n' ∉ w := fun h ↦ hcond.line (hsplit ▸ List.mem_append_right v h)
  exact readAt_blanks_textEnd_eq_none hc hink (by simp [hline, ht]) hlength

theorem readsCondition_brace {accepts : Char → Bool} (hcond : IsCondition cond)
    (haccepts : ∀ c ∈ cond, accepts c) :
    ReadsCondition (blanks1 ++ (keep .cond (fewest1 (.char accepts)) ++ (blanks ++ '{' ++ textEnd)))
      ([' '] ++ (cond ++ [' ', '{'])) cond := by
  have hlength (v : Text) (hv : (Pattern.char (· == '{')).Describes v) : v.length ≤ 2 := by
    simp [describes_mark.1 hv]
  exact readsCondition_mark hcond haccepts (by simp) hlength fun _ _ ↦ ⟨some '{', rfl⟩

theorem readsCondition_colon (hcond : IsCondition cond) :
    ReadsCondition (blanks1 ++ (keep .cond little1 ++ colonOpen)) ([' '] ++ (cond ++ [':']))
      cond := by
  have hlength (v : Text)
      (hv : (either (Pattern.char (· == ':')) (Pattern.char (· == '{'))).Describes v) :
      v.length ≤ 1 := by
    rcases hv with hv | hv <;> simp [describes_mark.1 hv]
  exact readsCondition_mark hcond hcond.inLine (by simp) hlength fun _ _ ↦ ⟨some ':', rfl⟩

/-- A lazy condition in front of a keyword that may be missing at the end of the line. -/
theorem readsCondition_keyword {keyword : Text} (hcond : IsCondition cond)
    (hkeyword : ¬EndsInWord keyword cond) :
    ReadsCondition (blanks1 ++ (keep .cond little1 ++ (maybe (blanks1 ++ text keyword) ++ textEnd)))
      ([' '] ++ (cond ++ [])) cond := by
  refine readsCondition_lazy hcond hcond.inLine (fun before captures v w hsplit hw ↦ ?_) ?_
  · have hline : '\n' ∉ w := fun h ↦ hcond.line (hsplit ▸ List.mem_append_right v h)
    refine readAt_textEnd_eq_none (by simpa using hline) fun hdescribes ↦ ?_
    rw [List.append_nil] at hdescribes
    rcases hdescribes with hdescribes | rfl
    · obtain ⟨gap, word, rfl, hgap, hword⟩ := describes_append.1 hdescribes
      obtain ⟨hne, hblank⟩ := describes_most1_char.1 hgap
      rw [describes_text.1 hword] at hsplit
      exact hkeyword ⟨v, gap, hne, hblank, hsplit⟩
    · exact hw rfl
  · exact fun before captures ↦ ⟨before, rfl⟩

end Styles

/-! ## Keywords -/

section Keywords

variable {keyword : Text}

theorem isLead_indent (t : Text) : IsLead [⟨.indent, t, t⟩] :=
  List.forall_mem_singleton.2 (.inl rfl)

theorem readsKeyword_if : ReadsKeyword (indent ++ "if") "if" :=
  fun _ ↦ ⟨some 'f', _, rfl, isLead_indent _⟩

theorem readsKeyword_while : ReadsKeyword (indent ++ "while") "while" :=
  fun _ ↦ ⟨some 'e', _, rfl, isLead_indent _⟩

theorem readsKeyword_for : ReadsKeyword (indent ++ "for") "for" :=
  fun _ ↦ ⟨some 'r', _, rfl, isLead_indent _⟩

/-- The ways to spell the keyword of a further branch. -/
def elseIfSpellings : List Text :=
  ["else if", "elif", "elsif", "elseif"]

theorem readAt_elseIf (hkeyword : keyword ∈ elseIfSpellings) (before : Option Char) (t : Text)
    (captures : List Capture) :
    elseIf.readAt ⟨before, keyword ++ t, captures⟩ = some ⟨some 'f', t, captures⟩ := by
  simp only [elseIfSpellings, List.mem_cons, List.not_mem_nil, or_false] at hkeyword
  rcases hkeyword with rfl | rfl | rfl | rfl <;> cbv

/-- No spelling starts with a blank or a brace. -/
theorem exists_cons_of_mem_elseIfSpellings (hkeyword : keyword ∈ elseIfSpellings) :
    ∃ rest, keyword = 'e' :: rest := by
  simp only [elseIfSpellings, List.mem_cons, List.not_mem_nil, or_false] at hkeyword
  rcases hkeyword with rfl | rfl | rfl | rfl <;> exact ⟨_, rfl⟩

theorem readsKeyword_elseIf (hkeyword : keyword ∈ elseIfSpellings) :
    ReadsKeyword (indent ++ elseIf) keyword := by
  intro t
  have hindent : indent.readAt ⟨none, keyword ++ t, []⟩
      = some ⟨none, keyword ++ t, [⟨.indent, keyword ++ t, keyword ++ t⟩]⟩ := by
    obtain ⟨rest, rfl⟩ := exists_cons_of_mem_elseIfSpellings hkeyword
    rfl
  exact ⟨some 'f', _, readAt_append hindent (readAt_elseIf hkeyword _ _ _), isLead_indent _⟩

theorem readsKeyword_closer_elseIf (hkeyword : keyword ∈ elseIfSpellings) {closer : Text}
    (hcloser : closer = ['}', ' '] ∨ closer = []) :
    ReadsKeyword (indent ++ closer? ++ elseIf) (closer ++ keyword) := by
  intro t
  obtain ⟨rest, hrest⟩ := exists_cons_of_mem_elseIfSpellings hkeyword
  obtain ⟨before, captures, hread, hlead⟩ : ∃ before captures,
      (indent ++ closer?).readAt ⟨none, closer ++ keyword ++ t, []⟩
        = some ⟨before, keyword ++ t, captures⟩ ∧ IsLead captures := by
    rw [hrest]
    rcases hcloser with rfl | rfl
    · exact ⟨some ' ', _, rfl, List.forall_mem_cons.2 ⟨.inr rfl, isLead_indent _⟩⟩
    · exact ⟨none, _, rfl, isLead_indent _⟩
  exact ⟨some 'f', captures, readAt_append hread (readAt_elseIf hkeyword _ _ _), hlead⟩

end Keywords

/-! ## Headers -/

section Headers

variable {language : Language} {category : Category} {kind : Kind} {form : Text → Form}
  {pattern lead tail : Pattern} {skipped others : List Recognizer} {keyword rest cond : Text}

/-- A header is recognized by its keyword and its condition. -/
theorem recognizes_condition
    (hgrammar : language.recognizers category = skipped ++ .line kind pattern :: others)
    (hskipped : ∀ recognizer ∈ skipped, recognizer.recognize language (keyword ++ rest) = .ok none)
    (hpattern : ∀ reading, pattern.readAt reading = (lead ++ tail).readAt reading)
    (hlead : ReadsKeyword lead keyword) (htail : ReadsCondition tail rest cond)
    (hkind : kind.HasCondition form) :
    Recognizes language category (keyword ++ rest) (form cond) := by
  obtain ⟨before, captures, hkeyword, hcaptures⟩ := hlead rest
  obtain ⟨reading, hread, hcond⟩ := htail before captures kind hcaptures
  refine recognizes_of_skipped hgrammar hskipped ?_ (hkind.ofReading hcond language)
  rw [readStart, hpattern]
  exact readAt_append hkeyword hread

/-- What a language writes behind the keyword of a condition. -/
def Language.behindKeyword (cond : Text) : Language → Text
  | .python => [' '] ++ (cond ++ [':'])
  | .ruby => [' '] ++ (cond ++ [])
  | .go | .rust => [' '] ++ (cond ++ [' ', '{'])
  | _ => " (" ++ (cond ++ [')', ' ', '{'])

theorem conditionBlock_eq (language : Language) (keyword cond : Text) :
    language.profile.conditionBlock keyword cond = keyword ++ language.behindKeyword cond := by
  cases language <;>
    simp [Profile.conditionBlock, Profile.block, Profile.parenthesizes, Language.behindKeyword]

theorem recognizes_ifThen (language : Language) (hcond : IsCondition cond)
    (hruby : language = .ruby → ¬EndsInWord "then" cond) :
    Recognizes language .conditionals ("if" ++ language.behindKeyword cond) (.ifThen cond) := by
  have hkind : Kind.ifThen.HasCondition .ifThen := .inl ⟨rfl, rfl⟩
  have hnone (line : Text) : ∀ recognizer ∈ ([] : List Recognizer),
      recognizer.recognize language line = .ok none := List.forall_mem_nil _
  cases language with
  | python =>
    exact recognizes_condition rfl (hnone _) (fun _ ↦ by rfl) readsKeyword_if
      (readsCondition_colon hcond) hkind
  | ruby =>
    exact recognizes_condition rfl (hnone _) (fun _ ↦ by rfl) readsKeyword_if
      (readsCondition_keyword hcond (hruby rfl)) hkind
  | go | rust =>
    exact recognizes_condition rfl (hnone _) (fun _ ↦ by rfl) readsKeyword_if
      (readsCondition_brace hcond hcond.inLine) hkind
  | javascript | typescript | java | cpp | csharp | php =>
    exact recognizes_condition rfl (hnone _) (fun _ ↦ by rfl) readsKeyword_if
      (readsCondition_paren hcond) hkind

theorem elseIfKeyword_mem_elseIfSpellings (language : Language) :
    language.profile.elseIfKeyword ∈ elseIfSpellings := by
  cases language <;> decide

/-- The first branch is not recognized in a further one. -/
theorem recognize_ifThen_eq_none {closer : Text} (hcloser : closer = ['}', ' '] ∨ closer = [])
    (hkeyword : keyword ∈ elseIfSpellings) (tail : Pattern) (language : Language) (t : Text) :
    (Recognizer.line .ifThen (indent ++ "if" ++ tail)).recognize language (closer ++ keyword ++ t)
      = .ok none := by
  obtain ⟨rest, rfl⟩ := exists_cons_of_mem_elseIfSpellings hkeyword
  rcases hcloser with rfl | rfl <;> rfl

/-- A further branch starts with its keyword, or with the end of the block before it where blocks
stand in braces. -/
theorem recognizes_elseIf (language : Language) (hcond : IsCondition cond)
    (hruby : language = .ruby → ¬EndsInWord "then" cond) {closer : Text}
    (hcloser : closer = ['}', ' '] ∧ language.profile.usesBraces ∨ closer = []) :
    Recognizes language .conditionals
      (closer ++ language.profile.elseIfKeyword ++ language.behindKeyword cond)
      (.elseIf cond) := by
  have hkind : Kind.elseIf.HasCondition .elseIf := .inr (.inl ⟨rfl, rfl⟩)
  have hkeyword := elseIfKeyword_mem_elseIfSpellings language
  have hclosed : closer = ['}', ' '] ∨ closer = [] := hcloser.imp_left And.left
  cases language with
  | python =>
    obtain rfl : closer = [] := hcloser.resolve_left fun h ↦ absurd h.2 (by decide)
    exact recognizes_condition rfl (List.forall_mem_singleton.2 (by cbv)) (fun _ ↦ by rfl)
      (readsKeyword_elseIf hkeyword) (readsCondition_colon hcond) hkind
  | ruby =>
    obtain rfl : closer = [] := hcloser.resolve_left fun h ↦ absurd h.2 (by decide)
    exact recognizes_condition rfl
      (List.forall_mem_cons.2 ⟨by cbv, List.forall_mem_singleton.2 (by cbv)⟩) (fun _ ↦ by rfl)
      (readsKeyword_elseIf hkeyword) (readsCondition_keyword hcond (hruby rfl)) hkind
  | go | rust =>
    exact recognizes_condition rfl
      (List.forall_mem_singleton.2 (recognize_ifThen_eq_none hclosed hkeyword _ _ _))
      (fun _ ↦ by rfl) (readsKeyword_closer_elseIf hkeyword hclosed)
      (readsCondition_brace hcond hcond.inLine) hkind
  | javascript | typescript | java | cpp | csharp | php =>
    exact recognizes_condition rfl
      (List.forall_mem_singleton.2 (recognize_ifThen_eq_none hclosed hkeyword _ _ _))
      (fun _ ↦ by rfl) (readsKeyword_closer_elseIf hkeyword hclosed) (readsCondition_paren hcond)
      hkind

/-- The keyword of a loop under a condition. -/
def Language.whileKeyword : Language → Text
  | .go => "for"
  | _ => "while"

/-- Whether a condition cannot be taken for one of the other things that the loops of a language
run over. -/
def IsLoopCondition (language : Language) (cond : Text) : Prop :=
  (language = .ruby → ¬EndsInWord "do" cond)
    ∧ (language = .go → ';' ∉ cond ∧ '{' ∉ cond ∧ ¬(":=" : Text) <:+: cond)

/-- A condition brings the mark that the text around it does not have. -/
theorem infix_of_infix_append {w a b t : Text} {first last : Char} (hfirst : w.head? = some first)
    (hlast : w.getLast? = some last) (ha : first ∉ a) (hb : last ∉ b)
    (h : w <:+: a ++ (t ++ b)) : w <:+: t := by
  have hdrop {w a t : Text} {first : Char} (hfirst : w.head? = some first) (ha : first ∉ a)
      (h : w <:+: a ++ t) : w <:+: t := by
    induction a with
    | nil => exact h
    | cons c a ih =>
      rcases List.infix_cons_iff.1 h with hstart | hinside
      · obtain ⟨w, rfl⟩ := List.head?_eq_some_iff.1 hfirst
        exact absurd (List.cons_prefix_cons.1 hstart).1 (List.ne_of_not_mem_cons ha)
      · exact ih (List.not_mem_of_not_mem_cons ha) hinside
  have hreverse : w.reverse <:+: b.reverse ++ t.reverse := by
    rw [← List.reverse_append]
    exact List.reverse_infix.2 (hdrop hfirst ha h)
  refine List.reverse_infix.1 (hdrop ?_ (by simpa using hb) hreverse)
  rw [List.head?_reverse, hlast]

/-- A loop under a condition is no counted loop and runs over no collection. -/
theorem recognizes_whileLoop_go (hcond : IsCondition cond)
    (hloop : ';' ∉ cond ∧ '{' ∉ cond ∧ ¬(":=" : Text) <:+: cond) :
    Recognizes .go .loops ("for" ++ Language.go.behindKeyword cond) (.whileLoop cond) := by
  obtain ⟨hsemicolon, hbrace, hbind⟩ := hloop
  have hline : "for" ++ Language.go.behindKeyword cond = "for " ++ (cond ++ [' ', '{']) := rfl
  have hcounted : ¬([';'] : Text) <:+: "for" ++ Language.go.behindKeyword cond := by
    rw [hline]
    intro h
    have hinside := infix_of_infix_append rfl rfl (by decide) (by decide) h
    exact hsemicolon (hinside.subset List.mem_cons_self)
  have heach : ¬(":=" : Text) <:+: "for" ++ Language.go.behindKeyword cond := by
    rw [hline]
    exact fun h ↦ hbind (infix_of_infix_append rfl rfl (by decide) (by decide) h)
  have haccepts : ∀ c ∈ cond, noneOf [';', '{'] c := by
    intro c hc
    have hne : c ≠ ';' ∧ c ≠ '{' :=
      ⟨fun heq ↦ hsemicolon (heq ▸ hc), fun heq ↦ hbrace (heq ▸ hc)⟩
    simp [noneOf, hne]
  have hskipped : ∀ recognizer ∈ (Language.go.recognizers .loops).take 2,
      recognizer.recognize .go ("for" ++ Language.go.behindKeyword cond) = .ok none :=
    List.forall_mem_cons.2
      ⟨recognize_line_eq_none (readAt_append_append_eq_none (fun _ ↦ describes_mark.1) hcounted
          (indent ++ "for" ++ blanks1 ++ keep .initial (without [';', '{']))
          (keep .test (without [';', '{']) ++ (';' ++ (keep .update (fewest (.char (noneOf ['{'])))
            ++ (blanks ++ ('{' ++ textEnd)))))) .go,
        List.forall_mem_singleton.2 (recognize_line_eq_none
          (readAt_append_append_eq_none (fun _ ↦ describes_text.1) heach
          (indent ++ "for" ++ blanks1 ++ maybe (word ++ blanks ++ ',' ++ blanks) ++ keep .var word
            ++ blanks)
          (blanks ++ ("range" ++ (blanks1 ++ (keep .iterable little1 ++ (blanks ++ ('{'
            ++ textEnd))))))) .go)⟩
  exact recognizes_condition rfl hskipped (fun _ ↦ by rfl) readsKeyword_for
    (readsCondition_brace hcond haccepts) (.inr (.inr ⟨rfl, rfl⟩))

theorem recognizes_whileLoop (language : Language) (hcond : IsCondition cond)
    (hloop : IsLoopCondition language cond) :
    Recognizes language .loops (language.whileKeyword ++ language.behindKeyword cond)
      (.whileLoop cond) := by
  have hkind : Kind.whileLoop.HasCondition .whileLoop := .inr (.inr ⟨rfl, rfl⟩)
  cases language with
  | python =>
    exact recognizes_condition rfl
      (List.forall_mem_cons.2 ⟨by cbv, List.forall_mem_singleton.2 (by cbv)⟩) (fun _ ↦ by rfl)
      readsKeyword_while (readsCondition_colon hcond) hkind
  | ruby =>
    exact recognizes_condition rfl
      (List.forall_mem_cons.2 ⟨by cbv, List.forall_mem_cons.2 ⟨by cbv, List.forall_mem_cons.2
        ⟨by cbv, List.forall_mem_cons.2 ⟨by cbv, List.forall_mem_singleton.2 (by cbv)⟩⟩⟩⟩)
      (fun _ ↦ by rfl) readsKeyword_while (readsCondition_keyword hcond (hloop.1 rfl)) hkind
  | go => exact recognizes_whileLoop_go hcond (hloop.2 rfl)
  | rust =>
    exact recognizes_condition rfl
      (List.forall_mem_cons.2 ⟨by cbv, List.forall_mem_singleton.2 (by cbv)⟩) (fun _ ↦ by rfl)
      readsKeyword_while (readsCondition_brace hcond hcond.inLine) hkind
  | javascript | typescript | java | cpp | csharp | php =>
    exact recognizes_condition rfl
      (List.forall_mem_cons.2 ⟨by cbv, List.forall_mem_singleton.2 (by cbv)⟩) (fun _ ↦ by rfl)
      readsKeyword_while (readsCondition_paren hcond) hkind

/-! ## Wording and reading -/

/-- Whether a form is recognized in its own wording. -/
def RoundTrips (language : Language) (category : Category) (context : Context) (closes : Bool)
    (form : Form) : Prop :=
  ∃ emission, form.emit context closes = .ok (emission, context)
    ∧ Recognizes language category emission.text form

theorem closing_eq (context : Context) (closes : Bool) :
    closing context closes = ['}', ' '] ∧ context.target.usesBraces ∨ closing context closes = [] := by
  rw [closing]
  split
  · rename_i h
    exact .inl ⟨rfl, (Bool.and_eq_true_iff.1 h).1⟩
  · exact .inr rfl

theorem whileLoop_text (language : Language) (hcond : IsCondition cond) :
    (Emission.whileLoop language.profile cond).text
      = language.whileKeyword ++ language.behindKeyword cond := by
  have hfilled : orElse cond language.profile.trueLiteral = cond := by
    simp [orElse, hcond.ne_nil]
  rw [Emission.whileLoop, hfilled, Language.language_profile]
  by_cases hgo : language = .go
  · simp [hgo, Language.whileKeyword, Language.behindKeyword]
  · have hkeyword : language.whileKeyword = "while" := by
      cases language with
      | go => exact absurd rfl hgo
      | _ => rfl
    rw [if_neg hgo, hkeyword, ← conditionBlock_eq]

/-- The headers that a language writes for a condition are recognized with this condition: those of
a first and of a further branch, and that of a loop. -/
theorem emitted_condition_recognized (language : Language) {context : Context}
    (htarget : context.target = language.profile) (closes : Bool) (hcond : IsCondition cond)
    (hthen : language = .ruby → ¬EndsInWord "then" cond) :
    RoundTrips language .conditionals context closes (.ifThen cond)
    ∧ RoundTrips language .conditionals context closes (.elseIf cond)
    ∧ (IsLoopCondition language cond →
      RoundTrips language .loops context closes (.whileLoop cond)) := by
  refine ⟨⟨_, rfl, ?_⟩, ⟨_, rfl, ?_⟩, fun hloop ↦ ⟨_, rfl, ?_⟩⟩
  · rw [htarget, conditionBlock_eq]
    exact recognizes_ifThen language hcond hthen
  · have hclosing := closing_eq context closes
    rw [htarget] at hclosing ⊢
    rw [conditionBlock_eq, ← List.append_assoc]
    exact recognizes_elseIf language hcond hthen hclosing
  · rw [htarget, whileLoop_text language hcond]
    exact recognizes_whileLoop language hcond hloop

/-- Brackets, quotes, colons and braces in a condition do not end it. -/
theorem emitted_condition_recognized_mapping :
    ∃ cond, cond = "m[\"):\"] == " ++ ['{', '}'] ∧ IsCondition cond ∧ IsLoopCondition .python cond
      ∧ RoundTrips .python .conditionals (.start .java .python) true (.ifThen cond)
      ∧ RoundTrips .python .conditionals (.start .java .python) true (.elseIf cond)
      ∧ RoundTrips .python .loops (.start .java .python) true (.whileLoop cond) := by
  have hcond : IsCondition ("m[\"):\"] == " ++ ['{', '}']) :=
    ⟨by simp, by cbv, by simp, by cbv, by cbv⟩
  have hloop : IsLoopCondition .python ("m[\"):\"] == " ++ ['{', '}']) := by
    constructor <;> exact fun h ↦ absurd h (by decide)
  have htarget : (Context.start .java .python).target = Language.python.profile := rfl
  have h := emitted_condition_recognized .python htarget true hcond fun h ↦ absurd h (by decide)
  exact ⟨_, rfl, hcond, hloop, h.1, h.2.1, h.2.2 hloop⟩

end Headers

end Recast
