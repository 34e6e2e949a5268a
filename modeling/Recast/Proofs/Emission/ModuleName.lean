import Recast.Emission.Import
import Recast.Proofs.Language.Profile
import Recast.Proofs.Pattern.Piecewise
import Recast.Proofs.Text.Characters
import Recast.Proofs.Text.Name

/-!
# The names of modules

A module is named by its components, which every language writes behind one another with a
separator of its own.  A path is taken apart at any of the separators, so it does not matter for
which language it was written.  Before that a file extension is removed.  In a path with dots the
last component may be taken for one, and then it is lost; this is the only way in which a name is
changed by writing and reading it.
-/

namespace Recast

open Text

/-! ## Splitting what was joined -/

namespace Pattern

variable {p : Pattern} {before : Option Char} {separator piece u t : Text}

theorem splitFrom_skip (p : Pattern) (piece u t : Text) (before : Option Char) :
    p.splitFrom piece u.length before (u ++ t) = p.splitFrom piece 0 (endOf before u) t := by
  induction u generalizing before with
  | nil => rfl
  | cons c u ih =>
    rw [endOf_cons, ← ih]
    rfl

theorem splitFrom_piece (hu : ∀ c ∈ u, ∀ before t, p.readAt ⟨before, c :: t, []⟩ = none) :
    p.splitFrom piece 0 before (u ++ t)
      = p.splitFrom (u.reverse ++ piece) 0 (endOf before u) t := by
  induction u generalizing before piece with
  | nil => rfl
  | cons c u ih =>
    obtain ⟨hc, hu⟩ := List.forall_mem_cons.1 hu
    rw [List.cons_append, splitFrom, hc before (u ++ t)]
    simp only
    rw [ih hu, endOf_cons, List.reverse_cons, List.append_assoc, List.singleton_append]

theorem splitFrom_separator (hne : separator ≠ [])
    (hread : p.readAt ⟨before, separator ++ t, []⟩ = some ⟨endOf before separator, t, []⟩) :
    p.splitFrom piece 0 before (separator ++ t)
      = piece.reverse :: p.splitFrom [] 0 (endOf before separator) t := by
  obtain ⟨c, u, rfl⟩ := List.exists_cons_of_ne_nil hne
  rw [List.cons_append] at hread ⊢
  rw [splitFrom, hread]
  simp only
  rw [List.length_append, Nat.add_sub_cancel, splitFrom_skip, endOf_cons]

/-- What was joined is split again at the separator, if the pattern describes the separator and
nothing in the pieces. -/
theorem split_joinWith {pieces : List Text} (hpieces : pieces ≠ []) (hne : separator ≠ [])
    (hseparator : ∀ before t, p.readAt ⟨before, separator ++ t, []⟩
      = some ⟨endOf before separator, t, []⟩)
    (hnone : ∀ piece ∈ pieces, ∀ c ∈ piece, ∀ before t, p.readAt ⟨before, c :: t, []⟩ = none) :
    p.split (joinWith separator pieces) = pieces := by
  have hfrom (before : Option Char) :
      p.splitFrom [] 0 before (joinWith separator pieces) = pieces := by
    induction pieces generalizing before with
    | nil => exact absurd rfl hpieces
    | cons first others ih =>
      obtain ⟨hfirst, hothers⟩ := List.forall_mem_cons.1 hnone
      cases others with
      | nil =>
        have hread : p.splitFrom [] 0 before (first ++ [])
            = p.splitFrom (first.reverse ++ []) 0 (endOf before first) [] :=
          splitFrom_piece hfirst
        simpa [joinWith, splitFrom] using hread
      | cons second others =>
        rw [joinWith, List.intercalate_cons_cons, List.append_assoc, splitFrom_piece hfirst,
          splitFrom_separator hne (hseparator _ _)]
        have hrest := ih (List.cons_ne_nil _ _) hothers
        rw [joinWith] at hrest
        rw [hrest]
        simp
  exact hfrom none

end Pattern

theorem joinWith_concat {pieces : List Text} (hne : pieces ≠ []) (separator last : Text) :
    joinWith separator (pieces ++ [last]) = joinWith separator pieces ++ (separator ++ last) := by
  induction pieces with
  | nil => exact absurd rfl hne
  | cons first others ih =>
    cases others with
    | nil => simp [joinWith, List.intercalate_cons_cons]
    | cons second others =>
      have hothers := ih (List.cons_ne_nil _ _)
      simp only [joinWith, List.cons_append, List.intercalate_cons_cons, List.append_assoc]
        at hothers ⊢
      rw [hothers]

/-! ## Names of modules -/

/-- What a language writes between the components of a path. -/
def Language.pathSeparator (language : Language) : Text :=
  (Emission.pathSeparator? language).getD []

theorem pathSeparator?_eq (language : Language) :
    Emission.pathSeparator? language = some language.pathSeparator := by
  cases language <;> rfl

/-- The name of a module: one or more names, from the outermost to the innermost. -/
structure ModuleName where
  components : List Text
  ne_nil : components ≠ []
  isName_of_mem : ∀ component ∈ components, isName component

namespace ModuleName

variable (module : ModuleName) {separator : Text} {c : Char}

/-- The name with a separator between its components. -/
def write (separator : Text) : Text :=
  joinWith separator module.components

/-- The innermost component. -/
def last : Text :=
  module.components.getLast module.ne_nil

/-- The components that look like a file extension at the end of a path with dots. -/
def extensions : List Text :=
  ["php", "rb", "js", "ts", "h", "hpp"]

/-- Whether the last of several components looks like a file extension. -/
def endsInExtension : Bool :=
  1 < module.components.length && extensions.contains module.last

/-- The name without a last component that looks like a file extension. -/
def withoutExtension : ModuleName :=
  if h : module.endsInExtension then
    { components := module.components.dropLast
      ne_nil := by
        rw [endsInExtension, Bool.and_eq_true, decide_eq_true_iff] at h
        rw [← List.length_pos_iff, List.length_dropLast]
        omega
      isName_of_mem := fun component hcomponent ↦
        module.isName_of_mem component (List.dropLast_subset _ hcomponent) }
  else module

/-- The name that is read where the name was written with a separator. -/
def reread (separator : Text) : ModuleName :=
  if separator = "." then module.withoutExtension else module

theorem withoutExtension_of_not_endsInExtension (h : module.endsInExtension = false) :
    module.withoutExtension = module :=
  dif_neg (by simp [h])

theorem components_withoutExtension (h : module.endsInExtension) :
    module.withoutExtension.components = module.components.dropLast := by
  rw [withoutExtension, dif_pos h]

theorem length_withoutExtension_le :
    module.withoutExtension.components.length ≤ module.components.length := by
  cases h : module.endsInExtension with
  | false => rw [module.withoutExtension_of_not_endsInExtension h]
  | true =>
    rw [module.components_withoutExtension h, List.length_dropLast]
    omega

theorem length_reread_le (separator : Text) :
    (module.reread separator).components.length ≤ module.components.length := by
  rw [reread]
  split
  · exact module.length_withoutExtension_le
  · exact le_rfl

/-! ## The characters of a written name -/

theorem isName_last : isName module.last :=
  module.isName_of_mem _ (List.getLast_mem module.ne_nil)

theorem isNameChar_or_mem_of_mem_write (hc : c ∈ module.write separator) :
    isNameChar c ∨ c ∈ separator := by
  rcases mem_of_mem_joinWith hc with h | ⟨component, hcomponent, h⟩
  · exact .inr h
  · exact .inl (isNameChar_of_mem (module.isName_of_mem component hcomponent) h)

theorem exists_write_eq (separator : Text) :
    ∃ name rest, isName name ∧ module.write separator = name ++ rest := by
  obtain ⟨components, hne, hnames⟩ := module
  obtain ⟨first, others, rfl⟩ := List.exists_cons_of_ne_nil hne
  have hfirst := hnames first List.mem_cons_self
  cases others with
  | nil => exact ⟨first, [], hfirst, by simp [write, joinWith]⟩
  | cons second others =>
    refine ⟨first, separator ++ joinWith separator (second :: others), hfirst, ?_⟩
    rw [write, joinWith, List.intercalate_cons_cons, List.append_assoc]
    rfl

theorem write_ne_nil (separator : Text) : module.write separator ≠ [] := by
  obtain ⟨name, rest, hname, hwrite⟩ := module.exists_write_eq separator
  simp [hwrite, ne_nil_of_isName hname]

/-- A class with the characters of names and of the separator has those of written names. -/
theorem accepts_of_mem_write {accepts : Char → Bool} (hname : ∀ c, isNameChar c → accepts c)
    (hseparator : separator.all accepts) : ∀ c ∈ module.write separator, accepts c := by
  intro c hc
  rcases module.isNameChar_or_mem_of_mem_write hc with h | h
  · exact hname c h
  · exact List.all_eq_true.1 hseparator c h

theorem notMem_write (hname : isNameChar c = false) (hseparator : c ∉ separator) :
    c ∉ module.write separator := by
  intro hc
  rcases module.isNameChar_or_mem_of_mem_write hc with h | h
  · exact absurd h (by simp [hname])
  · exact hseparator h

theorem write_eq_last (h : ¬1 < module.components.length) (separator : Text) :
    module.write separator = module.last := by
  obtain ⟨component, hcomponents⟩ : ∃ component, module.components = [component] := by
    rw [← List.length_eq_one_iff]
    have hpos := List.length_pos_iff.2 module.ne_nil
    omega
  simp [write, last, joinWith, hcomponents]

/-- The innermost of several components stands at the end, behind the separator. -/
theorem write_eq_append (h : 1 < module.components.length) (separator : Text) :
    module.write separator
      = joinWith separator module.components.dropLast ++ (separator ++ module.last) := by
  have hsplit := List.dropLast_concat_getLast module.ne_nil
  have hne : module.components.dropLast ≠ [] := by
    rw [← List.length_pos_iff, List.length_dropLast]
    omega
  rw [write, last, ← joinWith_concat hne, hsplit]

/-- No end of a written name is blank. -/
theorem trim_write (hseparator : separator.any isBlank = false) :
    trim (module.write separator) = module.write separator := by
  have hblank (c : Char) (hc : c ∈ module.write separator) : isBlank c = false := by
    rcases module.isNameChar_or_mem_of_mem_write hc with h | h
    · exact isBlank_of_isNameChar h
    · exact Bool.eq_false_of_not_eq_true (List.any_eq_false.1 hseparator c h)
  exact trim_eq_self (fun c hc ↦ hblank c (List.mem_of_head? hc))
    fun c hc ↦ hblank c (List.mem_of_getLast? hc)

/-! ## File extensions -/

theorem endsWith_write_dot {extension : Text} (hdot : '.' ∉ extension) :
    endsWith (module.write ".") ('.' :: extension)
      ↔ 1 < module.components.length ∧ extension = module.last := by
  have hlast : '.' ∉ module.last := notMem_of_isName module.isName_last rfl
  rw [endsWith, List.isSuffixOf_iff_suffix]
  by_cases hlength : 1 < module.components.length
  · have hsuffix : '.' :: module.last <:+ module.write "." := by
      rw [module.write_eq_append hlength]
      exact List.suffix_append _ _
    have hcut {u v : Text} (hv : '.' ∉ v) (h : '.' :: u <:+ '.' :: v) : u = v := by
      rcases List.suffix_cons_iff.1 h with h | h
      · exact (List.cons.inj h).2
      · exact absurd (h.subset List.mem_cons_self) hv
    constructor
    · intro h
      rcases List.suffix_or_suffix_of_suffix h hsuffix with h | h
      · exact ⟨hlength, hcut hlast h⟩
      · exact ⟨hlength, (hcut hdot h).symm⟩
    · rintro ⟨-, rfl⟩
      exact hsuffix
  · rw [module.write_eq_last hlength]
    constructor
    · intro h
      exact absurd (h.subset List.mem_cons_self) hlast
    · rintro ⟨h, -⟩
      exact absurd h hlength

/-- A written name ends in a file extension exactly if its last component looks like one. -/
theorem endsWith_extension_iff {extension : Text} (h : extension ∈ Emission.moduleExtensions) :
    endsWith (module.write ".") extension
      ↔ module.endsInExtension ∧ extension = '.' :: module.last := by
  have hextensions : Emission.moduleExtensions = extensions.map ('.' :: ·) := rfl
  rw [hextensions, List.mem_map] at h
  obtain ⟨extension, hmem, rfl⟩ := h
  have hdot : ∀ extension ∈ extensions, '.' ∉ extension := by decide
  rw [module.endsWith_write_dot (hdot extension hmem), endsInExtension, Bool.and_eq_true,
    decide_eq_true_iff, List.contains_iff_mem, List.cons_inj_right]
  constructor
  · rintro ⟨hlength, rfl⟩
    exact ⟨⟨hlength, hmem⟩, rfl⟩
  · rintro ⟨⟨hlength, -⟩, h⟩
    exact ⟨hlength, h⟩

theorem dropExtension_write_dot :
    Emission.dropExtension (module.write ".") = module.withoutExtension.write "." := by
  rw [Emission.dropExtension]
  split
  · rename_i extension hfind
    obtain ⟨hends, rfl⟩ := (module.endsWith_extension_iff (List.mem_of_find?_eq_some hfind)).1
      (List.find?_some hfind)
    have hlength : 1 < module.components.length :=
      of_decide_eq_true (Bool.and_eq_true_iff.1 hends).1
    rw [module.write_eq_append hlength, write, module.components_withoutExtension hends]
    exact List.take_left' (by simp)
  · rename_i hfind
    rw [module.withoutExtension_of_not_endsInExtension]
    rw [← Bool.not_eq_true]
    intro hends
    have hmem : '.' :: module.last ∈ Emission.moduleExtensions :=
      List.mem_map_of_mem (List.contains_iff_mem.1 (Bool.and_eq_true_iff.1 hends).2)
    exact List.find?_eq_none.1 hfind _ hmem
      ((module.endsWith_extension_iff hmem).2 ⟨hends, rfl⟩)

/-- A path without dots has no file extension. -/
theorem dropExtension_of_notMem {path : Text} (h : '.' ∉ path) :
    Emission.dropExtension path = path := by
  have hdot : ∀ extension ∈ Emission.moduleExtensions, '.' ∈ extension := by decide
  have hfind : Emission.moduleExtensions.find? (endsWith path ·) = none := by
    rw [List.find?_eq_none]
    intro extension hmem hends
    exact h ((List.isSuffixOf_iff_suffix.1 hends).subset (hdot extension hmem))
  rw [Emission.dropExtension, hfind]

theorem dropExtension_write (hseparator : separator = "." ∨ '.' ∉ separator) :
    Emission.dropExtension (module.write separator)
      = (module.reread separator).write separator := by
  rcases hseparator with rfl | hdot
  · exact module.dropExtension_write_dot
  · have hne : separator ≠ "." := by
      rintro rfl
      exact hdot List.mem_cons_self
    rw [reread, if_neg hne]
    exact dropExtension_of_notMem (module.notMem_write rfl hdot)

/-! ## Taking a path apart -/

theorem readAt_anySeparator_eq_none {before : Option Char} {t : Text} (hc : isNameChar c) :
    Emission.anySeparator.readAt ⟨before, c :: t, []⟩ = none := by
  have hne (mark : Char) (hmark : isNameChar mark = false) : (c == mark) = false := by
    simpa using ne_of_isNameChar hc hmark
  have hcolon := hne ':' rfl
  have hback := hne '\\' rfl
  have hslash := hne '/' rfl
  have hdot := hne '.' rfl
  simp [Emission.anySeparator, Pattern.anyOf, Pattern.readAt, Pattern.run, Pattern.text, *]

/-- A path is taken apart at the separator of any language. -/
theorem split_write (language : Language) :
    Emission.anySeparator.split (module.write language.pathSeparator) = module.components := by
  apply Pattern.split_joinWith module.ne_nil
  · cases language <;> decide
  · intro before t
    cases language <;> rfl
  · intro component hcomponent c hc before t
    exact readAt_anySeparator_eq_none
      (isNameChar_of_mem (module.isName_of_mem component hcomponent) hc)

theorem pathComponents_write (language : Language) :
    Emission.pathComponents (module.write language.pathSeparator)
      = (module.reread language.pathSeparator).components := by
  have hblank : language.pathSeparator.any isBlank = false := by
    cases language <;> decide
  have hdot : language.pathSeparator = "." ∨ '.' ∉ language.pathSeparator := by
    cases language <;> decide
  have hfilled : (module.reread language.pathSeparator).components.filter (!·.isEmpty)
      = (module.reread language.pathSeparator).components := by
    rw [List.filter_eq_self]
    intro component hcomponent
    simpa using ne_nil_of_isName (isName_of_mem _ component hcomponent)
  rw [Emission.pathComponents, module.trim_write hblank, module.dropExtension_write hdot,
    split_write, hfilled]

/-- Different names are written differently. -/
theorem components_eq_of_write_eq {module other : ModuleName}
    (h : module.write "." = other.write ".") : module.components = other.components := by
  have hmodule := module.split_write .python
  have hother := other.split_write .python
  calc module.components = Emission.anySeparator.split (module.write ".") := hmodule.symm
    _ = Emission.anySeparator.split (other.write ".") := by rw [h]
    _ = other.components := hother

theorem lastComponent_write {separators : Text} (hmem : c ∈ separators)
    (hnames : separators.any isNameChar = false) :
    Emission.lastComponent separators (module.write [c]) = module.last := by
  have hsplit : (Pattern.char (Pattern.oneOf separators)).split (module.write [c])
      = module.components := by
    apply Pattern.split_joinWith module.ne_nil (List.cons_ne_nil _ _)
    · intro before t
      exact if_pos (List.contains_iff_mem.2 hmem)
    · intro component hcomponent d hd before t
      have hname := isNameChar_of_mem (module.isName_of_mem component hcomponent) hd
      refine if_neg fun hd ↦ ?_
      exact List.any_eq_false.1 hnames d (List.contains_iff_mem.1 hd) hname
  rw [Emission.lastComponent, hsplit, List.getLast?_eq_some_getLast module.ne_nil]
  rfl

/-! ## The path in a target language -/

theorem isRelative_write (separator : Text) :
    Emission.isRelative (module.write separator) = false := by
  obtain ⟨name, rest, hname, hwrite⟩ := module.exists_write_eq separator
  cases name with
  | nil => exact absurd hname Bool.false_ne_true
  | cons c name =>
    have hc := ne_of_isNameChar (isNameChar_of_mem hname List.mem_cons_self)
      (rfl : isNameChar '.' = false)
    simp [Emission.isRelative, hwrite, startsWithAny, startsWith, List.isPrefixOf, hc.symm]

/-- What is written for one language is written again for another, but for the extension. -/
theorem modulePath_write (kind : Kind) (source target : Language) :
    Emission.modulePath kind target.profile (module.write source.pathSeparator)
      = .ok ((module.reread source.pathSeparator).write target.pathSeparator) := by
  rw [Emission.modulePath, Language.language_profile, pathSeparator?_eq, pathComponents_write,
    isRelative_write]
  cases target <;> rfl

/-- A name is read back as it was exactly if its end does not look like a file extension. -/
theorem write_reread_withoutExtension_eq_iff (separator : Text) :
    (module.withoutExtension.reread separator).write "." = module.write "."
      ↔ module.endsInExtension = false := by
  constructor
  · intro h
    rw [← Bool.not_eq_true]
    intro hends
    have hlength := congrArg List.length (components_eq_of_write_eq h)
    have hle := module.withoutExtension.length_reread_le separator
    have hpos := List.length_pos_iff.2 module.ne_nil
    rw [module.components_withoutExtension hends, List.length_dropLast] at hle
    omega
  · intro h
    have hsame := module.withoutExtension_of_not_endsInExtension h
    rw [hsame, reread]
    split
    · rw [hsame]
    · rfl

end ModuleName

end Recast
