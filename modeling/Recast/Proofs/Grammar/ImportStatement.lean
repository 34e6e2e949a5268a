import Recast.Proofs.Emission.ModuleName
import Recast.Proofs.Grammar.FunctionHeader
import Recast.Proofs.Pattern.Lazy

/-!
# Reading the import of a module

For each language, the import of a whole module in the wording of that language is taken apart by
the first recognizer for imports that accepts it.  The path is kept as it was written.
-/

namespace Recast

open Pattern Text

/-! ## The path in its statement -/

section Path

variable {language : Language} {line rest separator : Text} {accepts : Char → Bool}
  {before : Option Char} {captures : List Capture} {module : ModuleName}
  {others : List Recognizer} {pattern head tail : Pattern} {localName : Option Text}

theorem wordOr_of_isNameChar {chars : Text} (c : Char) (hc : isNameChar c) : wordOr chars c := by
  simp [wordOr, isWord_of_isNameChar hc]

theorem readAt_blanks1_path (module : ModuleName) (separator rest : Text) :
    blanks1.readAt ⟨before, ' ' :: (module.write separator ++ rest), captures⟩
      = some ⟨some ' ', module.write separator ++ rest, captures⟩ := by
  obtain ⟨name, others, hname, hwrite⟩ := module.exists_write_eq separator
  rw [hwrite, List.append_assoc]
  exact readAt_blanks1_name hname

/-- A line without a mark that the pattern has to read is passed over. -/
theorem recognize_line_of_notMem {kind : Kind} {mark : Char} (hmark : mark ∉ line)
    (head tail : Pattern)
    (hpattern : ∀ reading, pattern.readAt reading
      = (head ++ Pattern.char (· == mark) ++ tail).readAt reading) :
    (Recognizer.line kind pattern).recognize language line = .ok none := by
  apply recognize_line_eq_none
  rw [readStart, hpattern]
  apply readAt_append_append_eq_none fun _ ↦ describes_mark.1
  rintro ⟨u, v, rfl⟩
  simp at hmark

/-- A statement whose path and what follows it have been read. -/
theorem recognizes_importModule (skipped : List Recognizer) {path : Text} {after : Option Char}
    (hgrammar : language.recognizers .imports
      = skipped ++ .line .importModule pattern :: others)
    (hskipped : ∀ recognizer ∈ skipped, recognizer.recognize language line = .ok none)
    (hhead : head.readAt ⟨none, line, []⟩ = some ⟨before, path ++ rest, captures⟩)
    (htail : tail.readAt ⟨before, path ++ rest, captures⟩
      = some ⟨after, [], ⟨.module, path ++ rest, rest⟩ :: captures⟩)
    (hlocal : (captures.find? (·.slot = .localName)).map Capture.text = localName)
    (hpattern : ∀ reading, pattern.readAt reading = (head ++ tail).readAt reading) :
    Recognizes language .imports line (.importModule path localName) := by
  refine recognizes_of_skipped hgrammar hskipped
    ((hpattern _).trans (readAt_append hhead htail)) ?_
  simp [Form.ofReading, Reading.require, Reading.get?, hlocal, bind, Except.bind, pure,
    Except.pure]

/-- A statement in which something stands behind the path that cannot belong to it. -/
theorem recognizes_path (skipped : List Recognizer) (accepts : Char → Bool) (tail : Pattern)
    (hgrammar : language.recognizers .imports
      = skipped ++ .line .importModule pattern :: others)
    (hskipped : ∀ recognizer ∈ skipped, recognizer.recognize language line = .ok none)
    (hhead : head.readAt ⟨none, line, []⟩
      = some ⟨before, module.write separator ++ rest, captures⟩)
    (hpath : ∀ c ∈ module.write separator, accepts c)
    (hrest : ∀ c ∈ rest.head?, accepts c = false)
    (htail : ∀ before captures, ∃ after,
      tail.readAt ⟨before, rest, captures⟩ = some ⟨after, [], captures⟩)
    (hlocal : (captures.find? (·.slot = .localName)).map Capture.text = localName)
    (hpattern : ∀ reading, pattern.readAt reading
      = (head ++ (keep .module (most1 (.char accepts)) ++ tail)).readAt reading) :
    Recognizes language .imports line (.importModule (module.write separator) localName) := by
  obtain ⟨after, htail⟩ := htail (endOf before (module.write separator))
    (⟨.module, module.write separator ++ rest, rest⟩ :: captures)
  have hread : (keep .module (most1 (.char accepts)) ++ tail).readAt
        ⟨before, module.write separator ++ rest, captures⟩
      = some ⟨after, [], ⟨.module, module.write separator ++ rest, rest⟩ :: captures⟩ :=
    readAt_append
      (readAt_keep (readAt_most1_char hpath (module.write_ne_nil separator) hrest)) htail
  exact recognizes_importModule skipped hgrammar hskipped hhead hread hlocal hpattern

end Path

/-! ## The languages -/

section Languages

variable {module : ModuleName} {line : Text}

theorem readAt_import (t : Text) :
    (Grammar.indent ++ "import").readAt ⟨none, "import " ++ t, []⟩
      = some ⟨some 't', ' ' :: t, [⟨.indent, "import " ++ t, "import " ++ t⟩]⟩ := by
  cbv

theorem recognizes_python_import (hline : line = "import " ++ module.write ".") :
    Recognizes .python .imports line (.importModule (module.write ".") none) := by
  rw [← List.append_nil (module.write ".")] at hline
  subst hline
  refine recognizes_path [_] (wordOr ".")
    (maybe (blanks1 ++ "as" ++ blanks1 ++ keep .localName word) ++ textEnd) rfl ?_
    (readAt_append (readAt_import _) (readAt_blanks1_path module "." []))
    (module.accepts_of_mem_write wordOr_of_isNameChar rfl) (by simp) (fun _ _ ↦ ⟨_, rfl⟩) rfl
    (fun _ ↦ rfl)
  simp only [List.mem_singleton, forall_eq]
  apply recognize_line_eq_none
  generalize module.write "." ++ [] = t
  cbv

theorem recognizes_script_import {language : Language} {name : Text}
    (hscript : language.grammar = Grammar.script) (hname : isName name)
    (hline : line = "import " ++ (name ++ (" from '" ++ (module.write "/" ++ "'")))) :
    Recognizes language .imports line (.importModule (module.write "/") (some name)) := by
  have hbrace : '{' ∉ line := by
    have hwritten : '{' ∉ module.write ['/'] := module.notMem_write rfl (by decide)
    have hcalled : '{' ∉ name := notMem_of_isName hname rfl
    simp [hline, hcalled, hwritten]
  have hgrammar : language.recognizers .imports = Grammar.script.recognizers .imports := by
    rw [Language.recognizers, hscript]
  have hall (t : Text) (captures : List Capture) :
      (maybe ('*' ++ blanks1 ++ "as" ++ blanks1)).readAt ⟨some ' ', name ++ t, captures⟩
        = some ⟨some ' ', name ++ t, captures⟩ := by
    apply readAt_maybe_of_none
    simp only [readAt_append_assoc]
    exact readAt_append_eq_none (readAt_mark_name hname rfl) _
  have hcalled (t : Text) (captures : List Capture) :
      (keep .localName word).readAt ⟨some ' ', name ++ (" from '" ++ t), captures⟩
        = some ⟨endOf (some ' ') name, " from '" ++ t,
            ⟨.localName, name ++ (" from '" ++ t), " from '" ++ t⟩ :: captures⟩ :=
    readAt_keep (readAt_word hname (by rintro c ⟨⟩; rfl))
  have hfrom (before : Option Char) (t : Text) (captures : List Capture) :
      (blanks1 ++ "from" ++ blanks ++ Grammar.quote).readAt ⟨before, " from '" ++ t, captures⟩
        = some ⟨some '\'', t, captures⟩ := by
    cbv
  subst hline
  have hopen := readAt_append (readAt_append (readAt_import _) (readAt_blanks1_name hname))
    (hall (" from '" ++ (module.write "/" ++ "'")) _)
  have hhead := readAt_append (readAt_append hopen (hcalled _ _)) (hfrom _ _ _)
  refine recognizes_path [_] (noneOf ['\'', '"'])
    (Grammar.quote ++ blanks ++ Grammar.terminator?) hgrammar ?_ hhead
    (module.accepts_of_mem_write (noneOf_of_isNameChar rfl) rfl) (by rintro c ⟨⟩; rfl)
    (fun _ _ ↦ ⟨_, rfl⟩) (by simp) (fun _ ↦ rfl)
  simp only [List.mem_singleton, forall_eq]
  exact recognize_line_of_notMem hbrace (Grammar.indent ++ "import" ++ blanks)
    (blanks ++ keep .names (Grammar.without ['}']) ++ '}' ++ blanks ++ "from" ++ blanks
      ++ Grammar.quotedModule ++ blanks ++ Grammar.terminator?) fun _ ↦ rfl

/-- No modifier stands in front of a path. -/
theorem readAt_static_path {rest : Text} {before : Option Char} {captures : List Capture}
    (hrest : rest.any isBlank = false) :
    (maybe (Grammar.modifier ["static"])).readAt ⟨before, module.write "." ++ rest, captures⟩
      = some ⟨before, module.write "." ++ rest, captures⟩ := by
  apply readAt_maybe_of_none
  apply readAt_append_most1_char_eq_none
  intro c hc
  rcases List.mem_append.1 hc with hc | hc
  · rcases module.isNameChar_or_mem_of_mem_write hc with hname | hdot
    · exact isBlank_of_isNameChar hname
    · rw [List.mem_singleton.1 hdot]
      rfl
  · exact Bool.eq_false_of_not_eq_true (List.any_eq_false.1 hrest c hc)

theorem recognizes_java_import
    (hline : line = "import " ++ (module.write "." ++ ['.', '*', ';'])) :
    Recognizes .java .imports line (.importModule (module.write ".") none) := by
  subst hline
  have hhead := readAt_append
    (readAt_append (readAt_import _) (readAt_blanks1_path module "." ['.', '*', ';']))
    (readAt_static_path rfl)
  have hpath : ∀ c ∈ module.write ".", wordOr "." c :=
    module.accepts_of_mem_write wordOr_of_isNameChar rfl
  have htail (captures : List Capture) :
      ("*" ++ blanks ++ Grammar.terminator?).readAt ⟨some '.', ['*', ';'], captures⟩
        = some ⟨some ';', [], captures⟩ := rfl
  -- The path is read with the dot behind it at first, and has to give it back.
  have hread (captures : List Capture) := readAt_append
    (readAt_keep_most1_mark .module (some ' ') captures hpath (module.write_ne_nil ".")
      (by decide)) (htail _)
  exact recognizes_importModule [] rfl (List.forall_mem_nil _) hhead (hread _) rfl fun _ ↦ rfl

theorem recognizes_csharp_import (hline : line = "using " ++ (module.write "." ++ ";")) :
    Recognizes .csharp .imports line (.importModule (module.write ".") none) := by
  have hlead (t : Text) : (Grammar.indent ++ "using").readAt ⟨none, "using " ++ t, []⟩
      = some ⟨some 'g', ' ' :: t, [⟨.indent, "using " ++ t, "using " ++ t⟩]⟩ := by
    cbv
  subst hline
  have hhead := readAt_append (readAt_append (hlead _) (readAt_blanks1_path module "." ";"))
    (readAt_static_path rfl)
  exact recognizes_path [] (wordOr ".") (blanks ++ Grammar.terminator?) rfl
    (List.forall_mem_nil _) hhead (module.accepts_of_mem_write wordOr_of_isNameChar rfl)
    (by rintro c ⟨⟩; rfl) (fun _ _ ↦ ⟨_, rfl⟩) rfl fun _ ↦ rfl

theorem recognizes_cpp_import (hline : line = "#include <" ++ (module.write "/" ++ ">")) :
    Recognizes .cpp .imports line (.importModule (module.write "/") none) := by
  have hlead (t : Text) :
      (Grammar.indent ++ "#include" ++ blanks ++ .char (oneOf ['<', '"'])).readAt
          ⟨none, "#include <" ++ t, []⟩
        = some ⟨some '<', t, [⟨.indent, "#include <" ++ t, "#include <" ++ t⟩]⟩ := by
    cbv
  subst hline
  refine recognizes_path [] (noneOf ['>', '"']) (.char (oneOf ['>', '"']) ++ textEnd) rfl
    (List.forall_mem_nil _) (hlead _)
    (module.accepts_of_mem_write (noneOf_of_isNameChar rfl) rfl)
    (by rintro c ⟨⟩; rfl) (fun _ _ ↦ ⟨_, rfl⟩) rfl fun _ ↦ ?_
  simp only [readAt_append_assoc]
  rfl

theorem recognizes_go_import (hline : line = "import \"" ++ (module.write "/" ++ "\"")) :
    Recognizes .go .imports line (.importModule (module.write "/") none) := by
  have hlead (t : Text) :
      (Grammar.indent ++ "import" ++ blanks1 ++ maybe (keep .localName word ++ blanks1)
            ++ '"').readAt ⟨none, "import \"" ++ t, []⟩
        = some ⟨some '"', t, [⟨.indent, "import \"" ++ t, "import \"" ++ t⟩]⟩ := by
    cbv
  subst hline
  exact recognizes_path [] (noneOf ['"']) ('"' ++ textEnd) rfl (List.forall_mem_nil _) (hlead _)
    (module.accepts_of_mem_write (noneOf_of_isNameChar rfl) rfl)
    (by rintro c ⟨⟩; rfl) (fun _ _ ↦ ⟨_, rfl⟩) rfl fun _ ↦ rfl

theorem recognizes_rust_import (hline : line = "use " ++ (module.write "::" ++ ";")) :
    Recognizes .rust .imports line (.importModule (module.write "::") none) := by
  have hbrace : '{' ∉ line := by
    have hwritten : '{' ∉ module.write [':', ':'] := module.notMem_write rfl (by decide)
    simp [hline, hwritten]
  have hlead (t : Text) : (Grammar.indent ++ "use").readAt ⟨none, "use " ++ t, []⟩
      = some ⟨some 'e', ' ' :: t, [⟨.indent, "use " ++ t, "use " ++ t⟩]⟩ := by
    cbv
  subst hline
  refine recognizes_path [_] (wordOr ":") (blanks ++ Grammar.terminator?) rfl ?_
    (readAt_append (hlead _) (readAt_blanks1_path module "::" ";"))
    (module.accepts_of_mem_write wordOr_of_isNameChar rfl)
    (by rintro c ⟨⟩; rfl) (fun _ _ ↦ ⟨_, rfl⟩) rfl fun _ ↦ rfl
  simp only [List.mem_singleton, forall_eq]
  exact recognize_line_of_notMem hbrace
    (Grammar.indent ++ "use" ++ blanks1 ++ keep .module (Grammar.wordsOr ":") ++ "::")
    (keep .names (Grammar.without ['}']) ++ '}' ++ blanks ++ Grammar.terminator?) fun _ ↦ rfl

theorem recognizes_php_import (hline : line = "require_once '" ++ (module.write "\\" ++ "';")) :
    Recognizes .php .imports line (.importModule (module.write "\\") none) := by
  -- The shorter keyword is read first and given up, because no quote follows it.
  have hlead (t : Text) :
      (Grammar.indent ++ anyOf ["require", "require_once", "include", "include_once"] ++ blanks
            ++ maybe '(' ++ blanks ++ Grammar.quote).readAt ⟨none, "require_once '" ++ t, []⟩
        = some ⟨some '\'', t, [⟨.indent, "require_once '" ++ t, "require_once '" ++ t⟩]⟩ := by
    cbv
  subst hline
  refine recognizes_path [_] (noneOf ['\'', '"'])
    (Grammar.quote ++ blanks ++ maybe ')' ++ blanks ++ Grammar.terminator?) rfl ?_ (hlead _)
    (module.accepts_of_mem_write (noneOf_of_isNameChar rfl) rfl)
    (by rintro c ⟨⟩; rfl) (fun _ _ ↦ ⟨_, rfl⟩) rfl fun _ ↦ rfl
  simp only [List.mem_singleton, forall_eq]
  apply recognize_line_eq_none
  generalize module.write "\\" ++ "';" = t
  cbv

theorem recognizes_ruby_import (hline : line = "require '" ++ (module.write "/" ++ "'")) :
    Recognizes .ruby .imports line (.importModule (module.write "/") none) := by
  have hlead (t : Text) :
      (Grammar.indent ++ "require" ++ maybe "_relative" ++ blanks ++ maybe '(' ++ blanks
            ++ Grammar.quote).readAt ⟨none, "require '" ++ t, []⟩
        = some ⟨some '\'', t, [⟨.indent, "require '" ++ t, "require '" ++ t⟩]⟩ := by
    cbv
  subst hline
  exact recognizes_path [] (noneOf ['\'', '"']) (Grammar.quote ++ blanks ++ maybe ')' ++ textEnd)
    rfl (List.forall_mem_nil _) (hlead _)
    (module.accepts_of_mem_write (noneOf_of_isNameChar rfl) rfl)
    (by rintro c ⟨⟩; rfl) (fun _ _ ↦ ⟨_, rfl⟩) rfl fun _ ↦ rfl

end Languages

/-! ## Imports that come back -/

section RoundTrip

variable (language : Language) (module : ModuleName)

/-- The import of a module is recognized in the language it was worded for.  A name is given to the
module only where it is the innermost component. -/
theorem exists_import_recognized :
    ∃ emission localName,
      Emission.importModule language.profile (module.write ".") none = .ok emission
      ∧ Recognizes language .imports emission.text
          (.importModule (module.withoutExtension.write language.pathSeparator) localName)
      ∧ ∀ name ∈ localName,
          name = module.withoutExtension.last ∧ language.pathSeparator ≠ "." := by
  have hpath : Emission.modulePath .importModule language.profile (module.write ".")
      = .ok (module.withoutExtension.write language.pathSeparator) :=
    module.modulePath_write .importModule .python language
  have hlast : Emission.lastComponent "/." (module.withoutExtension.write "/")
      = module.withoutExtension.last :=
    ModuleName.lastComponent_write _ (by decide) rfl
  generalize module.withoutExtension = kept at hpath hlast
  rw [Emission.importModule, hpath]
  cases language with
  | python => exact ⟨_, none, rfl, recognizes_python_import rfl, by simp⟩
  | javascript | typescript =>
    refine ⟨_, some kept.last, rfl, recognizes_script_import rfl kept.isName_last ?_, ?_⟩
    · change "import " ++ Emission.lastComponent "/." (kept.write "/") ++ " from '"
        ++ kept.write "/" ++ "'" = _
      rw [hlast]
      simp only [List.append_assoc]
    · rintro name ⟨⟩
      exact ⟨rfl, by decide⟩
  | java =>
    refine ⟨_, none, rfl, recognizes_java_import ?_, by simp⟩
    exact List.append_assoc ..
  | cpp => exact ⟨_, none, rfl, recognizes_cpp_import (List.append_assoc ..), by simp⟩
  | csharp => exact ⟨_, none, rfl, recognizes_csharp_import (List.append_assoc ..), by simp⟩
  | go => exact ⟨_, none, rfl, recognizes_go_import (List.append_assoc ..), by simp⟩
  | rust => exact ⟨_, none, rfl, recognizes_rust_import (List.append_assoc ..), by simp⟩
  | php => exact ⟨_, none, rfl, recognizes_php_import (List.append_assoc ..), by simp⟩
  | ruby => exact ⟨_, none, rfl, recognizes_ruby_import (List.append_assoc ..), by simp⟩

/-- The name that a module was given is dropped again where it says nothing new. -/
theorem importModule_python {localName : Option Text}
    (hlocal : ∀ name ∈ localName, name = module.last ∧ language.pathSeparator ≠ ".") :
    Emission.importModule Language.python.profile (module.write language.pathSeparator) localName
      = .ok { text := "import " ++ (module.reread language.pathSeparator).write "." } := by
  have hpath := module.modulePath_write .importModule language .python
  have hlast : Emission.lastComponent "." ((module.reread language.pathSeparator).write ".")
      = (module.reread language.pathSeparator).last :=
    ModuleName.lastComponent_write _ (by decide) rfl
  have hname : (filled localName).filter (· ≠ (module.reread language.pathSeparator).last)
      = none := by
    rw [Option.filter_eq_none_iff]
    intro name hname
    obtain ⟨rfl, hdot⟩ := hlocal name (Option.eq_some_of_filter_eq_some hname)
    rw [ModuleName.reread, if_neg hdot]
    simp
  have hseparator : Language.python.pathSeparator = "." := rfl
  rw [Emission.importModule, hpath, hseparator]
  simp only [bind, Except.bind, Language.language_profile, hlast, hname]
  rfl

/-- A module is imported in a language, the import is recognized there, and what was recognized is
imported again in the first language.  The statement is the one for the module itself exactly if
the module is not called like a file with an extension. -/
theorem emitted_import_restored_iff (source : Language) (closes : Bool) :
    ∃ emission form final,
      (Form.importModule (module.write ".") none).emit (.start source language) closes
          = .ok (emission, .start source language)
      ∧ Recognizes language .imports emission.text form ∧ form.kind = .importModule
      ∧ form.emit (.start language .python) closes = .ok (final, .start language .python)
      ∧ final.text = "import "
          ++ (module.withoutExtension.reread language.pathSeparator).write "."
      ∧ (final.text = "import " ++ module.write "." ↔ module.endsInExtension = false) := by
  obtain ⟨emission, localName, hemission, hrecognized, hlocal⟩ :=
    exists_import_recognized language module
  have hfinal := importModule_python language module.withoutExtension hlocal
  refine ⟨emission, _, { text := _ }, ?_, hrecognized, rfl, ?_, rfl, ?_⟩
  · rw [Form.emit]
    simp only [Context.start, hemission]
    rfl
  · rw [Form.emit]
    simp only [Context.start, hfinal]
    rfl
  · rw [List.append_cancel_left_eq]
    exact module.write_reread_withoutExtension_eq_iff language.pathSeparator

/-- The module `os.path` comes back from a language with another separator. -/
theorem emitted_import_restored_rust :
    ∃ emission form final,
      (Form.importModule "os.path" none).emit (.start .python .rust) false
          = .ok (emission, .start .python .rust)
      ∧ Recognizes .rust .imports emission.text form ∧ form.kind = .importModule
      ∧ form.emit (.start .rust .python) false = .ok (final, .start .rust .python)
      ∧ final.text = "import os.path" := by
  obtain ⟨emission, form, final, hemit, hrecognized, hkind, hfinal, -, hrestored⟩ :=
    emitted_import_restored_iff .rust ⟨["os", "path"], List.cons_ne_nil _ _, by decide⟩ .python
      false
  exact ⟨emission, form, final, hemit, hrecognized, hkind, hfinal, hrestored.2 (by decide)⟩

/-- The module `a.js` is taken for a file, and its innermost component is lost at once. -/
theorem component_taken_for_extension :
    (Form.importModule "a.js" none).emit (.start .java .python) false
        = .ok ({ text := "import a" }, .start .java .python)
      ∧ Recognizes .python .imports "import a" (.importModule "a" none)
      ∧ (Form.importModule "a" none).emit (.start .python .python) false
        = .ok ({ text := "import a" }, .start .python .python)
      ∧ ("import a" : Text) ≠ "import a.js" := by
  exact ⟨by cbv, ⟨⟨.importModule "a" none, [], false, none⟩, by cbv, rfl⟩, by cbv, by decide⟩

end RoundTrip

end Recast
