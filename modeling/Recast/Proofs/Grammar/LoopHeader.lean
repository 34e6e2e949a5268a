import Recast.Emission.All
import Recast.Proofs.Grammar.Counted
import Recast.Proofs.Language.Profile

/-!
# Headers of loops over a range are read as they are written

Each language words the header of a loop over a range in its own way: as a call, as an interval, or
as a counted loop.  The first recognizer for loops that accepts the header finds the range in it,
with one exception: a counted loop without a declaration, whose variable goes on after the word for
one.
-/

namespace Recast

open Pattern Text Grammar

/-! ## Counted loops -/

section Counted

variable {language : Language} {var start stop initial test update t : Text}
  {before : Option Char} {captures : List Capture}

/-- A part is read up to the mark behind it. -/
theorem readAt_keep_without {chars part : Text} {mark : Char} (slot : Slot)
    (hpart : ∀ c ∈ chars, c ∉ part) (hmark : mark ∈ chars) :
    (keep slot (without chars)).readAt ⟨before, part ++ mark :: t, captures⟩
      = some ⟨endOf before part, mark :: t, ⟨slot, part ++ mark :: t, mark :: t⟩ :: captures⟩ := by
  refine readAt_keep (readAt_most_char (fun c hc ↦ ?_) ?_)
  · have hnot : c ∉ chars := fun hmem ↦ hpart c hmem hc
    simp [noneOf, hnot]
  · rintro c ⟨⟩
    simp [noneOf, hmark]

/-- The pattern of a counted loop in the curly-brace languages. -/
def curlyCounted : Pattern :=
  (indent ++ "for" ++ blanks ++ '(') ++ (keep .initial (without ";") ++ (';'
    ++ (keep .test (without ";") ++ (';' ++ (keep .update (without ")")
      ++ (')' ++ blanks ++ brace?))))))

theorem readStart_curlyCounted (hinitial : ';' ∉ initial) (htest : ';' ∉ test)
    (hupdate : ')' ∉ update) :
    ∃ reading, curlyCounted.readStart
        ("for (" ++ (initial ++ ';' :: (test ++ ';' :: (update ++ [')', ' ', '{']))))
        = some reading
      ∧ reading.get .initial = initial ∧ reading.get .test = test
      ∧ reading.get .update = update := by
  have hlead (t : Text) : (indent ++ "for" ++ blanks ++ '(').readAt ⟨none, "for (" ++ t, []⟩
      = some ⟨some '(', t, [⟨.indent, "for (" ++ t, "for (" ++ t⟩]⟩ := rfl
  have hend (captures : List Capture) :
      (')' ++ blanks ++ brace?).readAt ⟨endOf (some ';') update, [')', ' ', '{'], captures⟩
        = some ⟨some '{', [], captures⟩ := rfl
  have hmark (before : Option Char) (t : Text) (captures : List Capture) :
      (Pattern.char (· == ';')).readAt ⟨before, ';' :: t, captures⟩
        = some ⟨some ';', t, captures⟩ := rfl
  have honly {mark : Char} {part : Text} (h : mark ∉ part) : ∀ c ∈ [mark], c ∉ part :=
    List.forall_mem_singleton.2 h
  refine ⟨_, readAt_append (hlead _) (readAt_append
    (readAt_keep_without .initial (honly hinitial) (by simp)) (readAt_append (hmark _ _ _)
    (readAt_append (readAt_keep_without .test (honly htest) (by simp))
    (readAt_append (hmark _ _ _) (readAt_append (readAt_keep_without .update (honly hupdate) (by simp))
    (hend _)))))), ?_, ?_, ?_⟩
  all_goals simp [Reading.get, Reading.get?]

/-- The pattern of a counted loop without parentheses. -/
def bareCounted : Pattern :=
  (indent ++ "for") ++ (blanks1 ++ (keep .initial (without [';', '{']) ++ (';'
    ++ (keep .test (without [';', '{']) ++ (';' ++ (keep .update (fewest (.char (noneOf ['{'])))
      ++ (blanks ++ '{' ++ textEnd)))))))

theorem readStart_bareCounted {c : Char} (hvar : IsPlainWord var)
    (hinitial : ∀ c ∈ [';', '{'], c ∉ var ++ initial) (htest : ∀ c ∈ [';', '{'], c ∉ test)
    (hupdate : ∀ c ∈ ['\n', '{'], c ∉ update) (hlast : update.getLast? = some c)
    (hc : isBlank c = false) :
    ∃ reading, bareCounted.readStart
        ("for " ++ (var ++ initial ++ ';' :: (test ++ ';' :: (update ++ [' ', '{']))))
        = some reading
      ∧ reading.get .initial = var ++ initial ∧ reading.get .test = test
      ∧ reading.get .update = update := by
  have hlead (t : Text) : (indent ++ "for").readAt ⟨none, "for" ++ t, []⟩
      = some ⟨some 'r', t, [⟨.indent, "for" ++ t, "for" ++ t⟩]⟩ := rfl
  have hmark (before : Option Char) (t : Text) (captures : List Capture) :
      (Pattern.char (· == ';')).readAt ⟨before, ';' :: t, captures⟩
        = some ⟨some ';', t, captures⟩ := rfl
  have hend (before : Option Char) (captures : List Capture) :
      (blanks ++ '{' ++ textEnd).readAt ⟨before, [' ', '{'], captures⟩
        = some ⟨some '{', [], captures⟩ := rfl
  have hgap (t : Text) (before : Option Char) (captures : List Capture) :
      blanks1.readAt ⟨before, ' ' :: (var ++ initial ++ t), captures⟩
        = some ⟨some ' ', var ++ initial ++ t, captures⟩ := by
    rw [List.append_assoc]
    exact hvar.readAt_blanks1
  refine ⟨_, readAt_append (hlead _) (readAt_append (hgap _ _ _) (readAt_append
    (readAt_keep_without .initial hinitial (by simp)) (readAt_append (hmark _ _ _)
    (readAt_append (readAt_keep_without .test htest (by simp)) (readAt_append (hmark _ _ _)
    (readAt_keep_fewest_char (fun d hd ↦ ?_) (fun v w captures hsplit hw ↦ ?_)
    (hend _ _))))))), ?_, ?_, ?_⟩
  · have hne : d ≠ '{' := fun heq ↦ hupdate '{' (by simp) (heq ▸ hd)
    simp [noneOf, hne]
  · rw [hsplit, List.getLast?_append_of_ne_nil _ hw] at hlast
    have hline : '\n' ∉ w ++ [' ', '{'] := by
      have hmem := hupdate '\n' (by simp)
      rw [hsplit] at hmem
      simpa using fun h ↦ hmem (List.mem_append_right v h)
    refine readAt_blanks_textEnd_eq_none (List.mem_of_getLast? hlast) hc hline fun u hu ↦ ?_
    rw [describes_mark.1 hu]
    simp
  all_goals simp [Reading.get, Reading.get?, -List.append_assoc]

/-- A counted loop is recognized as the range it runs over, if there is one. -/
theorem ofReading_forCounted {reading : Reading} (hinitial : reading.get .initial = initial)
    (htest : reading.get .test = test) (hupdate : reading.get .update = update) :
    Form.ofReading .forCounted language reading
      = .ok (some ((Form.rangeOfCounted initial test update).getD
          (.forCounted (trim initial) (trim test) (trim update)))) := by
  rw [← hinitial, ← htest, ← hupdate]
  rfl

theorem recognizes_curlyCounted {others : List Recognizer} {declaration sigil : Text}
    (hgrammar : language.recognizers .loops = curlyFor.2 :: others)
    (hdeclaration : declaration = "let " ∧ sigil = [] ∨ declaration = "int " ∧ sigil = []
      ∨ declaration = [] ∧ sigil = ['$'])
    (hvar : IsPlainWord var) (hstart : IsPlainWord start) (hstop : IsPlainWord stop) :
    Recognizes language .loops
      ("for (" ++ (declaration ++ (sigil ++ (var ++ (" = " ++ start)))
        ++ ';' :: ([' '] ++ (sigil ++ (var ++ (" < " ++ stop)))
        ++ ';' :: ([' '] ++ (sigil ++ (var ++ "++")) ++ [')', ' ', '{']))))
      (.forRange var start stop "1") := by
  have hsigil : sigil = [] ∨ sigil = ['$'] := by tauto
  have hsemicolon {w : Text} (hw : IsPlainWord w) : ';' ∉ w := hw.notMem rfl
  have hparen : ')' ∉ var := hvar.notMem rfl
  have hdeclared : ';' ∉ declaration ++ (sigil ++ (var ++ (" = " ++ start))) := by
    rcases hdeclaration with ⟨rfl, rfl⟩ | ⟨rfl, rfl⟩ | ⟨rfl, rfl⟩ <;>
      simp [hsemicolon hvar, hsemicolon hstart]
  have htested : ';' ∉ [' '] ++ (sigil ++ (var ++ (" < " ++ stop))) := by
    rcases hsigil with rfl | rfl <;> simp [hsemicolon hvar, hsemicolon hstop]
  have hcounted : ')' ∉ [' '] ++ (sigil ++ (var ++ "++")) := by
    rcases hsigil with rfl | rfl <;> simp [hparen]
  obtain ⟨reading, hread, hinitial, htest, hupdate⟩ :=
    readStart_curlyCounted hdeclared htested hcounted
  refine recognizes_of_readStart hgrammar hread ?_
  rw [ofReading_forCounted hinitial htest hupdate, Form.rangeOfCounted_eq hsigil hvar hstop
    (Form.readStart_countedStart hdeclaration hvar hstart), if_pos rfl, Option.getD_some]

/-- Without a declaration, what is found depends on the name that is read for the variable. -/
theorem recognizes_bareCounted {name rest : Text} {last : Option Char} (hvar : IsPlainWord var)
    (hstart : IsPlainWord start) (hstop : IsPlainWord stop)
    (hbound : Form.countedStart.readStart (var ++ (" := " ++ start))
      = some ⟨last, [], [⟨.start, start, []⟩, ⟨.var, name ++ rest, rest⟩]⟩) :
    Recognizes .go .loops
      ("for " ++ (var ++ (" := " ++ start) ++ ';' :: ([' '] ++ (var ++ (" < " ++ stop))
        ++ ';' :: ([' '] ++ (var ++ "++") ++ [' ', '{']))))
      (if name = var then .forRange var start stop "1"
        else .forCounted (trim (var ++ (" := " ++ start))) (trim ([' '] ++ (var ++ (" < " ++ stop))))
          (trim ([' '] ++ (var ++ "++")))) := by
  have hnot {w : Text} (hw : IsPlainWord w) : ';' ∉ w ∧ '{' ∉ w ∧ '\n' ∉ w :=
    ⟨hw.notMem rfl, hw.notMem rfl, hw.notMem rfl⟩
  have hbind : ∀ c ∈ [';', '{'], c ∉ var ++ (" := " ++ start) := by
    simp [hnot hvar, hnot hstart]
  have htested : ∀ c ∈ [';', '{'], c ∉ [' '] ++ (var ++ (" < " ++ stop)) := by
    simp [hnot hvar, hnot hstop]
  have hcounted : ∀ c ∈ ['\n', '{'], c ∉ [' '] ++ (var ++ "++") := by
    simp [hnot hvar]
  have hlast : ([' '] ++ (var ++ "++")).getLast? = some '+' := by
    rw [List.getLast?_append_of_ne_nil _ (by simp), List.getLast?_append_of_ne_nil _ (by simp)]
    rfl
  have hgrammar : Language.go.recognizers .loops = .line .forCounted _ :: _ := rfl
  obtain ⟨reading, hread, hinitial, htest, hupdate⟩ :=
    readStart_bareCounted hvar hbind htested hcounted hlast rfl
  refine recognizes_of_readStart hgrammar hread ?_
  rw [ofReading_forCounted hinitial htest hupdate]
  have hrange := Form.rangeOfCounted_eq (.inl rfl) hvar hstop hbound
  simp only [List.nil_append] at hrange
  rw [hrange]
  split <;> rfl

end Counted

/-! ## Calls and intervals -/

section Intervals

variable {language : Language} {var start stop t : Text} {before : Option Char}
  {captures : List Capture}

/-- The start of a header that names the variable and then what it runs over. -/
theorem readAt_forIn (hvar : IsPlainWord var) (ht : ∀ c ∈ t.head?, isBlank c = false) :
    (indent ++ "for" ++ blanks1 ++ keep .var word ++ blanks1 ++ "in" ++ blanks1).readAt
        ⟨none, "for " ++ (var ++ (" in " ++ t)), []⟩
      = some ⟨some ' ', t, [⟨.var, var ++ (" in " ++ t), " in " ++ t⟩,
          ⟨.indent, "for " ++ (var ++ (" in " ++ t)), "for " ++ (var ++ (" in " ++ t))⟩]⟩ := by
  have hlead (t : Text) : (indent ++ "for").readAt ⟨none, "for" ++ t, []⟩
      = some ⟨some 'r', t, [⟨.indent, "for" ++ t, "for" ++ t⟩]⟩ := rfl
  have hgap (before : Option Char) (captures : List Capture) :
      blanks1.readAt ⟨before, " in " ++ t, captures⟩
        = some ⟨some ' ', "in" ++ ' ' :: t, captures⟩ := rfl
  have hin (before : Option Char) (captures : List Capture) :
      (text "in").readAt ⟨before, "in" ++ ' ' :: t, captures⟩
        = some ⟨some 'n', [' '] ++ t, captures⟩ := rfl
  have hgap' (captures : List Capture) :
      blanks1.readAt ⟨some 'n', [' '] ++ t, captures⟩ = some ⟨some ' ', t, captures⟩ :=
    readAt_most1_char (fun _ ↦ isBlank_of_mem_space) (List.cons_ne_nil _ _) ht
  have hnamed := readAt_append (readAt_append (hlead (' ' :: (var ++ (" in " ++ t))))
    hvar.readAt_blanks1) (hvar.readAt_keep_word .var (by rintro c ⟨⟩; rfl))
  exact readAt_append (readAt_append (readAt_append hnamed (hgap _ _)) (hin _ _)) (hgap' _)

/-- The parts of an interval make up a range that leaves out its end. -/
theorem ofReading_interval {reading : Reading} (hvar : reading.get? .var = some var)
    (hargs : reading.get? .rangeArgs = none)
    (hstart : (reading.get? .start).getD "0" = start) (hstop : reading.get? .stop = some stop)
    (hshort : reading.has .inclusive = false)
    (hstart' : trim start = start) (hstop' : trim stop = stop) :
    Form.ofReading .forRange language reading = .ok (some (.forRange var start stop "1")) := by
  subst hstart
  simp [Form.ofReading, Reading.require, hvar, hargs, hstop, hshort, hstop', bind, Except.bind, pure,
    Except.pure]
  exact hstart'

/-- The arguments of a range stand in parentheses at the end of the header. -/
theorem readStart_rangeCall {args : Text} (hvar : IsPlainWord var) (hargs : '\n' ∉ args) :
    ∃ reading, (indent ++ "for" ++ blanks1 ++ keep .var word ++ blanks1 ++ "in" ++ blanks1
        ++ "range" ++ blanks ++ '(' ++ keep .rangeArgs anything ++ ')' ++ colonOpen).readStart
        ("for " ++ (var ++ (" in " ++ ("range" ++ '(' :: (args ++ [')', ':'])))))
        = some reading
      ∧ reading.get? .var = some var ∧ reading.get? .rangeArgs = some args := by
  have hhead : ∀ c ∈ ("range" ++ '(' :: (args ++ [')', ':'])).head?, isBlank c = false := by
    rintro c ⟨⟩
    rfl
  have hopen (before : Option Char) (captures : List Capture) :
      (blanks ++ '(').readAt ⟨before, '(' :: (args ++ [')', ':']), captures⟩
        = some ⟨some '(', args ++ [')', ':'], captures⟩ := rfl
  have hinLine : ∀ c ∈ args, inLine c := by
    intro c hc
    exact bne_iff_ne.2 fun heq ↦ hargs (heq ▸ hc)
  have hend (captures : List Capture) : colonOpen.readAt ⟨some ')', [':'], captures⟩
      = some ⟨some ':', [], captures⟩ := rfl
  have hlead := readAt_append (readAt_append (readAt_forIn hvar hhead) (readAt_text _ _ _ _))
    (hopen _ _)
  refine ⟨_, readAt_append (readAt_keep_most_mark hinLine (by simp) hlead) (hend _), ?_, ?_⟩
  all_goals simp [Reading.get?]

/-- One argument stands for the end of a range from zero, two for both ends. -/
theorem recognizes_rangeCall {args : List Text} (hvar : IsPlainWord var)
    (hstart : IsPlainWord start) (hstop : IsPlainWord stop)
    (hargs : args = [start, stop] ∨ args = [stop] ∧ start = "0") :
    Recognizes .python .loops
      ("for " ++ (var ++ (" in " ++ ("range" ++ '(' :: (joinWith ", " args ++ [')', ':'])))))
      (.forRange var start stop "1") := by
  have hplain : ∀ arg ∈ args, IsPlainWord arg := by
    rcases hargs with rfl | ⟨rfl, -⟩ <;> simp [hstart, hstop]
  have hsplit : splitTopLevel ',' (joinWith ", " args) = args := splitTopLevel_joinWith
    fun arg h ↦ ⟨(hplain arg h).isLevel, (hplain arg h).ne_nil, (hplain arg h).trim_eq_self⟩
  have hline : '\n' ∉ joinWith ", " args := by
    have hnot {w : Text} (hw : IsPlainWord w) : '\n' ∉ w := hw.notMem rfl
    rcases hargs with rfl | ⟨rfl, -⟩ <;> simp [joinWith, List.intercalate, hnot hstart, hnot hstop]
  have hrange : Form.rangeOfArgs var (joinWith ", " args) = some (.forRange var start stop "1") := by
    rw [Form.rangeOfArgs, hsplit]
    rcases hargs with rfl | ⟨rfl, rfl⟩ <;> rfl
  have hgrammar : Language.python.recognizers .loops = .line .forRange _ :: _ := rfl
  obtain ⟨reading, hread, hget, hgetArgs⟩ := readStart_rangeCall hvar hline
  refine recognizes_of_readStart hgrammar hread ?_
  simp only [Form.ofReading, Reading.require, hget, hgetArgs, ← hrange]
  rfl

/-- The variable of a block is read between its bars. -/
theorem readAt_blockVar (hvar : IsPlainWord var) :
    blockVar.readAt ⟨before, " do |" ++ (var ++ ['|']), captures⟩
      = some ⟨some '|', [], ⟨.var, var ++ ['|'], ['|']⟩ :: captures⟩ := by
  have hopen (t : Text) : (blanks1 ++ "do" ++ blanks ++ '|').readAt ⟨before, " do |" ++ t, captures⟩
      = some ⟨some '|', t, captures⟩ := rfl
  have hclose (before : Option Char) (captures : List Capture) :
      (Pattern.char (· == '|')).readAt ⟨before, ['|'], captures⟩
        = some ⟨some '|', [], captures⟩ := rfl
  have hend (captures : List Capture) :
      textEnd.readAt ⟨some '|', [], captures⟩ = some ⟨some '|', [], captures⟩ := rfl
  exact readAt_append (readAt_append (readAt_append (hopen _)
    (hvar.readAt_keep_word .var (by rintro c ⟨⟩; rfl))) (hclose _ _)) (hend _)

theorem recognizes_times (hvar : IsPlainWord var) (hstop : IsPlainWord stop) :
    Recognizes .ruby .loops (stop ++ (".times" ++ (" do |" ++ (var ++ ['|']))))
      (.forRange var "0" stop "1") := by
  have hgrammar : Language.ruby.recognizers .loops = .line .forRange _ :: _ := rfl
  have hindent (t : Text) : indent.readAt ⟨none, stop ++ t, []⟩
      = some ⟨none, stop ++ t, [⟨.indent, stop ++ t, stop ++ t⟩]⟩ :=
    readAt_keep (hstop.readAt_blanks (List.forall_mem_nil _))
  have hcount (t : Text) (captures : List Capture) :=
    @IsPlainWord.readAt_keep_word stop (".times" ++ t) none captures hstop .stop
      (by rintro c ⟨⟩; rfl)
  refine recognizes_of_readStart hgrammar (readAt_append (readAt_append (readAt_append (hindent _)
    (hcount _ _)) (readAt_text _ _ _ _)) (readAt_blockVar hvar)) ?_
  exact ofReading_interval (by simp [Reading.get?]) rfl rfl (by simp [Reading.get?]) rfl rfl
    hstop.trim_eq_self

/-- A text that starts with a mark does not start where a word goes on. -/
theorem readAt_text_append_eq_none {mark : Char} {u : Text} (hmark : isNameChar mark = false)
    (q : Pattern) (before : Option Char) (c : Char) (rest : Text) (captures : List Capture)
    (hc : isNameChar c) :
    (text (mark :: u) ++ q).readAt ⟨before, c :: rest, captures⟩ = none := by
  refine readAt_append_eq_none (readAt_text_eq_none fun hstarts ↦ ?_) q
  exact ne_of_isNameChar hc hmark (List.cons_prefix_cons.1 hstarts).1.symm

/-- The pattern of a loop over an interval in parentheses. -/
def intervalEach : Pattern :=
  (indent ++ '(') ++ (keep .start (littleWithout1 ['.']) ++ ("..."
    ++ (keep .stop (littleWithout1 ['.', ')']) ++ (").each" ++ blockVar))))

theorem readStart_intervalEach (hvar : IsPlainWord var) (hstart : IsPlainWord start)
    (hstop : IsPlainWord stop) :
    ∃ reading, intervalEach.readStart
        ('(' :: (start ++ ("..." ++ (stop ++ (").each" ++ (" do |" ++ (var ++ ['|'])))))))
        = some reading
      ∧ Form.ofReading .forRange language reading = .ok (some (.forRange var start stop "1")) := by
  have hlead (t : Text) : (indent ++ '(').readAt ⟨none, '(' :: t, []⟩
      = some ⟨some '(', t, [⟨.indent, '(' :: t, '(' :: t⟩]⟩ := rfl
  refine ⟨_, readAt_append (hlead _) (hstart.readAt_keep_fewest1
    (noneOf_of_isNameChar (by decide)) (readAt_text_append_eq_none rfl _)
    ((readAt_text_append _ _ _ _ _).trans (hstop.readAt_keep_fewest1
      (noneOf_of_isNameChar (by decide)) (readAt_text_append_eq_none rfl _)
      ((readAt_text_append _ _ _ _ _).trans (readAt_blockVar hvar))))), ?_⟩
  exact ofReading_interval (by simp [Reading.get?]) rfl (by simp [Reading.get?])
    (by simp [Reading.get?]) rfl hstart.trim_eq_self hstop.trim_eq_self

theorem recognizes_interval (hvar : IsPlainWord var) (hstart : IsPlainWord start)
    (hstop : IsPlainWord stop) :
    Recognizes .ruby .loops
      ('(' :: (start ++ ("..." ++ (stop ++ (").each" ++ (" do |" ++ (var ++ ['|'])))))))
      (.forRange var start stop "1") := by
  have hgrammar : Language.ruby.recognizers .loops = [_, _] ++ .line .forRange _ :: _ := rfl
  obtain ⟨reading, hread, hform⟩ := readStart_intervalEach hvar hstart hstop
  exact recognizes_of_skipped hgrammar
    (List.forall_mem_cons.2 ⟨rfl, List.forall_mem_singleton.2 rfl⟩) hread hform

/-- The pattern of a loop over an interval up to the brace. -/
def intervalIn : Pattern :=
  (indent ++ "for" ++ blanks1 ++ keep .var word ++ blanks1 ++ "in" ++ blanks1)
    ++ (maybe '(' ++ (keep .start (littleWithout1 ['.', '{']) ++ (".."
      ++ (maybe (keep .inclusive '=') ++ (keep .stop (littleWithout1 ['.', '{', ')'])
        ++ (maybe ')' ++ (blanks ++ ('{' ++ textEnd))))))))

theorem readStart_intervalIn (hvar : IsPlainWord var) (hstart : IsPlainWord start)
    (hstop : IsPlainWord stop) :
    ∃ reading, intervalIn.readStart
        ("for " ++ (var ++ (" in " ++ (start ++ (".." ++ (stop ++ [' ', '{']))))))
        = some reading
      ∧ Form.ofReading .forRange language reading = .ok (some (.forRange var start stop "1")) := by
  have hhead {t : Text} : ∀ c ∈ (start ++ t).head?, isBlank c = false := fun c hc ↦
    isBlank_of_isNameChar (hstart.isNameChar_of_mem_head? hc)
  have hnoEquals (captures : List Capture) (t : Text) :
      (maybe (keep .inclusive '=')).readAt ⟨some '.', stop ++ t, captures⟩
        = some ⟨some '.', stop ++ t, captures⟩ := by
    obtain ⟨c, rest, rfl⟩ := List.exists_cons_of_ne_nil hstop.ne_nil
    have hc : c ≠ '=' := ne_of_isNameChar (hstop.chars c List.mem_cons_self) rfl
    exact readAt_maybe_of_none (if_neg (by simpa using hc))
  have hstuck (before : Option Char) (c : Char) (rest : Text) (captures : List Capture)
      (hc : isNameChar c) :
      (maybe ')' ++ (blanks ++ ('{' ++ textEnd))).readAt ⟨before, c :: rest, captures⟩ = none := by
    have hword : IsPlainWord [c] := ⟨List.cons_ne_nil _ _, List.forall_mem_singleton.2 hc⟩
    have hblank : ∀ d ∈ (c :: rest).head?, isBlank d = false := by
      rintro d ⟨⟩
      exact isBlank_of_isNameChar hc
    have hclosed : (')' ++ (blanks ++ ('{' ++ textEnd))).readAt ⟨before, c :: rest, captures⟩
        = none := readAt_append_eq_none (hword.readAt_mark_eq_none rfl) _
    rw [readAt_maybe_append, hclosed, Option.none_or]
    exact (readAt_most_char_append hblank).trans
      (readAt_append_eq_none (hword.readAt_mark_eq_none rfl) _)
  have hend (before : Option Char) (captures : List Capture) :
      (maybe ')' ++ (blanks ++ ('{' ++ textEnd))).readAt ⟨before, [' ', '{'], captures⟩
        = some ⟨some '{', [], captures⟩ := rfl
  refine ⟨_, readAt_append (readAt_forIn hvar hhead) (readAt_append (hstart.readAt_maybe_mark rfl)
    (hstart.readAt_keep_fewest1 (noneOf_of_isNameChar (by decide))
      (readAt_text_append_eq_none rfl _) ((readAt_text_append _ _ _ _ _).trans
      (readAt_append (hnoEquals _ _) (hstop.readAt_keep_fewest1 (noneOf_of_isNameChar (by decide))
        hstuck (hend _ _)))))), ?_⟩
  exact ofReading_interval (by simp [Reading.get?]) rfl (by simp [Reading.get?])
    (by simp [Reading.get?]) rfl hstart.trim_eq_self hstop.trim_eq_self

theorem recognizes_span (hvar : IsPlainWord var) (hstart : IsPlainWord start)
    (hstop : IsPlainWord stop) :
    Recognizes .rust .loops
      ("for " ++ (var ++ (" in " ++ (start ++ (".." ++ (stop ++ [' ', '{']))))))
      (.forRange var start stop "1") := by
  have hgrammar : Language.rust.recognizers .loops = .line .forRange _ :: _ := rfl
  obtain ⟨reading, hread, hform⟩ := readStart_intervalIn hvar hstart hstop
  exact recognizes_of_readStart hgrammar hread hform

end Intervals

/-! ## Headers -/

section Headers

variable {var start stop : Text}

/-- The wording of a counted loop that goes up by one. -/
theorem render_counted {target : Profile} {declaration sigil : Text}
    (hgo : target.language ≠ .go)
    (hdeclaration : RangeHeader.declaration? target.language = some declaration)
    (hname : target.variableName var = sigil ++ var) :
    (RangeHeader.counted start stop false "1").render target var
      = .ok ("for (" ++ (declaration ++ (sigil ++ (var ++ (" = " ++ start)))
          ++ ';' :: ([' '] ++ (sigil ++ (var ++ (" < " ++ stop)))
          ++ ';' :: ([' '] ++ (sigil ++ (var ++ "++")) ++ [')', ' ', '{'])))) := by
  simp [RangeHeader.render, RangeHeader.update, hgo, hdeclaration, hname, wording, bind,
    Except.bind, pure, Except.pure]

/-- Where a range is not put as a counted loop without a declaration, it is recognized. -/
theorem recognizes_rangeHeader {language : Language} (hlanguage : language ≠ .go)
    (hvar : IsPlainWord var) (hstart : IsPlainWord start) (hstop : IsPlainWord stop) :
    ∃ header, (RangeHeader.ofBounds language start stop "1").render language.profile var
        = .ok header
      ∧ Recognizes language .loops header (.forRange var start stop "1") := by
  -- The curly-brace languages differ in the declaration and the sigil only.
  have hcounted {language : Language} {others : List Recognizer} {declaration sigil : Text}
      (hbounds : RangeHeader.ofBounds language start stop "1" = .counted start stop false "1")
      (hgrammar : language.recognizers .loops = curlyFor.2 :: others)
      (hgo : language.profile.language ≠ .go)
      (hwritten : RangeHeader.declaration? language.profile.language = some declaration)
      (hname : language.profile.variableName var = sigil ++ var)
      (hdeclaration : declaration = "let " ∧ sigil = [] ∨ declaration = "int " ∧ sigil = []
        ∨ declaration = [] ∧ sigil = ['$']) :
      ∃ header, (RangeHeader.ofBounds language start stop "1").render language.profile var
          = .ok header
        ∧ Recognizes language .loops header (.forRange var start stop "1") :=
    ⟨_, hbounds ▸ render_counted hgo hwritten hname,
      recognizes_curlyCounted hgrammar hdeclaration hvar hstart hstop⟩
  cases language with
  | go => exact absurd rfl hlanguage
  | python =>
    by_cases hzero : start = "0"
    · have hbounds : RangeHeader.ofBounds .python start stop "1" = .call [stop] := by
        rw [RangeHeader.ofBounds, if_neg (not_not.2 rfl), if_neg (not_not.2 hzero)]
      refine ⟨_, ?_, recognizes_rangeCall hvar hstart hstop (.inr ⟨rfl, hzero⟩)⟩
      rw [hbounds]
      simp [RangeHeader.render]
    · have hbounds : RangeHeader.ofBounds .python start stop "1" = .call [start, stop] := by
        rw [RangeHeader.ofBounds, if_neg (not_not.2 rfl), if_pos hzero]
      refine ⟨_, ?_, recognizes_rangeCall hvar hstart hstop (.inl rfl)⟩
      rw [hbounds]
      simp [RangeHeader.render]
  | ruby =>
    by_cases hzero : start = "0"
    · have hbounds : RangeHeader.ofBounds .ruby start stop "1" = .times stop := by
        rw [RangeHeader.ofBounds, if_neg (not_not.2 rfl), if_pos hzero]
      refine ⟨_, ?_, hzero ▸ recognizes_times hvar hstop⟩
      rw [hbounds]
      simp [RangeHeader.render]
    · have hbounds : RangeHeader.ofBounds .ruby start stop "1" = .interval start stop := by
        rw [RangeHeader.ofBounds, if_neg (not_not.2 rfl), if_neg hzero]
      refine ⟨_, ?_, recognizes_interval hvar hstart hstop⟩
      rw [hbounds]
      simp [RangeHeader.render]
  | rust =>
    refine ⟨_, ?_, recognizes_span hvar hstart hstop⟩
    simp [RangeHeader.ofBounds, RangeHeader.downAmount?, RangeHeader.unlessOne, RangeHeader.render]
  | javascript | typescript => exact hcounted rfl rfl nofun rfl rfl (.inl ⟨rfl, rfl⟩)
  | java | cpp | csharp => exact hcounted rfl rfl nofun rfl rfl (.inr (.inl ⟨rfl, rfl⟩))
  | php => exact hcounted rfl rfl nofun rfl rfl (.inr (.inr ⟨rfl, rfl⟩))

/-- The header in the language that writes no declaration, and what is recognized in it. -/
theorem recognizes_rangeHeader_go (hvar : IsPlainWord var) (hstart : IsPlainWord start)
    (hstop : IsPlainWord stop) :
    ∃ header, (RangeHeader.ofBounds .go start stop "1").render Language.go.profile var = .ok header
      ∧ (Recognizes .go .loops header (.forRange var start stop "1")
        ↔ ¬Form.ExtendsDeclaration var) := by
  have hrender : (RangeHeader.ofBounds .go start stop "1").render Language.go.profile var
      = .ok ("for " ++ (var ++ (" := " ++ start) ++ ';' :: ([' '] ++ (var ++ (" < " ++ stop))
          ++ ';' :: ([' '] ++ (var ++ "++") ++ [' ', '{'])))) := by
    have hbounds : RangeHeader.ofBounds .go start stop "1" = .counted start stop false "1" := rfl
    rw [hbounds]
    simp [RangeHeader.render, RangeHeader.update, Profile.variableName]
    rfl
  refine ⟨_, hrender, fun hrange hextends ↦ ?_, fun hnot ↦ ?_⟩
  · obtain ⟨name, hname, hbound⟩ :=
      Form.exists_readStart_countedStart_of_extends hvar hstart hextends
    have hcounted := recognizes_bareCounted hvar hstart hstop hbound
    rw [if_neg hname] at hcounted
    exact absurd (hrange.eq hcounted) nofun
  · have hbound := Form.readStart_countedStart_of_not_extends hvar hstart hnot
    have hcounted := recognizes_bareCounted hvar hstart hstop hbound
    rwa [if_pos rfl] at hcounted

theorem emit_forRange {context : Context} {language : Language} {step header : Text}
    (htarget : context.target = language.profile) (closes : Bool)
    (hrender : (RangeHeader.ofBounds language start stop step).render language.profile var
      = .ok header) :
    (Form.forRange var start stop step).emit context closes = .ok ({ text := header }, context) := by
  simp only [Form.emit, Emission.forRange, htarget, Language.language_profile, hrender]
  rfl

/-- The header that a language writes for a loop over a range is recognized as this range, unless
the variable is taken apart: only one language writes no declaration, and only there a variable can
go on after a word for one. -/
theorem emitted_range_recognized_iff (language : Language) {context : Context}
    (htarget : context.target = language.profile) (closes : Bool) (hvar : isName var)
    (hstart : isOperand start) (hstop : isOperand stop) :
    ∃ emission, (Form.forRange var start stop "1").emit context closes = .ok (emission, context)
      ∧ (Recognizes language .loops emission.text (.forRange var start stop "1")
        ↔ ¬(language = .go ∧ Form.ExtendsDeclaration var)) := by
  have hvar := isPlainWord_of_isName hvar
  have hstart := isPlainWord_of_isOperand hstart
  have hstop := isPlainWord_of_isOperand hstop
  by_cases hgo : language = .go
  · subst hgo
    obtain ⟨header, hrender, hiff⟩ := recognizes_rangeHeader_go hvar hstart hstop
    refine ⟨_, emit_forRange htarget closes hrender, ?_⟩
    simpa using hiff
  · obtain ⟨header, hrender, hrecognizes⟩ := recognizes_rangeHeader hgo hvar hstart hstop
    refine ⟨_, emit_forRange htarget closes hrender, ?_⟩
    simpa [hgo] using hrecognizes

/-- A sigil parts the variable from a declaration, and a blank does. -/
theorem emitted_range_recognized_php :
    isName "letter" ∧ isOperand "0" ∧ isOperand "n2"
    ∧ ∃ emission, (Form.forRange "letter" "0" "n2" "1").emit (.start .go .php) false
        = .ok (emission, .start .go .php)
      ∧ Recognizes .php .loops emission.text (.forRange "letter" "0" "n2" "1") := by
  have htarget : (Context.start .go .php).target = Language.php.profile := rfl
  have hvar : isName "letter" := by decide
  have hstart : isOperand "0" := by decide
  have hstop : isOperand "n2" := by decide
  obtain ⟨emission, hemit, hrecognized⟩ :=
    emitted_range_recognized_iff .php htarget false hvar hstart hstop
  exact ⟨hvar, hstart, hstop, emission, hemit, hrecognized.2 (by simp)⟩

/-- The variable `letter` is read as `ter` where no declaration stands before it. -/
theorem range_over_letter_not_recognized :
    ∃ emission, (Form.forRange "letter" "0" "n" "1").emit (.start .python .go) false
        = .ok (emission, .start .python .go)
      ∧ emission.text = "for letter := 0; letter < n; letter++" ++ [' ', '{']
      ∧ ¬Recognizes .go .loops emission.text (.forRange "letter" "0" "n" "1")
      ∧ Recognizes .go .loops emission.text (.forCounted "letter := 0" "letter < n" "letter++") := by
  have hcounted : Recognizes .go .loops ("for letter := 0; letter < n; letter++" ++ [' ', '{'])
      (.forCounted "letter := 0" "letter < n" "letter++") := by
    refine ⟨⟨_, [], false, none⟩, ?_, rfl⟩
    cbv
  refine ⟨⟨_, []⟩, rfl, rfl, fun hrange ↦ ?_, hcounted⟩
  exact absurd (hrange.eq hcounted) (by simp)

end Headers

end Recast
