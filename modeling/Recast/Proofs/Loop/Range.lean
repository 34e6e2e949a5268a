import Recast.Proofs.Grammar.LoopHeader
import Recast.Proofs.Loop.Header

/-!
# Loops over a range go through the range

The bounds and the step of a range are put into the header of a loop as they are written.  Here
they are decimal integers, and the header is read by the grammar of its language.
-/

namespace Recast.Loop

open Text

/-! ## Decimal integers as texts -/

section Decimals

variable {n m : Int}

theorem integer?_ofInt (n : Int) : integer? (lexemes (ofInt n)) = some (n, []) := by
  rw [lexemes_ofInt, ← List.append_nil (integerLexemes n), integer?_integerLexemes]

theorem ofInt_inj : ofInt n = ofInt m ↔ n = m := by
  refine ⟨fun h ↦ ?_, congrArg ofInt⟩
  have hread : some (n, ([] : List Lexeme)) = some (m, []) := by
    rw [← integer?_ofInt, ← integer?_ofInt, h]
  simpa using hread

theorem ofInt_eq_zero_iff : ofInt n = "0" ↔ n = 0 :=
  ofInt_inj (m := 0)

theorem ofInt_eq_one_iff : ofInt n = "1" ↔ n = 1 :=
  ofInt_inj (m := 1)

theorem ofNat_eq_one_iff {n : Nat} : ofNat n = "1" ↔ n = 1 := by
  calc
    ofNat n = "1" ↔ ofInt n = "1" := Iff.rfl
    _ ↔ (n : Int) = 1 := ofInt_eq_one_iff
    _ ↔ n = 1 := Nat.cast_eq_one

theorem downAmount?_ofNat (n : Nat) : RangeHeader.downAmount? (ofNat n) = none := by
  cases hdigits : ofNat n with
  | nil => rfl
  | cons c rest =>
    have hc : c.isDigit := Nat.isDigit_of_mem_toDigits (by omega) (by omega)
      (show c ∈ ofNat n by simp [hdigits])
    unfold RangeHeader.downAmount?
    split
    · rename_i heq
      obtain ⟨rfl, -⟩ := List.cons.inj heq
      exact absurd hc (by decide)
    · rfl

theorem downAmount?_negative (n : Nat) :
    RangeHeader.downAmount? (ofInt (Int.negSucc n)) = some (ofNat (n + 1)) := by
  have hblank : ∀ c ∈ ofNat (n + 1), isBlank c = false := by
    intro c hc
    by_contra h
    have hnot : isWord c = false := isWord_of_isBlank (by simpa using h)
    simp [isWord_of_mem_ofNat hc] at hnot
  have htrim : trim (ofNat (n + 1)) = ofNat (n + 1) :=
    trim_eq_self (fun c hc ↦ hblank c (List.mem_of_head? hc))
      fun c hc ↦ hblank c (List.mem_of_getLast? hc)
  exact congrArg some htrim

end Decimals

/-! ## Counted loops -/

section Counted

variable {var name : Text} {rest : List Lexeme}

/-- The lexemes of a change by an amount. -/
def changeLexemes (down : Bool) (n : Nat) : List Lexeme :=
  let sign : Lexeme := .mark (if down then '-' else '+')
  if n = 1 then [sign, sign] else [sign, .mark '=', .word (ofNat n)]

theorem lexemes_update (name : Text) (down : Bool) (n : Nat) :
    lexemes (RangeHeader.update name down (ofNat n)) = lexemes name ++ changeLexemes down n := by
  unfold RangeHeader.update changeLexemes
  simp only [ofNat_eq_one_iff]
  split
  · cases down
    · exact lexemes_append_of_head name rfl
    · exact lexemes_append_of_head name rfl
  · have hamount (sign : Text) (hlast : sign.getLast?.any isWord = false) :
        lexemes (sign ++ ofNat n) = lexemes sign ++ [.word (ofNat n)] := by
      rw [lexemes_append_of_last hlast, lexemes_ofNat]
    cases down
    · change lexemes (name ++ " += " ++ ofNat n) = _
      rw [List.append_assoc, lexemes_append_of_head name rfl, hamount " += " rfl]
      rfl
    · change lexemes (name ++ " -= " ++ ofNat n) = _
      rw [List.append_assoc, lexemes_append_of_head name rfl, hamount " -= " rfl]
      rfl

theorem change?_changeLexemes (down : Bool) (n : Nat) (rest : List Lexeme) :
    change? (changeLexemes down n ++ rest) = some (if down then -(n : Int) else n, rest) := by
  unfold changeLexemes
  by_cases hone : n = 1
  · subst hone
    cases down <;> rfl
  · cases down <;> simp [hone, change?, integer?, natural?_ofNat]

theorem comparison?_integerLexemes (down : Bool) (n : Int) (rest : List Lexeme) :
    comparison? (.mark (if down then '>' else '<') :: (integerLexemes n ++ rest))
      = some (if down then .greater else .less, integerLexemes n ++ rest) := by
  cases n <;> cases down <;> rfl

theorem behind?_marks (marks : Text) (rest : List Lexeme) :
    behind? marks (marks.map .mark ++ rest) = some rest := by
  induction marks with
  | nil => rfl
  | cons c marks ih => simpa [behind?] using ih

/-- The three parts of a counted loop are read one after the other. -/
theorem threeParts?_counted (hname : ∀ rest, named? (lexemes name ++ rest) = some (name, rest))
    (assigns : Text) (start stop : Int) (down : Bool) (n : Nat) (rest : List Lexeme) :
    threeParts? assigns (lexemes name ++ (assigns.map .mark ++ (integerLexemes start
      ++ (.mark ';' :: (lexemes name ++ (.mark (if down then '>' else '<') :: (integerLexemes stop
      ++ (.mark ';' :: (lexemes name ++ (changeLexemes down n ++ rest))))))))))
      = some ((name, .counted start (if down then .greater else .less) stop
          (if down then -n else n)), rest) := by
  have hmark (rest : List Lexeme) : behind? [';'] (.mark ';' :: rest) = some rest :=
    behind?_marks [';'] rest
  simp only [threeParts?, hname, behind?_marks, integer?_integerLexemes, hmark,
    comparison?_integerLexemes, change?_changeLexemes, Option.bind_eq_bind, Option.bind_some,
    and_self, guard, if_true, Option.pure_def]

/-- A variable is read back from a name of the target language. -/
theorem named?_variableName (language : Language) (hne : var ≠ []) (hvar : ∀ c ∈ var, isWord c)
    (rest : List Lexeme) :
    named? (lexemes (language.profile.variableName var) ++ rest)
      = some (language.profile.variableName var, rest) := by
  by_cases hphp : language = .php
  · subst hphp
    have hsigil : lexemes ('$' :: var) = [.mark '$', .word var] := by
      rw [← lexemes_word hne hvar]
      rfl
    change named? (lexemes ('$' :: var) ++ rest) = some ('$' :: var, rest)
    rw [hsigil]
    rfl
  · have hname : language.profile.variableName var = var := by
      cases language <;> first | rfl | exact absurd rfl hphp
    rw [hname, lexemes_word hne hvar]
    rfl

/-- The lexemes of the three parts of a counted loop. -/
theorem lexemes_parts (lead assigns tail : Text) (hlead : lead.getLast?.any isWord = false)
    (hhead : ∀ t, (assigns ++ t).head?.any isWord = false)
    (hlast : assigns.getLast?.any isWord = false) (htail : tail.head?.any isWord = false)
    (name : Text) (start stop : Int) (down : Bool) (n : Nat) :
    lexemes (lead ++ name ++ assigns ++ ofInt start ++ "; "
        ++ (name ++ (if down then " > " else " < ") ++ ofInt stop) ++ "; "
        ++ RangeHeader.update name down (ofNat n) ++ tail)
      = lexemes lead ++ (lexemes name ++ (lexemes assigns ++ (integerLexemes start
        ++ (.mark ';' :: (lexemes name ++ (.mark (if down then '>' else '<') ::
        (integerLexemes stop ++ (.mark ';' :: (lexemes name ++ (changeLexemes down n
        ++ lexemes tail)))))))))) := by
  have hsemicolon : lexemes "; " = [.mark ';'] := rfl
  simp only [List.append_assoc]
  cases down
  · have htest : lexemes " < " = [.mark '<'] := rfl
    simp only [Bool.false_eq_true, if_false]
    rw [lexemes_around hlead name (hhead _), lexemes_around hlast (ofInt start) rfl,
      lexemes_around rfl name rfl, lexemes_around rfl (ofInt stop) rfl, lexemes_around rfl _ htail,
      lexemes_ofInt, lexemes_ofInt, lexemes_update, hsemicolon, htest]
    simp
  · have htest : lexemes " > " = [.mark '>'] := rfl
    simp only [if_true]
    rw [lexemes_around hlead name (hhead _), lexemes_around hlast (ofInt start) rfl,
      lexemes_around rfl name rfl, lexemes_around rfl (ofInt stop) rfl, lexemes_around rfl _ htail,
      lexemes_ofInt, lexemes_ofInt, lexemes_update, hsemicolon, htest]
    simp

/-- The declaration of the variable is passed over. -/
theorem undeclared_declaration (language : Language)
    (hlanguage : language ∉ [.python, .ruby, .rust, .go]) (var : Text) :
    ∃ declaration, RangeHeader.declaration? language = some declaration
      ∧ ("for (" ++ declaration).getLast?.any isWord = false
      ∧ ∃ declared, lexemes ("for (" ++ declaration) = .word "for" :: .mark '(' :: declared
        ∧ ∀ rest, undeclared (declared ++ (lexemes (language.profile.variableName var) ++ rest))
          = lexemes (language.profile.variableName var) ++ rest := by
  cases language
  case php => exact ⟨_, rfl, rfl, _, rfl, fun _ ↦ rfl⟩
  case javascript | typescript | java | cpp | csharp =>
    exact ⟨_, rfl, rfl, _, rfl, fun _ ↦ rfl⟩
  all_goals simp at hlanguage

theorem render_counted {language : Language} {declaration : Text} (hgo : language ≠ .go)
    (hdeclaration : RangeHeader.declaration? language = some declaration)
    (start stop amount : Text) (down : Bool) :
    (RangeHeader.counted start stop down amount).render language.profile var
      = .ok ("for (" ++ declaration ++ language.profile.variableName var ++ " = " ++ start ++ "; "
        ++ (language.profile.variableName var ++ (if down then " > " else " < ") ++ stop) ++ "; "
        ++ RangeHeader.update (language.profile.variableName var) down amount
        ++ (")" ++ [' ', '{'])) := by
  simp only [RangeHeader.render, Language.language_profile, if_neg hgo, hdeclaration, wording,
    ← List.append_assoc]
  rfl

/-- A counted loop counts. -/
theorem read?_counted {language : Language} (hlanguage : language ∉ [.python, .ruby, .rust])
    (hne : var ≠ []) (hvar : ∀ c ∈ var, isWord c) (start stop : Int) (down : Bool) (n : Nat) :
    ∃ header, (RangeHeader.counted (ofInt start) (ofInt stop) down (ofNat n)).render
        language.profile var = .ok header
      ∧ read? language header = some (language.profile.variableName var,
          .counted start (if down then .greater else .less) stop (if down then -n else n)) := by
  have hparts := threeParts?_counted (named?_variableName language hne hvar)
  by_cases hgo : language = .go
  · subst hgo
    refine ⟨_, rfl, ?_⟩
    have hassigns : lexemes " := " = [':', '='].map .mark := rfl
    have htail : lexemes [' ', '{'] = [.mark '{'] := rfl
    have hlead : lexemes "for " = [.word "for"] := rfl
    unfold read?
    rw [lexemes_parts "for " " := " [' ', '{'] rfl (fun _ ↦ rfl) rfl rfl, hlead, hassigns, htail]
    simp only [bareHeader?, List.singleton_append, if_true, hparts]
  · obtain ⟨declaration, hdeclaration, hlast, declared, hlead, hundeclared⟩ :=
      undeclared_declaration language (by simpa [hgo] using hlanguage) var
    have hassigns : lexemes " = " = ['='].map .mark := rfl
    have htail : lexemes (")" ++ [' ', '{']) = [.mark ')', .mark '{'] := rfl
    have hread (header : Text) : read? language header = curlyHeader? (lexemes header) := by
      cases language <;> simp at hlanguage hgo <;> rfl
    refine ⟨_, render_counted hgo hdeclaration _ _ _ down, ?_⟩
    rw [hread, lexemes_parts _ " = " (")" ++ [' ', '{']) hlast (fun _ ↦ rfl) rfl rfl, hlead,
      hassigns, htail]
    simp only [curlyHeader?, List.cons_append, if_true, hundeclared, hparts]

theorem ofBounds_of_downAmount? {language : Language}
    (hlanguage : language ∉ [.python, .ruby, .rust]) {amount step : Text} (start stop : Text)
    (hdown : RangeHeader.downAmount? step = some amount) :
    RangeHeader.ofBounds language start stop step = .counted start stop true amount := by
  cases language <;> simp at hlanguage <;> simp [RangeHeader.ofBounds, hdown]

theorem ofBounds_of_downAmount?_eq_none {language : Language}
    (hlanguage : language ∉ [.python, .ruby, .rust]) {step : Text} (start stop : Text)
    (hup : RangeHeader.downAmount? step = none) :
    RangeHeader.ofBounds language start stop step = .counted start stop false step := by
  cases language <;> simp at hlanguage <;> simp [RangeHeader.ofBounds, hup]

/-- A counted loop goes through the range. -/
theorem denotes_counted {language : Language} (hlanguage : language ∉ [.python, .ruby, .rust])
    (hne : var ≠ []) (hvar : ∀ c ∈ var, isWord c) (start stop : Int) {step : Int}
    (hstep : step ≠ 0) :
    ∃ header, (RangeHeader.ofBounds language (ofInt start) (ofInt stop) (ofInt step)).render
        language.profile var = .ok header
      ∧ ∃ values, Denotes language header (language.profile.variableName var) values
        ∧ IsRange start stop step values := by
  have hrange := isRange_rangeList start stop hstep
  cases step with
  | ofNat n =>
    obtain ⟨header, hrender, hread⟩ := read?_counted hlanguage hne hvar start stop false n
    refine ⟨header, ?_, _, ⟨_, hread, ?_⟩, hrange⟩
    · rw [show ofInt (Int.ofNat n) = ofNat n from rfl,
        ofBounds_of_downAmount?_eq_none hlanguage _ _ (downAmount?_ofNat n)]
      exact hrender
    · refine hrange.counts fun value ↦ ?_
      rw [shortOf_of_pos (by simpa using Nat.pos_of_ne_zero fun h ↦ hstep (by simp [h]))]
      simp [Comparison.holds]
  | negSucc n =>
    obtain ⟨header, hrender, hread⟩ := read?_counted hlanguage hne hvar start stop true (n + 1)
    refine ⟨header, ?_, _, ⟨_, hread, ?_⟩, hrange⟩
    · rw [ofBounds_of_downAmount? hlanguage _ _ (downAmount?_negative n)]
      exact hrender
    · refine hrange.counts fun value ↦ ?_
      rw [shortOf_of_neg (Int.negSucc_lt_zero n)]
      simp [Comparison.holds]

end Counted

/-! ## Calls of `range` -/

section Call

variable {var : Text}

theorem arguments?_joinWith (n : Int) (others : List Int) (rest : List Lexeme) :
    arguments? (lexemes (joinWith ", " ((n :: others).map ofInt)) ++ .mark ')' :: rest)
      = some (n :: others, rest) := by
  induction others generalizing n with
  | nil =>
    have hsingle : joinWith ", " ([n].map ofInt) = ofInt n := by simp [joinWith]
    rw [hsingle, lexemes_ofInt, arguments?_last]
  | cons m others ih =>
    have hsplit : lexemes (joinWith ", " ((n :: m :: others).map ofInt)) = integerLexemes n
        ++ .mark ',' :: lexemes (joinWith ", " ((m :: others).map ofInt)) := by
      have happend : joinWith ", " ((n :: m :: others).map ofInt)
          = ofInt n ++ (", " ++ joinWith ", " ((m :: others).map ofInt)) := by
        simp [joinWith]
      rw [happend, lexemes_append_of_head _ rfl, lexemes_append_of_last rfl, lexemes_ofInt]
      rfl
    rw [hsplit, List.append_assoc, List.cons_append, arguments?_more n (ih m)]

theorem read?_call (hne : var ≠ []) (hvar : ∀ c ∈ var, isWord c) (n : Int) (others : List Int) :
    ∃ header, (RangeHeader.call ((n :: others).map ofInt)).render Language.python.profile var
        = .ok header
      ∧ read? .python header = (rangeCall? (n :: others)).map (var, ·) := by
  refine ⟨_, rfl, ?_⟩
  have hlead : lexemes "for " = [.word "for"] := rfl
  have hcall : lexemes " in range(" = [.word "in", .word "range", .mark '('] := rfl
  have hend : lexemes "):" = [.mark ')', .mark ':'] := rfl
  unfold read?
  simp only [List.append_assoc]
  rw [lexemes_around rfl var rfl, lexemes_around rfl _ rfl, lexemes_word hne hvar, hlead, hcall,
    hend]
  simp only [callHeader?, List.cons_append, List.nil_append, if_true,
    arguments?_joinWith, and_self]

theorem denotes_call (hne : var ≠ []) (hvar : ∀ c ∈ var, isWord c) (start stop : Int) {step : Int}
    (hstep : step ≠ 0) :
    ∃ header, (RangeHeader.ofBounds .python (ofInt start) (ofInt stop) (ofInt step)).render
        Language.python.profile var = .ok header
      ∧ ∃ values, Denotes .python header var values ∧ IsRange start stop step values := by
  have hrange := isRange_rangeList start stop hstep
  simp only [RangeHeader.ofBounds, ne_eq, ofInt_eq_one_iff, ofInt_eq_zero_iff]
  by_cases hone : step = 1
  · by_cases hzero : start = 0
    · obtain ⟨header, hrender, hread⟩ := read?_call hne hvar stop []
      refine ⟨header, by simpa [hone, hzero] using hrender, _, ⟨_, hread, rfl⟩, ?_⟩
      simpa [hone, hzero] using hrange
    · obtain ⟨header, hrender, hread⟩ := read?_call hne hvar start [stop]
      refine ⟨header, by simpa [hone, hzero] using hrender, _, ⟨_, hread, rfl⟩, ?_⟩
      simpa [hone] using hrange
  · obtain ⟨header, hrender, hread⟩ := read?_call hne hvar start [stop, step]
    rw [rangeCall?, if_neg hstep] at hread
    exact ⟨header, by simpa [hone] using hrender, _, ⟨_, hread, rfl⟩, hrange⟩

end Call

/-! ## Intervals with adapters -/

section Interval

variable {var : Text} {rest : List Lexeme}

theorem sum?_integerLexemes (n : Int) (hrest : rest.head? ≠ some (.mark '+')) :
    sum? (integerLexemes n ++ rest) = some (n, rest) := by
  unfold sum?
  rw [integer?_integerLexemes]
  split
  · rename_i heq
    simp only [Option.some.injEq, Prod.mk.injEq] at heq
    simp [heq.2] at hrest
  · rfl

/-- An interval that ends short of its second bound. -/
theorem interval?_open (low high : Int) (hrest : rest.head? ≠ some (.mark '+')) :
    interval? (integerLexemes low ++ (.mark '.' :: .mark '.' :: (integerLexemes high ++ rest)))
      = some (interval low high, rest) := by
  have hhigh := sum?_integerLexemes high hrest
  unfold interval?
  rw [sum?_integerLexemes low (by simp)]
  cases high <;> simp [behind?, integerLexemes] at hhigh ⊢ <;> simp [hhigh]

/-- An interval that starts after its first bound and ends with its second. -/
theorem interval?_closed (low high : Int) (hrest : rest.head? ≠ some (.mark '+')) :
    interval? (integerLexemes low ++ (.mark '+' :: .word "1" :: .mark '.' :: .mark '.' ::
        .mark '=' :: (integerLexemes high ++ rest)))
      = some (interval (low + 1) (high + 1), rest) := by
  have hlow : sum? (integerLexemes low ++ (.mark '+' :: .word "1" :: .mark '.' :: .mark '.' ::
        .mark '=' :: (integerLexemes high ++ rest)))
      = some (low + 1, .mark '.' :: .mark '.' :: .mark '=' :: (integerLexemes high ++ rest)) := by
    unfold sum?
    rw [integer?_integerLexemes]
    rfl
  unfold interval?
  rw [hlow]
  simp [behind?, sum?_integerLexemes high hrest]

theorem unlessOne_ofNat (n : Nat) :
    RangeHeader.unlessOne (ofNat n) = if n = 1 then none else some (ofNat n) := by
  simp only [RangeHeader.unlessOne, ofNat_eq_one_iff]

/-- What takes every so many items of a list, and nothing if that is each of them. -/
theorem adapted?_stepBy (values : List Int) (n : Nat) :
    adapted? values (lexemes (around ".step_by(" (RangeHeader.unlessOne (ofNat n)) ")"
      ++ [' ', '{'])) = some (every n values, [.mark '{']) := by
  rw [unlessOne_ofNat]
  by_cases hone : n = 1
  · rw [if_pos hone, hone, every_one]
    rfl
  · have hlexemes : lexemes (".step_by(" ++ (ofNat n ++ (")" ++ [' ', '{'])))
        = [.mark '.', .word "step_by", .mark '(', .word (ofNat n), .mark ')', .mark '{'] := by
      rw [lexemes_around rfl (ofNat n) rfl, lexemes_ofNat]
      rfl
    rw [if_neg hone, around, List.append_assoc, List.append_assoc, hlexemes]
    simp [adapted?, natural?_ofNat]

theorem iterator?_parens {lexemes : List Lexeme} {values : List Int}
    (h : interval? lexemes = some (values, .mark ')' :: rest)) :
    iterator? (.mark '(' :: lexemes) = adapted? values rest := by
  simp [iterator?, h, behind?]

theorem iteratorHeader?_eq {lexemes : List Lexeme} {values : List Int}
    (h : iterator? lexemes = some (values, [.mark '{'])) (var : Text) :
    iteratorHeader? (.word "for" :: .word var :: .word "in" :: lexemes)
      = some (var, .listed values) := by
  simp [iteratorHeader?, h]

theorem read?_spanUp (hne : var ≠ []) (hvar : ∀ c ∈ var, isWord c) (start stop : Int) (n : Nat) :
    ∃ header, (RangeHeader.spanUp (ofInt start) (ofInt stop)
        (RangeHeader.unlessOne (ofNat n))).render Language.rust.profile var = .ok header
      ∧ read? .rust header = some (var, .listed (every n (interval start stop))) := by
  have hlead : lexemes "for " = [.word "for"] := rfl
  have hdots : lexemes ".." = [.mark '.', .mark '.'] := rfl
  rw [unlessOne_ofNat]
  by_cases hone : n = 1
  · have hin : lexemes " in " = [.word "in"] := rfl
    have hend : lexemes [' ', '{'] = [.mark '{'] := rfl
    rw [if_pos hone, hone, every_one]
    refine ⟨_, rfl, ?_⟩
    unfold read?
    simp only [List.append_assoc]
    rw [lexemes_around rfl var rfl, lexemes_around rfl _ rfl, lexemes_around rfl _ rfl,
      lexemes_word hne hvar, lexemes_ofInt, lexemes_ofInt, hlead, hin, hdots, hend]
    apply iteratorHeader?_eq
    have hopen : interval? (integerLexemes start ++ (.mark '.' :: .mark '.' ::
        (integerLexemes stop ++ [.mark '{']))) = some (interval start stop, [.mark '{']) :=
      interval?_open start stop (by simp)
    cases start <;> exact hopen
  · have hin : lexemes " in (" = [.word "in", .mark '('] := rfl
    have hend : lexemes (").step_by(" ++ (ofNat n ++ (")" ++ [' ', '{'])))
        = .mark ')' :: lexemes (around ".step_by(" (some (ofNat n)) ")" ++ [' ', '{']) := by
      rw [around, List.append_assoc, List.append_assoc]
      rfl
    have hadapted := adapted?_stepBy (interval start stop) n
    rw [unlessOne_ofNat, if_neg hone] at hadapted
    rw [if_neg hone]
    refine ⟨_, rfl, ?_⟩
    unfold read?
    simp only [List.append_assoc]
    rw [lexemes_around rfl var rfl, lexemes_around rfl _ rfl, lexemes_around rfl _ rfl,
      lexemes_word hne hvar, lexemes_ofInt, lexemes_ofInt, hlead, hin, hdots, hend]
    apply iteratorHeader?_eq
    exact (iterator?_parens (interval?_open start stop (by simp))).trans hadapted

theorem read?_spanDown (hne : var ≠ []) (hvar : ∀ c ∈ var, isWord c) (low high : Int) (n : Nat) :
    ∃ header, (RangeHeader.spanDown (ofInt low) (ofInt high)
        (RangeHeader.unlessOne (ofNat n))).render Language.rust.profile var = .ok header
      ∧ read? .rust header
        = some (var, .listed (every n (interval (low + 1) (high + 1)).reverse)) := by
  have hlead : lexemes "for " = [.word "for"] := rfl
  have hin : lexemes " in (" = [.word "in", .mark '('] := rfl
  have hdots : lexemes " + 1..=" = [.mark '+', .word "1", .mark '.', .mark '.', .mark '='] := rfl
  have hend (t : Text) : lexemes (").rev()" ++ t)
      = .mark ')' :: .mark '.' :: .word "rev" :: .mark '(' :: .mark ')' :: lexemes t := by
    rw [lexemes_append_of_last rfl]
    rfl
  have hadapted := adapted?_stepBy (interval (low + 1) (high + 1)).reverse n
  refine ⟨_, rfl, ?_⟩
  unfold read?
  simp only [List.append_assoc]
  rw [lexemes_around rfl var rfl, lexemes_around rfl _ rfl, lexemes_around rfl _ rfl,
    lexemes_word hne hvar, lexemes_ofInt, lexemes_ofInt, hlead, hin, hdots, hend]
  apply iteratorHeader?_eq
  exact (iterator?_parens (interval?_closed low high (by simp))).trans hadapted

theorem denotes_interval (hne : var ≠ []) (hvar : ∀ c ∈ var, isWord c) (start stop : Int)
    {step : Int} (hstep : step ≠ 0) :
    ∃ header, (RangeHeader.ofBounds .rust (ofInt start) (ofInt stop) (ofInt step)).render
        Language.rust.profile var = .ok header
      ∧ ∃ values, Denotes .rust header var values ∧ IsRange start stop step values := by
  unfold RangeHeader.ofBounds
  cases step with
  | ofNat n =>
    obtain ⟨header, hrender, hread⟩ := read?_spanUp hne hvar start stop n
    refine ⟨header, ?_, _, ⟨_, hread, rfl⟩, isRange_every_interval ?_ start stop⟩
    · rw [show ofInt (Int.ofNat n) = ofNat n from rfl, downAmount?_ofNat]
      exact hrender
    · exact Nat.pos_of_ne_zero fun h ↦ hstep (by simp [h])
  | negSucc n =>
    obtain ⟨header, hrender, hread⟩ := read?_spanDown hne hvar stop start (n + 1)
    refine ⟨header, ?_, _, ⟨_, hread, rfl⟩, isRange_every_reverse_interval n.succ_pos stop start⟩
    rw [downAmount?_negative]
    exact hrender

end Interval

/-! ## Blocks -/

section Block

variable {var : Text}

theorem blockHeader?_integerLexemes (n : Int) (rest : List Lexeme) :
    blockHeader? (integerLexemes n ++ rest) = integerBlock? n rest := by
  have hread := integer?_integerLexemes n rest
  cases n <;> simp only [integerLexemes, List.cons_append, List.nil_append] at hread ⊢ <;>
    simp [blockHeader?, hread]

/-- A loop by the step `1` goes through an interval. -/
theorem read?_interval (hne : var ≠ []) (hvar : ∀ c ∈ var, isWord c) (start stop : Int) :
    ∃ header, (RangeHeader.ofBounds .ruby (ofInt start) (ofInt stop) "1").render
        Language.ruby.profile var = .ok header
      ∧ read? .ruby header = some (var, .listed (interval start stop)) := by
  have hend : lexemes "|" = [.mark '|'] := rfl
  have hbounds : RangeHeader.ofBounds .ruby (ofInt start) (ofInt stop) "1"
      = if ofInt start = "0" then .times (ofInt stop) else .interval (ofInt start) (ofInt stop) :=
    rfl
  rw [hbounds]
  by_cases hzero : start = 0
  · have htimes : lexemes ".times do |" = [.mark '.', .word "times", .word "do", .mark '|'] := rfl
    rw [if_pos (ofInt_eq_zero_iff.2 hzero)]
    refine ⟨_, rfl, ?_⟩
    unfold read?
    simp only [List.append_assoc]
    rw [lexemes_append_of_head _ rfl, lexemes_around rfl var rfl, lexemes_word hne hvar,
      lexemes_ofInt, htimes, hend]
    refine (blockHeader?_integerLexemes stop _).trans ?_
    simp [integerBlock?, blockVariable?, hzero]
  · have hparen : lexemes "(" = [.mark '('] := rfl
    have hdots : lexemes "..." = [.mark '.', .mark '.', .mark '.'] := rfl
    have heach : lexemes ").each do |"
        = [.mark ')', .mark '.', .word "each", .word "do", .mark '|'] := rfl
    rw [if_neg (mt ofInt_eq_zero_iff.1 hzero)]
    refine ⟨_, rfl, ?_⟩
    unfold read?
    simp only [List.append_assoc]
    rw [lexemes_around rfl _ rfl, lexemes_around rfl _ rfl, lexemes_around rfl var rfl,
      lexemes_word hne hvar, lexemes_ofInt, lexemes_ofInt, hparen, hdots, heach, hend]
    simp only [blockHeader?, List.cons_append, List.nil_append, integer?_integerLexemes, behind?,
      if_true, Option.bind_eq_bind, Option.bind_some, blockVariable?, Option.map_some]

/-- A loop by any other step counts, and the stop counts as well. -/
theorem read?_walk (hne : var ≠ []) (hvar : ∀ c ∈ var, isWord c) (start stop : Int) {step : Int}
    (hstep : step ≠ 0) (hone : step ≠ 1) :
    ∃ header, (RangeHeader.ofBounds .ruby (ofInt start) (ofInt stop) (ofInt step)).render
        Language.ruby.profile var = .ok header
      ∧ read? .ruby header = some (var,
          .counted start (if 0 < step then .atMost else .atLeast) stop step) := by
  have hcall : lexemes ".step(" = [.mark '.', .word "step", .mark '('] := rfl
  have hcomma : lexemes ", " = [.mark ','] := rfl
  have hdo : lexemes ") do |" = [.mark ')', .word "do", .mark '|'] := rfl
  have hend : lexemes "|" = [.mark '|'] := rfl
  have hbounds : RangeHeader.ofBounds .ruby (ofInt start) (ofInt stop) (ofInt step)
      = .walk (ofInt start) (ofInt stop) (ofInt step) :=
    if_pos (mt ofInt_eq_one_iff.1 hone)
  rw [hbounds]
  refine ⟨_, rfl, ?_⟩
  unfold read?
  simp only [List.append_assoc]
  rw [lexemes_append_of_head _ rfl, lexemes_around rfl _ rfl, lexemes_around rfl _ rfl,
    lexemes_around rfl var rfl, lexemes_word hne hvar, lexemes_ofInt, lexemes_ofInt, lexemes_ofInt,
    hcall, hcomma, hdo, hend]
  refine (blockHeader?_integerLexemes start _).trans ?_
  have hargs := arguments?_more stop
    (arguments?_last step [.word "do", .mark '|', .word var, .mark '|'])
  simp only [integerBlock?, List.cons_append, List.nil_append, if_true, hargs, stepTo?,
    if_neg hstep, blockVariable?]
  rfl

theorem IsRange.visits_walk {start stop step : Int} {values : List Int} (hstep : step ≠ 0)
    (h : IsRange start (past step stop) step values) :
    (Course.counted start (if 0 < step then .atMost else .atLeast) stop step).Visits values := by
  refine h.counts fun value ↦ ?_
  rw [shortOf_past_iff]
  by_cases hpos : 0 < step
  · simp [hpos, shortOf_of_pos hpos, Comparison.holds]
    omega
  · have hneg : step < 0 := by omega
    simp [hpos, shortOf_of_neg hneg, Comparison.holds]
    omega

end Block

/-! ## The header that is emitted -/

section Emitted

variable {context : Context} {var : Text}

/-- In every language but one, the header of a loop over a range opens a loop through the range. -/
theorem emitted_range_denotes_range {language : Language} (hlanguage : language ≠ .ruby)
    (htarget : context.target = language.profile) (closes : Bool) (hne : var ≠ [])
    (hvar : ∀ c ∈ var, isWord c) (start stop : Int) {step : Int} (hstep : step ≠ 0) :
    ∃ emission, (Form.forRange var (ofInt start) (ofInt stop) (ofInt step)).emit context closes
        = .ok (emission, context)
      ∧ ∃ values, Denotes language emission.text (language.profile.variableName var) values
        ∧ IsRange start stop step values := by
  obtain ⟨header, hrender, hdenotes⟩ : ∃ header,
      (RangeHeader.ofBounds language (ofInt start) (ofInt stop) (ofInt step)).render
        language.profile var = .ok header
      ∧ ∃ values, Denotes language header (language.profile.variableName var) values
        ∧ IsRange start stop step values := by
    by_cases hcall : language = .python
    · subst hcall
      exact denotes_call hne hvar start stop hstep
    · by_cases hinterval : language = .rust
      · subst hinterval
        exact denotes_interval hne hvar start stop hstep
      · exact denotes_counted (by simp [hcall, hinterval, hlanguage]) hne hvar start stop hstep
  exact ⟨_, emit_forRange htarget closes hrender, hdenotes⟩

/-- Down by three from ten, short of zero, over an interval that is turned around. -/
theorem emitted_range_denotes_range_rust :
    Language.rust ≠ .ruby ∧ (-3 : Int) ≠ 0
    ∧ ∃ emission, (Form.forRange "i" (ofInt 10) (ofInt 0) (ofInt (-3))).emit
          (.start .python .rust) false = .ok (emission, .start .python .rust)
      ∧ ∃ values, Denotes .rust emission.text (Language.rust.profile.variableName "i") values
        ∧ IsRange 10 0 (-3) values :=
  ⟨by decide, by decide, emitted_range_denotes_range (by decide) rfl false (by decide)
    (List.forall_mem_singleton.2 rfl) 10 0 (by decide)⟩

/-- Where blocks are iterated, the header opens a loop through the range if the step is one or no
value meets the stop.  Otherwise the loop has one round more, at the stop. -/
theorem emitted_range_denotes_range_or_one_more (htarget : context.target = Language.ruby.profile)
    (closes : Bool) (hne : var ≠ []) (hvar : ∀ c ∈ var, isWord c) (start stop : Int) {step : Int}
    (hstep : step ≠ 0) :
    ∃ emission, (Form.forRange var (ofInt start) (ofInt stop) (ofInt step)).emit context closes
        = .ok (emission, context)
      ∧ ∃ values, IsRange start stop step values
        ∧ ((step = 1 ∨ ∀ n : Nat, start + n * step ≠ stop) → Denotes .ruby emission.text var values)
        ∧ (step ≠ 1 → (∃ n : Nat, start + n * step = stop) →
          Denotes .ruby emission.text var (values ++ [stop])) := by
  by_cases hone : step = 1
  · subst hone
    obtain ⟨header, hrender, hread⟩ := read?_interval hne hvar start stop
    have hrange : IsRange start stop 1 (interval start stop) := by
      simpa [every_one] using isRange_every_interval one_pos start stop
    refine ⟨_, emit_forRange htarget closes hrender, _, hrange, fun _ ↦ ⟨_, hread, rfl⟩,
      fun hne ↦ absurd rfl hne⟩
  · obtain ⟨header, hrender, hread⟩ := read?_walk hne hvar start stop hstep hone
    have hrange := isRange_rangeList start stop hstep
    have hpast := isRange_rangeList start (past step stop) hstep
    refine ⟨_, emit_forRange htarget closes hrender, _, hrange, fun hmisses ↦ ?_,
      fun _ ⟨n, hmeets⟩ ↦ ?_⟩
    · rw [hrange.eq (hpast.of_past (hmisses.resolve_left hone))]
      exact ⟨_, hread, hpast.visits_walk hstep⟩
    · exact ⟨_, hread, (hrange.past_of_meets hstep hmeets).visits_walk hstep⟩

/-- Down by four from ten, no value is zero. -/
theorem emitted_range_denotes_range_or_one_more_down :
    (-4 : Int) ≠ 0 ∧ (∀ n : Nat, 10 + n * (-4) ≠ (0 : Int))
    ∧ ∃ emission, (Form.forRange "i" (ofInt 10) (ofInt 0) (ofInt (-4))).emit
          (.start .python .ruby) false = .ok (emission, .start .python .ruby)
      ∧ Denotes .ruby emission.text "i" [10, 6, 2] ∧ IsRange 10 0 (-4) [10, 6, 2] := by
  have htarget : (Context.start .python .ruby).target = Language.ruby.profile := rfl
  have hstep : (-4 : Int) ≠ 0 := by decide
  have hmisses (n : Nat) : 10 + n * (-4) ≠ (0 : Int) := by omega
  obtain ⟨emission, hemit, values, hrange, hdenotes, -⟩ :=
    emitted_range_denotes_range_or_one_more htarget false (List.cons_ne_nil 'i' [])
      (List.forall_mem_singleton.2 rfl) 10 0 hstep
  have hvalues : IsRange 10 0 (-4) [10, 6, 2] := isRange_rangeList 10 0 hstep
  refine ⟨hstep, hmisses, emission, hemit, ?_, hvalues⟩
  rw [hvalues.eq hrange]
  exact hdenotes (.inr hmisses)

/-- By five from zero to ten, which is met: the loop has a round at ten. -/
theorem emitted_range_reaches_stop :
    ∃ emission, (Form.forRange "i" "0" "10" "5").emit (.start .python .ruby) false
        = .ok (emission, .start .python .ruby)
      ∧ emission.text = "0.step(10, 5) do |i|"
      ∧ Denotes .ruby emission.text "i" [0, 5, 10] ∧ IsRange 0 10 5 [0, 5]
      ∧ ¬∃ values, Denotes .ruby emission.text "i" values ∧ IsRange 0 10 5 values := by
  have hdenotes : Denotes .ruby "0.step(10, 5) do |i|" "i" [0, 5, 10] := by
    refine ⟨.counted 0 .atMost 10 5, by decide, ?_⟩
    exact .round rfl (.round rfl (.round rfl (.stop rfl)))
  have hrange : IsRange 0 10 5 [0, 5] := isRange_rangeList 0 10 (by decide)
  refine ⟨_, rfl, rfl, hdenotes, hrange, ?_⟩
  rintro ⟨values, hvalues, hisRange⟩
  have heq : [0, 5, 10] = ([0, 5] : List Int) := (hdenotes.eq hvalues).trans (hisRange.eq hrange)
  exact absurd heq (by decide)

end Emitted

end Recast.Loop
