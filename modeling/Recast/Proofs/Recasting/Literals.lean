import Recast.Proofs.Pattern.Lazy
import Recast.Proofs.Pattern.Search
import Recast.Proofs.Pattern.Simulation
import Recast.Proofs.Recasting.Strings

/-!
# Literals that are exchanged and exchanged back

The literals for truth, falsehood and nothing are words, and they are exchanged where they stand by
themselves.  A word that stands by itself takes up all word characters around it, so the word that
takes its place stands by itself too, and no other word does that did not before.  A literal that two
languages share is not exchanged in either direction.

Hence to spell the literals the way of another language and then the way of the first language again
leaves a line as it was, provided that no literal of the other language alone stood in it before, and
that both languages take the same stretches of the line for strings.
-/

namespace Recast

open Text

namespace Token

open Pattern

variable {tokens : List Text} {before : Option Char} {token t u v w rest : Text} {reading : Reading}
  {c : Char}

/-! ## Words that stand by themselves -/

/-- Whether a text is a word: it is not empty, and all of it are word characters. -/
def isWordToken (t : Text) : Bool :=
  !t.isEmpty && t.all isWord

theorem exists_cons_of_isWordToken (h : isWordToken t) :
    ∃ c w, t = c :: w ∧ isWord c ∧ w.all isWord := by
  cases t with
  | nil => exact absurd h (by decide)
  | cons c w => exact ⟨c, w, rfl, Bool.and_eq_true_iff.1 h⟩

theorem exists_endOf_of_isWordToken (h : isWordToken t) (before : Option Char) :
    ∃ c, isWord c ∧ endOf before t = some c := by
  obtain ⟨hne, hword⟩ := Bool.and_eq_true_iff.1 h
  cases hlast : t.getLast? with
  | none =>
    rw [List.getLast?_eq_none_iff] at hlast
    simp [hlast] at hne
  | some c =>
    exact ⟨c, List.all_eq_true.1 hword c (List.mem_of_getLast? hlast), by simp [endOf, hlast]⟩

theorem Stands.takeWhile_isWord (h : Stands before rest) (htoken : isWordToken token) :
    (token ++ rest).takeWhile isWord = token := by
  obtain ⟨-, hword⟩ := Bool.and_eq_true_iff.1 htoken
  rw [List.takeWhile_append_of_pos (List.all_eq_true.1 hword)]
  cases rest with
  | nil => simp
  | cons c rest =>
    have hc : isWord c = false := (Bool.or_eq_false_iff.1 h.rest).1
    rw [List.takeWhile_cons_of_neg (by simp [hc]), List.append_nil]

theorem mem_outcomes_anyOf {patterns : List Pattern} {p : Pattern} (hp : p ∈ patterns)
    {reading after : Reading} (h : after ∈ p.outcomes reading) :
    after ∈ (anyOf patterns).outcomes reading := by
  induction patterns with
  | nil => exact absurd hp List.not_mem_nil
  | cons q patterns ih =>
    cases patterns with
    | nil =>
      obtain rfl := List.mem_singleton.1 hp
      exact h
    | cons r patterns =>
      rcases List.mem_cons.1 hp with rfl | hp
      · exact List.mem_append_left _ h
      · exact List.mem_append_right _ (ih hp)

theorem Stands.readAt_isSome (h : Stands before rest) (htoken : token ∈ tokens) :
    ((wholeToken tokens).readAt ⟨before, token ++ rest, []⟩).isSome := by
  rw [isSome_readAt_iff]
  have htext : (⟨endOf before token, rest, []⟩ : Reading)
      ∈ (anyOf (tokens.map text)).outcomes ⟨before, token ++ rest, []⟩ := by
    apply mem_outcomes_anyOf (List.mem_map_of_mem htoken)
    rw [outcomes_text]
    exact List.mem_singleton_self _
  have hkeep := List.mem_map_of_mem (f := fun after : Reading ↦ { after with
    captures := (⟨.keyword, token ++ rest, after.rest⟩ : Capture) :: after.captures }) htext
  refine ⟨_, List.mem_flatMap.2 ⟨_, List.mem_flatMap.2
    ⟨⟨before, token ++ rest, []⟩, mem_outcomes_look.2 ⟨by simpa using h.before, rfl⟩, hkeep⟩,
    mem_outcomes_look.2 ⟨?_, rfl⟩⟩⟩
  have hrest := h.rest
  cases rest with
  | nil => rfl
  | cons c rest => simpa [readAt, run] using hrest

/-- A token that stands by itself is read, and no other in its place. -/
theorem Stands.exists_readAt (h : Stands before rest) (hwords : ∀ token ∈ tokens, isWordToken token)
    (htoken : token ∈ tokens) :
    ∃ reading, (wholeToken tokens).readAt ⟨before, token ++ rest, []⟩ = some reading
      ∧ reading.rest = rest ∧ reading.get .keyword = token := by
  obtain ⟨reading, hread⟩ := Option.isSome_iff_exists.1 (h.readAt_isSome htoken)
  obtain ⟨found, hfound, ht, hstands, hkey⟩ := exists_stands_of_readAt hread
  -- Both tokens are all the word characters from here on.
  have hsame : found = token := by
    rw [← hstands.takeWhile_isWord (hwords found hfound), ← ht,
      h.takeWhile_isWord (hwords token htoken)]
  subst hsame
  exact ⟨reading, hread, (List.append_cancel_left ht).symm, hkey⟩

/-! ## Replaced tokens -/

variable {new : Reading → Text}

theorem readAt_wholeToken_of_isWord (hc : isWord c) (t : Text) :
    (wholeToken tokens).readAt ⟨some c, t, []⟩ = none := by
  rw [Option.eq_none_iff_forall_ne_some]
  intro reading hread
  obtain ⟨-, -, -, hstands, -⟩ := exists_stands_of_readAt hread
  have hbefore := hstands.before
  simp [wordOr, hc] at hbefore

/-- Behind a word character nothing is replaced up to the end of the word, and neither is the
character behind it. -/
theorem exists_of_replaces_append (h : Replaces (wholeToken tokens) new (some c) t u)
    (hc : isWord c) (hw : w.all isWord) (hu : u = w ++ v) :
    ∃ s, t = w ++ s ∧ s.head? = v.head? := by
  induction w generalizing c t u with
  | nil =>
    refine ⟨t, rfl, ?_⟩
    rw [List.nil_append] at hu
    cases h with
    | nil => rw [← hu]
    | keep => rw [← hu]; rfl
    | swap _ hread => simp [readAt_wholeToken_of_isWord hc] at hread
  | cons d w ih =>
    obtain ⟨hd, hword⟩ := Bool.and_eq_true_iff.1 (List.all_cons ▸ hw)
    cases h with
    | nil => simp at hu
    | keep _ h =>
      obtain ⟨hcd, hrest⟩ := List.cons.inj hu
      subst hcd
      obtain ⟨s, rfl, hhead⟩ := ih h hd hword hrest
      exact ⟨s, rfl, hhead⟩
    | swap _ hread => simp [readAt_wholeToken_of_isWord hc] at hread

/-! ## Exchanging back -/

variable {pairs back : List (Text × Text)}

/-- What a token that was read is exchanged for. -/
def counterpart (pairs : List (Text × Text)) (reading : Reading) : Text :=
  (pairs.lookup (reading.get .keyword)).getD (reading.get .keyword)

/-- Whether the token stands somewhere in the text by itself, when the given character is before
the text. -/
def StandsBehind (before : Option Char) (token t : Text) : Prop :=
  ∃ front rest, t = front ++ (token ++ rest) ∧ Stands (endOf before front) rest

theorem StandsBehind.append (h : StandsBehind (endOf before u) token t) :
    StandsBehind before token (u ++ t) := by
  obtain ⟨front, rest, rfl, hstands⟩ := h
  exact ⟨u ++ front, rest, by simp, by rwa [endOf_append]⟩

theorem Stands.standsBehind (h : Stands before rest) (token : Text) :
    StandsBehind before token (token ++ rest) :=
  ⟨[], rest, rfl, h⟩

/-- Whether the token stands in a piece of code by itself. -/
def StandsIn (token code : Text) : Prop :=
  StandsBehind none token code

theorem standsIn_iff_occurs : StandsIn token t ↔ (wholeToken [token]).occurs t := by
  rw [occurs_iff]
  constructor
  · rintro ⟨front, rest, ht, hstands⟩
    refine ⟨front, token ++ rest, ht, ?_⟩
    rw [endOf, Option.or_none] at hstands
    exact hstands.readAt_isSome List.mem_cons_self
  · rintro ⟨front, behind, ht, hread⟩
    obtain ⟨reading, hread⟩ := Option.isSome_iff_exists.1 hread
    obtain ⟨found, hfound, hbehind, hstands, -⟩ := exists_stands_of_readAt hread
    obtain rfl := List.mem_singleton.1 hfound
    refine ⟨front, reading.rest, hbehind ▸ ht, ?_⟩
    rwa [endOf, Option.or_none]

instance : Decidable (StandsIn token t) :=
  decidable_of_iff _ standsIn_iff_occurs.symm

/-- Whether the pairs of `back` undo in a text what other pairs do: no token that they exchange
stands there yet, and each token that is exchanged there is the counterpart of its own. -/
structure Undoes (back pairs : List (Text × Text)) (before : Option Char) (t : Text) : Prop where
  fresh : ∀ pair ∈ back, ¬StandsBehind before pair.1 t
  inverse : ∀ pair ∈ pairs, StandsBehind before pair.1 t → back.lookup pair.2 = some pair.1

theorem Undoes.of_append (h : Undoes back pairs before (u ++ t)) :
    Undoes back pairs (endOf before u) t :=
  ⟨fun pair hpair hstands ↦ h.fresh pair hpair hstands.append,
    fun pair hpair hstands ↦ h.inverse pair hpair hstands.append⟩

variable {old : Text} {before' : Option Char}

/-- A token that stands by itself is replaced by its counterpart. -/
theorem Stands.replaces (h : Stands before u) (hwords : ∀ pair ∈ back, isWordToken pair.1)
    (hold : back.lookup token = some old)
    (hrest : Replaces (wholeToken (back.map Prod.fst)) (counterpart back) (endOf before token) u t) :
    Replaces (wholeToken (back.map Prod.fst)) (counterpart back) before (token ++ u)
      (old ++ t) := by
  have htoken : token ∈ back.map Prod.fst := by
    obtain ⟨earlier, later, hsplit, -⟩ := List.lookup_eq_some_iff.1 hold
    simp [hsplit]
  have hword : ∀ token ∈ back.map Prod.fst, isWordToken token := by simpa using hwords
  obtain ⟨reading, hread, rfl, hkey⟩ := h.exists_readAt hword htoken
  obtain rfl : counterpart back reading = old := by
    rw [counterpart, hkey, hold]
    rfl
  refine .swap ?_ hread hrest
  obtain ⟨c, w, rfl, -⟩ := exists_cons_of_isWordToken (hword token htoken)
  simp

/-- Where a character was kept, no token stands now that did not stand there before. -/
theorem readAt_eq_none_of_replaces {others : List Text}
    (hwords : ∀ token ∈ tokens, isWordToken token)
    (h : Replaces (wholeToken others) new (some c) t u)
    (hbefore : before'.any (wordOr "$.") = before.any (wordOr "$."))
    (hfresh : ∀ token ∈ tokens, ¬StandsBehind before token (c :: t)) :
    (wholeToken tokens).readAt ⟨before', c :: u, []⟩ = none := by
  rw [Option.eq_none_iff_forall_ne_some]
  intro reading hread
  obtain ⟨token, htoken, hu, hstands, -⟩ := exists_stands_of_readAt hread
  obtain ⟨d, w, rfl, hc, hw⟩ := exists_cons_of_isWordToken (hwords token htoken)
  obtain ⟨hcd, hrest⟩ := List.cons.inj hu
  subst hcd
  obtain ⟨s, rfl, hhead⟩ := exists_of_replaces_append h hc hw hrest
  have hstands : Stands before s := ⟨hbefore ▸ hstands.before, hhead ▸ hstands.rest⟩
  exact hfresh (c :: w) htoken (hstands.standsBehind (c :: w))

/-- Replacing goes back the way that it came. -/
theorem replaces_back (hwords : ∀ pair ∈ back, isWordToken pair.1)
    (hpairs : ∀ pair ∈ pairs, isWordToken pair.1 ∧ isWordToken pair.2)
    (h : Replaces (wholeToken (pairs.map Prod.fst)) (counterpart pairs) before t u)
    (hundoes : Undoes back pairs before t)
    (hbefore : before'.any (wordOr "$.") = before.any (wordOr "$.")) :
    Replaces (wholeToken (back.map Prod.fst)) (counterpart back) before' u t := by
  induction h generalizing before' with
  | nil => exact .nil
  | @keep before c t u hread h ih =>
    refine .keep ?_ (ih (hundoes.of_append (u := [c])) rfl)
    apply readAt_eq_none_of_replaces (by simpa using hwords) h hbefore
    simpa using hundoes.fresh
  | @swap before old u reading hne hread h ih =>
    obtain ⟨pair, hpair, hold, hnew⟩ := exists_pair_of_readAt hread
    obtain rfl : old = pair.1 := List.append_cancel_right hold
    obtain ⟨-, -, -, hstands, -⟩ := exists_stands_of_readAt hread
    obtain ⟨hword, hword'⟩ := hpairs pair hpair
    -- Both words end in a word character, so what follows is the same to both.
    obtain ⟨c, hc, hend⟩ := exists_endOf_of_isWordToken hword before
    obtain ⟨d, hd, hend'⟩ := exists_endOf_of_isWordToken hword' before'
    have hstands' : Stands before' u := by
      obtain ⟨s, hs, hhead⟩ := exists_of_replaces_append (w := []) (hend ▸ h) hc rfl rfl
      rw [List.nil_append] at hs
      exact ⟨hbefore ▸ hstands.before, by rw [← hhead, ← hs]; exact hstands.rest⟩
    have hrest : Replaces (wholeToken (back.map Prod.fst)) (counterpart back)
        (endOf before' pair.2) u reading.rest := by
      apply ih hundoes.of_append
      rw [hend, hend']
      simp [wordOr, hc, hd]
    have hcounterpart : counterpart pairs reading = pair.2 := hnew
    rw [hcounterpart]
    exact hstands'.replaces hwords
      (hundoes.inverse pair hpair (hstands.standsBehind pair.1)) hrest

/-- Exchanging tokens and then exchanging them back returns the code. -/
theorem exchange_exchange {code : Text} (hwords : ∀ pair ∈ back, isWordToken pair.1)
    (hpairs : ∀ pair ∈ pairs, isWordToken pair.1 ∧ isWordToken pair.2)
    (hundoes : Undoes back pairs none code) : exchange back (exchange pairs code) = code := by
  have hnil : ¬(wholeToken (pairs.map Prod.fst)).Describes [] := by
    rintro ⟨v, w, hvw, ⟨first, second, hsplit, -, hkeep⟩, -⟩
    obtain ⟨rfl, -⟩ := List.append_eq_nil_iff.1 hvw.symm
    obtain ⟨-, rfl⟩ := List.append_eq_nil_iff.1 hsplit.symm
    obtain ⟨p, hp, hdescribes⟩ := exists_of_describes_anyOf hkeep
    obtain ⟨token, htoken, rfl⟩ := List.mem_map.1 hp
    obtain ⟨pair, hpair, rfl⟩ := List.mem_map.1 htoken
    have hword := (hpairs pair hpair).1
    rw [← describes_text.1 hdescribes] at hword
    exact absurd hword (by decide)
  have hforth : Replaces (wholeToken (pairs.map Prod.fst)) (counterpart pairs) none code
      (exchange pairs code) := replaces_replace hnil code
  exact (replaces_back hwords hpairs hforth hundoes rfl).eq_replaceFrom.symm

end Token

/-! ## Literals -/

namespace Language

/-- The spellings of truth, falsehood and nothing. -/
def literalWords (language : Language) : List Text :=
  [language.profile.trueLiteral, language.profile.falseLiteral, language.profile.nullLiteral]

end Language

namespace Token

variable {source target : Language} {line : Text}

theorem isWordToken_of_mem_literalPairs {pair : Text × Text}
    (h : pair ∈ literalPairs source.profile target.profile) :
    isWordToken pair.1 ∧ isWordToken pair.2 := by
  have hwords (language : Language) : isWordToken language.profile.trueLiteral
      ∧ isWordToken language.profile.falseLiteral ∧ isWordToken language.profile.nullLiteral := by
    cases language <;> decide
  have hundefined : isWordToken "undefined" := by decide
  rcases mem_literalPairs h with rfl | rfl | rfl | rfl
  · exact ⟨(hwords source).1, (hwords target).1⟩
  · exact ⟨(hwords source).2.1, (hwords target).2.1⟩
  · exact ⟨(hwords source).2.2, (hwords target).2.2⟩
  · exact ⟨hundefined, (hwords target).2.2⟩

/-- The exchange back finds the word that a literal was exchanged for. -/
theorem lookup_literalPairs :
    ∀ pair ∈ literalPairs source.profile target.profile, pair.1 = "undefined"
      ∨ (literalPairs target.profile source.profile).lookup pair.2 = some pair.1 := by
  cases source <;> cases target <;> decide

/-- Only literals of one of the two languages are exchanged. -/
theorem foreign_of_mem_literalPairs :
    ∀ pair ∈ literalPairs source.profile target.profile, pair.1 = "undefined"
      ∨ pair.1 ∈ source.literalWords ∧ pair.1 ∉ target.literalWords := by
  cases source <;> cases target <;> decide

theorem undoes_literalPairs {code : Text}
    (hforeign : ∀ literal ∈ target.literalWords, literal ∉ source.literalWords
      → ¬StandsIn literal code) (hundefined : ¬StandsIn "undefined" code) :
    Undoes (literalPairs target.profile source.profile)
      (literalPairs source.profile target.profile) none code where
  fresh pair hpair := by
    rcases foreign_of_mem_literalPairs pair hpair with hword | ⟨hown, hout⟩
    · rw [hword]
      exact hundefined
    · exact hforeign pair.1 hown hout
  inverse pair hpair hstands := by
    rcases lookup_literalPairs pair hpair with hword | hlookup
    · exact absurd (hword ▸ hstands) hundefined
    · exact hlookup

theorem notMem_exchange_literalPairs {c : Char} (hc : c ∈ markChars) {code : Text}
    (hcode : c ∉ code) : c ∉ exchange (literalPairs source.profile target.profile) code := by
  apply Pattern.notMem_replace hcode
  intro before stretch reading _ hread hmem
  obtain ⟨pair, hpair, -, hnew⟩ := exists_pair_of_readAt hread
  have htoken := (isSwap_of_mem_literalPairs hpair).isToken
  exact notMem_markChars_of_isToken htoken c (hnew ▸ hmem) hc

/-- Spelling the literals of a line the way of another language, and then the way of the first
language again, returns the line. -/
theorem literals_literals (declared declared' : List Text) (catchVar catchVar' : Text)
    (hquotes : '\'' ∉ line ∧ '`' ∉ line)
    (hforeign : ∀ code ∈ source.codeIn line, ∀ literal ∈ target.literalWords,
      literal ∉ source.literalWords → ¬StandsIn literal code)
    (hundefined : ∀ code ∈ source.codeIn line, ¬StandsIn "undefined" code) :
    literals ⟨target.profile, source.profile, declared', catchVar'⟩
        (literals ⟨source.profile, target.profile, declared, catchVar⟩ line)
      = line := by
  let forth := exchange (literalPairs source.profile target.profile)
  let back := exchange (literalPairs target.profile source.profile)
  let spelled := source.quoting.mapCode forth line
  have hback (code : Text) (hcode : code ∈ source.codeIn line) : back (forth code) = code :=
    exchange_exchange (fun _ hpair ↦ (isWordToken_of_mem_literalPairs hpair).1)
      (fun _ ↦ isWordToken_of_mem_literalPairs)
      (undoes_literalPairs (hforeign code hcode) (hundefined code hcode))
  have hedits (code : Text) : Edits source.quoting.NeutralSwap code (forth code) :=
    (edits_exchange (fun _ ↦ isSwap_of_mem_literalPairs) code).mono source.neutralSwap_quoting
  have hsegments : target.quoting.segments spelled = source.quoting.segments spelled :=
    target.segments_quoting_eq source
      (Markers.notMem_mapCode hquotes.1 fun _ ↦ notMem_exchange_literalPairs (by decide))
      (Markers.notMem_mapCode hquotes.2 fun _ ↦ notMem_exchange_literalPairs (by decide))
  calc
    _ = target.quoting.mapCode back spelled := by
      rw [literals, literals, inCode_eq_mapCode rfl, inCode_eq_mapCode rfl]
    _ = source.quoting.mapCode back spelled := by
      rw [Markers.mapCode, hsegments, Markers.mapCode]
    _ = line := Markers.mapCode_mapCode_eq_self source.isApart_quoting hedits hback

/-- Of the literals in this line two are exchanged: the others are quoted, or a member, or the start
of a longer name. -/
theorem literals_literals_call :
    let line : Text := "f(True, \"False \\\" None\", a.None, None) or nullish"
    let spelled : Text := "f(true, \"False \\\" None\", a.None, null) or nullish"
    literals ⟨Language.python.profile, Language.javascript.profile, [], []⟩ line = spelled
      ∧ literals ⟨Language.javascript.profile, Language.python.profile, [], []⟩ spelled = line := by
  intro line spelled
  have hspelled : literals ⟨Language.python.profile, Language.javascript.profile, [], []⟩ line
      = spelled := by decide +kernel
  refine ⟨hspelled, ?_⟩
  rw [← hspelled]
  exact literals_literals [] [] [] [] (by decide +kernel) (by decide +kernel) (by decide +kernel)

end Token

end Recast
