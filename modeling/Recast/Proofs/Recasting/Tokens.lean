import Recast.Recasting.Token
import Recast.Proofs.Emission.Wording
import Recast.Proofs.Normalization.Swaps

/-!
# What the token rules swap

Literals, operators, receivers and sigils are exchanged by editing the code of a line.  Each swap
takes out a token and puts another in its place, and neither holds a character that marks a string,
a comment or a line.  So the traits of a line outlive the exchange.
-/

namespace Recast.Token

open Text Pattern

/-- Whether a text is a token: it is not empty, and no character of it marks a string, a comment or
a line. -/
def isToken (t : Text) : Bool :=
  !t.isEmpty && t.all fun c ↦ isPlain c && !markChars.contains c

/-- A swap of a stretch without marks for a token. -/
structure IsSwap (old new : Text) : Prop where
  old_ne_nil : old ≠ []
  old_notMem : ∀ c ∈ old, c ∉ markChars
  isToken : isToken new

variable {trait : Trait} {old new t : Text} {p : Pattern}

theorem joins_of_isToken (h : isToken t) : trait.Joins t := by
  simp only [isToken, Bool.and_eq_true, Bool.not_eq_true', List.all_eq_true] at h
  refine Trait.joins_of_plain (List.all_eq_true.2 fun c hc ↦ (h.2 c hc).1) ?_
  rintro rfl
  exact absurd h.1 (by simp)

theorem notMem_markChars_of_isToken (h : isToken t) : ∀ c ∈ t, c ∉ markChars := by
  simp only [isToken, Bool.and_eq_true, List.all_eq_true] at h
  intro c hc
  simpa using (h.2 c hc).2

theorem ne_nil_of_isToken (h : isToken t) : t ≠ [] := by
  rintro rfl
  exact absurd h (by decide)

theorem isSwap_of_isToken (hold : isToken old) (hnew : isToken new) : IsSwap old new :=
  ⟨ne_nil_of_isToken hold, notMem_markChars_of_isToken hold, hnew⟩

/-- Replacing what a pattern without marks reads by a token swaps tokens. -/
theorem edits_replace_token (hnew : isToken new) (htakes : p.takes)
    (hrefuses : markChars.all (p.refuses ·)) (t : Text) :
    Edits IsSwap t (p.replace (fun _ ↦ new) t) := by
  refine edits_replace_const (fun u hu ↦ ?_) t
  have hne := ne_nil_of_takes htakes hu
  refine ⟨hne, hne, fun c hc hmark ↦ ?_, hnew⟩
  exact (onlyReads_of_refuses (List.all_eq_true.1 hrefuses c hmark)).of_describes hu c hc rfl

theorem edits_substitute_token (hold : isToken old) (hnew : isToken new) (t : Text) :
    Edits IsSwap t (substitute old new t) := by
  refine (edits_substitute (ne_nil_of_isToken hold) t).mono ?_
  rintro _ _ ⟨rfl, rfl⟩
  exact isSwap_of_isToken hold hnew

/-! ## Literals -/

theorem exists_of_describes_anyOf {patterns : List Pattern} {u : Text}
    (h : (anyOf patterns).Describes u) : ∃ p ∈ patterns, p.Describes u := by
  induction patterns with
  | nil =>
    obtain ⟨c, -, hc⟩ := h
    exact absurd hc (by simp)
  | cons p patterns ih =>
    cases patterns with
    | nil => exact ⟨p, List.mem_cons_self, h⟩
    | cons q patterns =>
      rcases h with h | h
      · exact ⟨p, List.mem_cons_self, h⟩
      · obtain ⟨r, hr, h⟩ := ih h
        exact ⟨r, List.mem_cons_of_mem p hr, h⟩

/-- Whether a token between this character and this text is neither part of a longer name nor a
member of anything. -/
structure Stands (before : Option Char) (rest : Text) : Prop where
  before : before.any (wordOr "$.") = false
  rest : rest.head?.any (wordOr "$") = false

/-- Where one of the tokens is read, it stands by itself. -/
theorem exists_stands_of_readAt {tokens : List Text} {before : Option Char} {t : Text}
    {reading : Reading} (h : (wholeToken tokens).readAt ⟨before, t, []⟩ = some reading) :
    ∃ token ∈ tokens, t = token ++ reading.rest ∧ Stands before reading.rest
      ∧ reading.get .keyword = token := by
  obtain ⟨middle, hmiddle, hlast⟩ := List.mem_flatMap.1 (mem_outcomes_of_readAt h)
  have hrest := (mem_outcomes_look.1 hlast).1
  obtain rfl := eq_of_mem_outcomes_look hlast
  obtain ⟨first, hfirst, hkeyword⟩ := List.mem_flatMap.1 hmiddle
  have hbefore := (mem_outcomes_look.1 hfirst).1
  obtain rfl := eq_of_mem_outcomes_look hfirst
  obtain ⟨u, hu, hdescribes, hget⟩ := exists_of_mem_keep hkeyword
  obtain ⟨p, hp, hdescribes⟩ := exists_of_describes_anyOf hdescribes
  obtain ⟨token, htoken, rfl⟩ := List.mem_map.1 hp
  obtain rfl := describes_text.1 hdescribes
  refine ⟨u, htoken, hu, ⟨by simpa using hbefore, ?_⟩, by rw [Reading.get, hget]; rfl⟩
  cases hbehind : reading.rest with
  | nil => rfl
  | cons c rest => simpa [readAt, run, hbehind] using hrest

/-- Where one of the tokens is read, it is exchanged for the other of its pair. -/
theorem exists_pair_of_readAt {pairs : List (Text × Text)} {before : Option Char} {t : Text}
    {reading : Reading}
    (h : (wholeToken (pairs.map Prod.fst)).readAt ⟨before, t, []⟩ = some reading) :
    ∃ pair ∈ pairs, t = pair.1 ++ reading.rest
      ∧ (pairs.lookup (reading.get .keyword)).getD (reading.get .keyword) = pair.2 := by
  obtain ⟨u, htoken, hu, -, hkey⟩ := exists_stands_of_readAt h
  obtain ⟨new, hnew⟩ : ∃ new, pairs.lookup u = some new := by
    rw [← Option.isSome_iff_exists, List.lookup_isSome_iff]
    obtain ⟨pair, hpair, rfl⟩ := List.mem_map.1 htoken
    exact ⟨pair, hpair, by simp⟩
  obtain ⟨earlier, later, hpairs, -⟩ := List.lookup_eq_some_iff.1 hnew
  exact ⟨(u, new), by simp [hpairs], hu, by rw [hkey, hnew]; rfl⟩

theorem edits_exchange {pairs : List (Text × Text)}
    (hpairs : ∀ pair ∈ pairs, IsSwap pair.1 pair.2) (code : Text) :
    Edits IsSwap code (exchange pairs code) := by
  refine edits_replace (fun {before t reading} hread ↦ ?_) code
  obtain ⟨pair, hpair, ht, hnew⟩ := exists_pair_of_readAt hread
  have hswap := hpairs pair hpair
  exact ⟨pair.1, ht, hswap.old_ne_nil, hnew ▸ hswap⟩

theorem edits_exchange_of_joins {pairs : List (Text × Text)}
    (hpairs : ∀ pair ∈ pairs, trait.Joins pair.2) (code : Text) :
    Edits (fun _ new ↦ trait.Joins new) code (exchange pairs code) := by
  refine edits_replace_of_new (fun {before t reading} hread ↦ ?_) code
  obtain ⟨pair, hpair, -, hnew⟩ := exists_pair_of_readAt hread
  exact hnew ▸ hpairs pair hpair

theorem mem_literalPairs {source target : Profile} {pair : Text × Text}
    (h : pair ∈ literalPairs source target) :
    pair = (source.trueLiteral, target.trueLiteral)
      ∨ pair = (source.falseLiteral, target.falseLiteral)
      ∨ pair = (source.nullLiteral, target.nullLiteral)
      ∨ pair = (("undefined" : Text), target.nullLiteral) := by
  rcases List.mem_append.1 (List.mem_filter.1 h).1 with h | h
  · simp only [List.mem_cons, List.not_mem_nil, or_false] at h
    rcases h with h | h | h
    · exact .inl h
    · exact .inr (.inl h)
    · exact .inr (.inr (.inl h))
  · split at h
    · exact .inr (.inr (.inr (List.mem_singleton.1 h)))
    · exact .inr (.inr (.inr (List.mem_singleton.1 h)))
    · exact absurd h List.not_mem_nil

theorem joins_of_mem_literalPairs {source target : Profile} (htarget : target.HasTrait trait)
    {pair : Text × Text} (h : pair ∈ literalPairs source target) : trait.Joins pair.2 := by
  rcases mem_literalPairs h with rfl | rfl | rfl | rfl
  · exact htarget.trueLiteral
  · exact htarget.falseLiteral
  · exact htarget.nullLiteral
  · exact htarget.nullLiteral

theorem isSwap_of_mem_literalPairs {source target : Language} {pair : Text × Text}
    (h : pair ∈ literalPairs source.profile target.profile) : IsSwap pair.1 pair.2 := by
  have htrue (language : Language) : isToken language.profile.trueLiteral := by
    cases language <;> decide
  have hfalse (language : Language) : isToken language.profile.falseLiteral := by
    cases language <;> decide
  have hnull (language : Language) : isToken language.profile.nullLiteral := by
    cases language <;> decide
  have hundefined : isToken "undefined" := by decide
  rcases mem_literalPairs h with rfl | rfl | rfl | rfl
  · exact isSwap_of_isToken (htrue source) (htrue target)
  · exact isSwap_of_isToken (hfalse source) (hfalse target)
  · exact isSwap_of_isToken (hnull source) (hnull target)
  · exact isSwap_of_isToken hundefined (hnull target)

theorem edits_literals {context : Context} {source target : Language}
    (hsource : context.source = source.profile) (htarget : context.target = target.profile)
    (line : Text) : Edits IsSwap line (literals context line) := by
  rw [literals, hsource, htarget]
  exact edits_mapCode (edits_exchange fun _ ↦ isSwap_of_mem_literalPairs) line

/-! ## Operators -/

theorem edits_wordsToSymbols (source : Language) (strict : Bool) (code : Text) :
    Edits IsSwap code (wordsToSymbols source strict code) := by
  have hidentity : Edits IsSwap code
      (if source = .python then identityToSymbols strict code else code) := by
    split
    · refine (edits_replace_token ?_ (by decide) (by decide) code).trans
        (edits_replace_token ?_ (by decide) (by decide) _)
      · cases strict <;> decide
      · cases strict <;> decide
    · exact .refl code
  have hand (t : Text) : Edits IsSwap t ((wholeWord "and").replace (fun _ ↦ "&&") t) :=
    edits_replace_token (by decide) (by decide) (by decide) t
  have hor (t : Text) : Edits IsSwap t ((wholeWord "or").replace (fun _ ↦ "||") t) :=
    edits_replace_token (by decide) (by decide) (by decide) t
  have hnot (t : Text) : Edits IsSwap t (wordNot.replace (fun _ ↦ "!") t) :=
    edits_replace_token (by decide) (by decide) (by decide) t
  exact hidentity.trans ((hand _).trans ((hor _).trans (hnot _)))

theorem edits_relaxEquality (code : Text) : Edits IsSwap code (relaxEquality code) :=
  (edits_substitute_token (by decide) (by decide) code).trans
    (edits_substitute_token (by decide) (by decide) _)

theorem isSwap_of_wordSwap (h : Logic.WordSwap old new) : IsSwap old new := by
  obtain @⟨op, hop, before, after, new, hbefore, hafter, hnew⟩ := h
  have hspacing {c : Char} (h : isSpacing c) : isPlain c && !markChars.contains c := by
    rcases Bool.or_eq_true_iff.1 h with h | h <;> rw [eq_of_beq h] <;> decide
  have hspace {t : Text} (h : ∀ c ∈ t, isSpacing c) : ∀ c ∈ t, c ∉ markChars := by
    intro c hc
    simpa using (Bool.and_eq_true_iff.1 (hspacing (h c hc))).2
  have hsymbol : ∀ c ∈ op.symbol, c ∉ markChars :=
    isUnmarked_iff.1 (by rcases hop with rfl | rfl <;> decide)
  have hword : (op.word ++ [' ']).all fun c ↦ isPlain c && !markChars.contains c := by
    rcases hop with rfl | rfl <;> decide
  have hindent : new.all fun c ↦ isPlain c && !markChars.contains c :=
    List.all_eq_true.2 fun c hc ↦ hspacing (hnew c hc)
  refine ⟨by simp [Logic.symbol_ne_nil hop], ?_, ?_⟩
  · simp only [List.mem_append]
    rintro c ((hc | hc) | hc)
    · exact hspace hbefore c hc
    · exact hsymbol c hc
    · exact hspace hafter c hc
  · have hall : (new ++ (op.word ++ [' '])).all fun c ↦ isPlain c && !markChars.contains c := by
      rw [List.all_append, hindent, hword]
      rfl
    rw [List.append_assoc]
    exact Bool.and_eq_true_iff.2 ⟨by simp, hall⟩

theorem edits_symbolsToWords (code : Text) : Edits IsSwap code (symbolsToWords code) := by
  have hwords (t : Text) : Edits IsSwap t (Logic.toWords t) :=
    (Logic.edits_toWords t).mono isSwap_of_wordSwap
  have hnot (t : Text) : Edits IsSwap t (symbolNot.replace (fun _ ↦ "not ") t) :=
    edits_replace_token (by decide) (by decide) (by decide) t
  exact (edits_relaxEquality code).trans ((hwords _).trans (hnot _))

theorem edits_operators (context : Context) (line : Text) :
    Edits IsSwap line (operators context line) := by
  simp only [operators]
  split
  · exact edits_mapCode edits_symbolsToWords line
  · have hsymbols : Edits IsSwap line
        (if context.target.logicStyle ≠ .word ∧ context.source.logicStyle ≠ .symbol then
          inCode context (wordsToSymbols context.source.language
            (hasStrictEquality context.target.language)) line
        else line) := by
      split
      · exact edits_mapCode (edits_wordsToSymbols _ _) line
      · exact .refl line
    split
    · exact hsymbols.trans (edits_mapCode edits_relaxEquality _)
    · exact hsymbols

/-! ## Receivers and sigils -/

theorem isToken_of_receiver? {language : Language} {receiver : Text}
    (h : receiver? language = some receiver) : isToken receiver := by
  cases language <;> simp only [receiver?, Option.some.injEq, reduceCtorEq] at h <;> subst h <;>
    decide

theorem edits_exchangeReceivers (hold : isToken old) (hnew : isToken new) (code : Text) :
    Edits IsSwap code (exchangeReceivers old new code) := by
  refine edits_replace_const (fun u hu ↦ ?_) code
  obtain ⟨-, w, rfl, rfl, hw⟩ := hu
  rw [List.nil_append, describes_text.1 hw]
  exact ⟨ne_nil_of_isToken hold, isSwap_of_isToken hold hnew⟩

theorem exists_of_readAt_sigil {before : Option Char} {t : Text} {reading : Reading}
    (h : sigil.readAt ⟨before, t, []⟩ = some reading) :
    ∃ c rest, t = '$' :: reading.rest ∧ reading.rest = c :: rest ∧ (c.isAlpha || c == '_') := by
  obtain ⟨middle, hmiddle, hahead⟩ := List.mem_flatMap.1 (mem_outcomes_of_readAt h)
  obtain ⟨c, rest, ht, hc, rfl⟩ := exists_of_mem_outcomes_char hmiddle
  have hlook := (mem_outcomes_look.1 hahead).1
  obtain rfl := eq_of_mem_outcomes_look hahead
  obtain rfl := eq_of_beq hc
  cases rest with
  | nil => simp [readAt, run] at hlook
  | cons c rest => exact ⟨c, rest, ht, rfl, by simpa [readAt, run] using hlook⟩

theorem isSwap_sigil {c : Char} (h : c.isAlpha || c == '_') : IsSwap ['$', c] [c] := by
  have hletters : ('\n' :: markChars).all fun d ↦ !(d.isAlpha || d == '_') := by decide
  have hother {d : Char} (hd : d ∈ '\n' :: markChars) : c ≠ d := by
    rintro rfl
    have hno := List.all_eq_true.1 hletters c hd
    rw [h] at hno
    exact absurd hno (by decide)
  have hmarks : c ∉ markChars := fun hc ↦ hother (List.mem_cons_of_mem _ hc) rfl
  have hplain : isPlain c :=
    isPlain_iff.2 ⟨hother List.mem_cons_self, hother (by decide), hother (by decide)⟩
  refine ⟨by simp, ?_, by simp [isToken, hplain, hmarks]⟩
  simp only [List.mem_cons, List.not_mem_nil, or_false]
  rintro d (rfl | rfl)
  · decide
  · exact hmarks

/-- A sigil is taken off together with the letter behind it, which is put back. -/
theorem edits_sigil (code : Text) : Edits IsSwap code (sigil.replace (fun _ ↦ []) code) := by
  -- A text that starts with another character keeps it, so the letter can be split off.
  have hedits {before : Option Char} {t u : Text} (h : Replaces sigil (fun _ ↦ []) before t u) :
      Edits IsSwap t u ∧ ∀ c rest, t = c :: rest → c ≠ '$' →
        ∃ v, u = c :: v ∧ Edits IsSwap rest v := by
    induction h with
    | nil => exact ⟨.nil, by simp⟩
    | @keep before c t u hread h ih =>
      refine ⟨.keep c ih.1, ?_⟩
      rintro _ _ ⟨rfl, rfl⟩ -
      exact ⟨u, rfl, ih.1⟩
    | @swap before old u reading hne hread h ih =>
      obtain ⟨c, rest, hold, hrest, hc⟩ := exists_of_readAt_sigil hread
      have hletter : c ≠ '$' := by
        rintro rfl
        exact absurd hc (by decide)
      obtain ⟨v, rfl, hv⟩ := ih.2 c rest hrest hletter
      rw [hold, hrest]
      refine ⟨.swap (isSwap_sigil hc) hv, ?_⟩
      rintro _ _ ⟨rfl, -⟩ hne
      exact absurd rfl hne
  exact (hedits (replaces_replace (by rintro ⟨v, w, h, ⟨c, rfl, -⟩, -⟩; simp at h) code)).1

theorem edits_dropSigils (target : Language) (code : Text) :
    Edits IsSwap code (dropSigils target code) := by
  refine (edits_substitute_token (by decide) ?_ code).trans (edits_sigil _)
  split <;> decide

theorem edits_identifiers (context : Context) (line : Text) :
    Edits IsSwap line (identifiers context line) := by
  have hsigils (line : Text) (dropped : Prop) [Decidable dropped] : Edits IsSwap line
      (if dropped then inCode context (dropSigils context.target.language) line else line) := by
    split
    · exact edits_mapCode (edits_dropSigils _) line
    · exact .refl line
  rw [identifiers]
  refine Edits.trans ?_ (hsigils _ _)
  split
  · rename_i new hold hnew
    split
    · exact edits_mapCode
        (edits_exchangeReceivers (isToken_of_receiver? hold) (isToken_of_receiver? hnew)) line
    · exact .refl line
  · exact .refl line

/-! ## Traits -/

variable {context : Context}

theorem holds_of_isSwap_edits {u : Text} (h : Edits IsSwap t u) (ht : trait.Holds t) :
    trait.Holds u :=
  Trait.holds_of_edits h (fun hswap ↦ joins_of_isToken hswap.isToken) ht

theorem holds_literals (hcontext : context.HasTrait trait) (h : trait.Holds t) :
    trait.Holds (literals context t) := by
  have hedits : Edits (fun _ new ↦ trait.Joins new) t (literals context t) :=
    edits_mapCode (edits_exchange_of_joins fun _ ↦ joins_of_mem_literalPairs hcontext.target) t
  exact Trait.holds_of_edits hedits (fun hjoins ↦ hjoins) h

theorem holds_operators (h : trait.Holds t) : trait.Holds (operators context t) :=
  holds_of_isSwap_edits (edits_operators context t) h

theorem holds_identifiers (h : trait.Holds t) : trait.Holds (identifiers context t) :=
  holds_of_isSwap_edits (edits_identifiers context t) h

theorem holds_endings (hcontext : context.HasTrait trait) (h : trait.Holds t) :
    trait.Holds (endings context t) := by
  rw [endings]
  split
  · rename_i terminator hterminator
    split
    · exact (hcontext.target.terminator terminator hterminator).append_right
        (trait.of_infix (trimEnd_isPrefix t).isInfix h)
    · exact h
  · exact h

end Recast.Token
