import Recast.Proofs.Recasting.Tokens
import Recast.Proofs.Text.Rescan

/-!
# Strings outlive the exchange of tokens

Literals, operators and identifiers are exchanged in the code of a line.  No token that is put in
holds a quote, so the scan of the new line finds its strings where the scan of the old line found
them.  Hence a line has the same strings before and after, whichever exchanges are made, however
often and in whatever order.  Where a string ends is up to the source language, also if it is not
closed.
-/

namespace Recast

open Text

/-! ## Segments of one kind -/

namespace Markers

variable {marks : Markers} {f : Text → Text}

/-- The texts of the segments of one kind, in order. -/
def textsOf (marks : Markers) (kind : SegmentKind) (line : Text) : List Text :=
  ((marks.segments line).filter (·.kind = kind)).map Segment.text

theorem textsOf_string_mapCode (hmarks : marks.IsApart)
    (hf : ∀ t, Edits marks.NeutralSwap t (f t)) (line : Text) :
    marks.textsOf .string (marks.mapCode f line) = marks.textsOf .string line := by
  unfold textsOf
  rw [Segment.segments_mapCode hmarks hf]
  induction marks.segments line with
  | nil => rfl
  | cons segment segments ih =>
    obtain ⟨kind, t⟩ := segment
    cases kind <;> simpa [Segment.mapCode] using ih

/-- If a second change takes back what the first has made of each piece of code, it returns the
line. -/
theorem mapCode_mapCode_eq_self {g : Text → Text} {line : Text} (hmarks : marks.IsApart)
    (hf : ∀ t, Edits marks.NeutralSwap t (f t))
    (hg : ∀ code ∈ marks.textsOf .code line, g (f code) = code) :
    marks.mapCode g (marks.mapCode f line) = line := by
  have hsegment : ∀ segment ∈ marks.segments line,
      (Segment.mapCode g ∘ Segment.mapCode f) segment = segment := by
    intro segment hmem
    by_cases hkind : segment.kind = .code
    · have hcode : segment.text ∈ marks.textsOf .code line :=
        List.mem_map_of_mem (List.mem_filter.2 ⟨hmem, by simpa using hkind⟩)
      obtain ⟨kind, t⟩ := segment
      obtain rfl : kind = .code := hkind
      simp [Segment.mapCode, hg t hcode]
    · simp [Segment.mapCode, hkind]
  calc
    _ = Segment.textOf ((marks.segments line).map (Segment.mapCode g ∘ Segment.mapCode f)) := by
      rw [← Segment.textOf_map_mapCode, Segment.segments_mapCode hmarks hf, List.map_map]
    _ = Segment.textOf (marks.segments line) := by
      rw [List.map_congr_left hsegment, List.map_id']
    _ = line := marks.textOf_segments line

end Markers

/-! ## Code between quotes -/

/-- A scan asks about a character only if it meets it. -/
theorem Segment.scan_congr {comments : List Text} {quotes others t : Text}
    (h : ∀ c ∈ t, quotes.contains c = others.contains c) (quote? : Option Char) (read : Text) :
    scan ⟨comments, quotes⟩ quote? read t = scan ⟨comments, others⟩ quote? read t := by
  have hcomment (t : Text) : Markers.startsComment ⟨comments, quotes⟩ t
      = Markers.startsComment ⟨comments, others⟩ t := rfl
  fun_induction scan ⟨comments, quotes⟩ quote? read t <;>
    simp_all [scan, scan_some_close, scan_some_inside]

namespace Language

/-- How a language quotes its strings, where no comment is looked for. -/
def quoting (language : Language) : Markers :=
  { comments := [], quotes := language.profile.markers.quotes }

/-- The strings of a line, in order. -/
def stringsIn (language : Language) (line : Text) : List Text :=
  language.quoting.textsOf .string line

theorem isApart_quoting (language : Language) : language.quoting.IsApart :=
  fun _ _ _ hmarker ↦ absurd hmarker List.not_mem_nil

/-- The pieces of code of a line, in order. -/
def codeIn (language : Language) (line : Text) : List Text :=
  language.quoting.textsOf .code line

/-- Languages differ in what they make of single quotes and back quotes only. -/
theorem segments_quoting_eq (language other : Language) {line : Text} (hsingle : '\'' ∉ line)
    (hback : '`' ∉ line) : language.quoting.segments line = other.quoting.segments line := by
  have hdouble (language : Language) {c : Char} (hc : c ∈ line) :
      language.profile.markers.quotes.contains c = decide (c = '"') := by
    have hne : c ≠ '\'' := ne_of_mem_of_not_mem hc hsingle
    have hne' : c ≠ '`' := ne_of_mem_of_not_mem hc hback
    cases language <;> simp [profile, curlyProfile, Text.allQuotes, hne, hne']
  apply Segment.scan_congr
  intro c hc
  rw [hdouble language hc, hdouble other hc]

/-- A token has nothing to do with quotes. -/
theorem neutralSwap_quoting (language : Language) {old new : Text} (h : Token.IsSwap old new) :
    language.quoting.NeutralSwap old new := by
  refine ⟨Token.ne_nil_of_isToken h.isToken, fun c hc ↦ ?_⟩
  have hneutral := Markers.isNeutral_iff.1
    (language.isNeutral_of_notMem (Token.notMem_markChars_of_isToken h.isToken c hc))
  exact Markers.isNeutral_iff.2 ⟨hneutral.1, hneutral.2.1, by simp [quoting]⟩

end Language

namespace Token

variable {source : Language} {context : Context} {f : Text → Text}

theorem inCode_eq_mapCode (hsource : context.source = source.profile) (f : Text → Text)
    (line : Text) : inCode context f line = source.quoting.mapCode f line := by
  rw [inCode, hsource]
  rfl

theorem stringsIn_inCode (hsource : context.source = source.profile)
    (hf : ∀ code, Edits IsSwap code (f code)) (line : Text) :
    source.stringsIn (inCode context f line) = source.stringsIn line := by
  rw [inCode_eq_mapCode hsource]
  apply Markers.textsOf_string_mapCode source.isApart_quoting
  intro code
  exact (hf code).mono source.neutralSwap_quoting

theorem stringsIn_literals {target : Language} (hsource : context.source = source.profile)
    (htarget : context.target = target.profile) (line : Text) :
    source.stringsIn (literals context line) = source.stringsIn line := by
  apply stringsIn_inCode hsource
  rw [hsource, htarget]
  exact edits_exchange fun _ ↦ isSwap_of_mem_literalPairs

theorem stringsIn_operators (hsource : context.source = source.profile) (line : Text) :
    source.stringsIn (operators context line) = source.stringsIn line := by
  have hsymbols (line : Text) (changed : Prop) [Decidable changed] :
      source.stringsIn (if changed then inCode context (wordsToSymbols context.source.language
        (hasStrictEquality context.target.language)) line else line) = source.stringsIn line := by
    split
    · exact stringsIn_inCode hsource (edits_wordsToSymbols _ _) line
    · rfl
  simp only [operators]
  split
  · exact stringsIn_inCode hsource edits_symbolsToWords line
  · split
    · rw [stringsIn_inCode hsource edits_relaxEquality, hsymbols]
    · rw [hsymbols]

theorem stringsIn_identifiers (hsource : context.source = source.profile) (line : Text) :
    source.stringsIn (identifiers context line) = source.stringsIn line := by
  have hsigils (line : Text) (dropped : Prop) [Decidable dropped] :
      source.stringsIn (if dropped then inCode context (dropSigils context.target.language) line
        else line) = source.stringsIn line := by
    split
    · exact stringsIn_inCode hsource (edits_dropSigils _) line
    · rfl
  rw [identifiers, hsigils]
  split
  · rename_i old new hold hnew
    split
    · exact stringsIn_inCode hsource
        (edits_exchangeReceivers (isToken_of_receiver? hold) (isToken_of_receiver? hnew)) line
    · rfl
  · rfl

/-! ## Exchanges -/

/-- An exchange of tokens, in the order in which the rules come to them. -/
inductive Exchange where
  | identifiers
  | literals
  | operators
  deriving DecidableEq, Repr

/-- The line after the exchange. -/
def Exchange.apply (context : Context) (line : Text) : Exchange → Text
  | identifiers => Token.identifiers context line
  | literals => Token.literals context line
  | operators => Token.operators context line

theorem Exchange.stringsIn_apply {target : Language} (hsource : context.source = source.profile)
    (htarget : context.target = target.profile) (exchange : Exchange) (line : Text) :
    source.stringsIn (exchange.apply context line) = source.stringsIn line := by
  cases exchange with
  | identifiers => exact stringsIn_identifiers hsource line
  | literals => exact stringsIn_literals hsource htarget line
  | operators => exact stringsIn_operators hsource line

/-- No exchange of tokens between two languages changes the strings of a line, and neither do
several of them, one after another. -/
theorem stringsIn_exchanges (source target : Language) (declared : List Text) (catchVar : Text)
    (exchanges : List Exchange) (line : Text) :
    source.stringsIn
        (exchanges.foldl (Exchange.apply ⟨source.profile, target.profile, declared, catchVar⟩) line)
      = source.stringsIn line := by
  induction exchanges generalizing line with
  | nil => rfl
  | cons exchange exchanges ih =>
    calc
      _ = source.stringsIn
          (exchange.apply ⟨source.profile, target.profile, declared, catchVar⟩ line) := ih _
      _ = source.stringsIn line := Exchange.stringsIn_apply rfl rfl exchange line

end Token

end Recast
