import Mathlib.Tactic.Ring
import Recast.Text.Json
import Recast.Proofs.Text.Characters

/-!
# Reading JSON back

A reader of JSON records whose members are strings, as far as any writer may go: every escape, pairs
of surrogate units, and blanks between the tokens.  The main statements are that a string and a
record are read back as they were written, and that they are written in printable ASCII.
-/

namespace Recast.Text

/-! ## Characters of a string -/

/-- The value of a hexadecimal digit in either case. -/
def hexValue? (c : Char) : Option Nat :=
  if c.isDigit then some (c.toNat - 48)
  else if 'a' ≤ c && c ≤ 'f' then some (c.toNat - 87)
  else if 'A' ≤ c && c ≤ 'F' then some (c.toNat - 55)
  else none

/-- Reads a number of hexadecimal digits after those that spell `value`. -/
def readHex? : (digits value : Nat) → Text → Option (Nat × Text)
  | 0, value, t => some (value, t)
  | _ + 1, _, [] => none
  | digits + 1, value, c :: t =>
    match hexValue? c with
    | some digit => readHex? digits (value * 16 + digit) t
    | none => none

/-- The character at a code point. -/
def charAt? (n : Nat) : Option Char :=
  if n.isValidChar then some (.ofNat n) else none

/-- The character of an escape of one letter. -/
def escaped? : Char → Option Char
  | '"' => some '"'
  | '\\' => some '\\'
  | '/' => some '/'
  | 'b' => some '\x08'
  | 'f' => some '\x0c'
  | 'n' => some '\n'
  | 'r' => some '\r'
  | 't' => some '\t'
  | _ => none

/-- Reads the low unit of a surrogate pair, whose high unit has been read. -/
def readLow? (high : Nat) : Text → Option (Char × Text)
  | '\\' :: 'u' :: t =>
    match readHex? 4 0 t with
    | some (low, rest) =>
      if 0xdc00 ≤ low && low < 0xe000 then
        (charAt? (0x10000 + (high - 0xd800) * 0x400 + (low - 0xdc00))).map (·, rest)
      else none
    | none => none
  | _ => none

/-- Reads a character of a JSON string. -/
def readChar? : Text → Option (Char × Text)
  | '\\' :: 'u' :: t =>
    match readHex? 4 0 t with
    | some (n, rest) =>
      if 0xd800 ≤ n && n < 0xdc00 then readLow? n rest else (charAt? n).map (·, rest)
    | none => none
  | '\\' :: c :: rest => (escaped? c).map (·, rest)
  | ['\\'] => none
  | c :: rest => if c.toNat < 0x20 then none else some (c, rest)
  | [] => none

section Lengths

variable {t rest : Text} {c : Char} {n digits value : Nat}

theorem length_le_of_readHex? (h : readHex? digits value t = some (n, rest)) :
    rest.length ≤ t.length := by
  fun_induction readHex? digits value t with
  | case1 value t =>
    obtain ⟨-, rfl⟩ := Prod.mk.inj (Option.some.inj h)
    exact le_refl _
  | case2 | case4 => exact absurd h (by simp)
  | case3 digits value c t digit hdigit ih => exact (ih h).trans (Nat.le_succ _)

theorem eq_of_map_pair {after : Text} {c? : Option Char} (h : c?.map (·, after) = some (c, rest)) :
    after = rest := by
  obtain ⟨_, -, hpair⟩ := Option.map_eq_some_iff.1 h
  exact (Prod.mk.inj hpair).2

theorem length_le_of_readLow? {high : Nat} (h : readLow? high t = some (c, rest)) :
    rest.length ≤ t.length := by
  unfold readLow? at h
  split at h
  · next t =>
    split at h
    · next low after hread =>
      split at h
      · rw [← eq_of_map_pair h]
        have hlow := length_le_of_readHex? hread
        simp only [List.length_cons]
        omega
      · exact absurd h (by simp)
    · exact absurd h (by simp)
  · exact absurd h (by simp)

theorem length_lt_of_readChar? (h : readChar? t = some (c, rest)) : rest.length < t.length := by
  unfold readChar? at h
  split at h
  · next t =>
    split at h
    · next n after hread =>
      have hafter := length_le_of_readHex? hread
      split at h
      · have hrest := length_le_of_readLow? h
        simp only [List.length_cons]
        omega
      · rw [← eq_of_map_pair h]
        simp only [List.length_cons]
        omega
    · exact absurd h (by simp)
  · rw [← eq_of_map_pair h]
    simp only [List.length_cons]
    omega
  · exact absurd h (by simp)
  · split at h
    · exact absurd h (by simp)
    · obtain ⟨-, rfl⟩ := Prod.mk.inj (Option.some.inj h)
      simp
  · exact absurd h (by simp)

end Lengths

/-! ## Strings and records -/

/-- Reads a JSON string after its opening quote. -/
def readString? (t : Text) : Option (Text × Text) :=
  if t.head? = some '"' then some ([], t.tail)
  else match _ : readChar? t with
    | none => none
    | some (c, rest) =>
      match readString? rest with
      | none => none
      | some (string, after) => some (c :: string, after)
termination_by t.length
decreasing_by exact length_lt_of_readChar? ‹_›

/-- A token of a JSON record whose members are strings. -/
inductive JsonToken where
  | opening
  | closing
  | colon
  | comma
  | string (t : Text)

/-- The tokens that are one character. -/
def jsonMark? : Char → Option JsonToken
  | '{' => some .opening
  | '}' => some .closing
  | ':' => some .colon
  | ',' => some .comma
  | _ => none

/-- What may stand between tokens. -/
def isJsonBlank (c : Char) : Bool :=
  c == ' ' || c == '\t' || c == '\n' || c == '\r'

theorem length_lt_of_readString? {t string rest : Text}
    (h : readString? t = some (string, rest)) : rest.length < t.length + 1 := by
  fun_induction readString? t generalizing string with
  | case1 t =>
    obtain ⟨-, rfl⟩ := Prod.mk.inj (Option.some.inj h)
    rw [List.length_tail]
    omega
  | case2 | case3 => exact absurd h (by simp)
  | case4 t hopen c after hread inner other hinner ih =>
    obtain ⟨-, rfl⟩ := Prod.mk.inj (Option.some.inj h)
    have hlater := ih hinner
    have hchar := length_lt_of_readChar? hread
    omega

/-- The tokens of a text, if it is made of tokens. -/
def jsonTokens? (t : Text) : Option (List JsonToken) :=
  match t with
  | [] => some []
  | '"' :: rest =>
    match _ : readString? rest with
    | none => none
    | some (string, after) => (jsonTokens? after).map (.string string :: ·)
  | c :: rest =>
    if isJsonBlank c then jsonTokens? rest
    else match jsonMark? c with
      | none => none
      | some mark => (jsonTokens? rest).map (mark :: ·)
termination_by t.length
decreasing_by
  · exact length_lt_of_readString? ‹_›
  · simp
  · simp

/-- The members of a record after its opening brace, of which there is at least one. -/
def jsonMembers? : List JsonToken → Option (List (Text × Text))
  | [.string name, .colon, .string value, .closing] => some [(name, value)]
  | .string name :: .colon :: .string value :: .comma :: others =>
    (jsonMembers? others).map ((name, value) :: ·)
  | _ => none

/-- The members of a record. -/
def jsonRecord? (t : Text) : Option (List (Text × Text)) :=
  match jsonTokens? t with
  | some [.opening, .closing] => some []
  | some (.opening :: tokens) => jsonMembers? tokens
  | _ => none

/-! ## What is written is read -/

section RoundTrip

variable {c : Char} {n : Nat} {t rest : Text}

theorem hexValue?_digitChar (h : n < 16) : hexValue? (Nat.digitChar n) = some n := by
  have hall : ∀ n < 16, hexValue? (Nat.digitChar n) = some n := by decide
  exact hall n h

theorem readHex?_hexDigits (digits more value n : Nat) (t : Text) :
    readHex? (digits + more) value (hexDigits n digits ++ t)
      = readHex? more (value * 16 ^ digits + n % 16 ^ digits) t := by
  induction digits generalizing n more t with
  | zero => simp [hexDigits, Nat.mod_one]
  | succ digits ih =>
    have hdigit := hexValue?_digitChar (Nat.mod_lt n (by decide : 16 > 0))
    have hstep (value : Nat) : readHex? (1 + more) value (Nat.digitChar (n % 16) :: t)
        = readHex? more (value * 16 + n % 16) t := by
      rw [Nat.add_comm, readHex?, hdigit]
    have hvalue : (value * 16 ^ digits + n / 16 % 16 ^ digits) * 16 + n % 16
        = value * 16 ^ (digits + 1) + n % 16 ^ (digits + 1) := by
      rw [pow_succ', Nat.mod_mul]
      ring
    rw [hexDigits, List.append_assoc, Nat.add_assoc, ih, List.singleton_append, hstep, hvalue]

theorem readHex?_four (h : n < 16 ^ 4) (t : Text) :
    readHex? 4 0 (hexDigits n 4 ++ t) = some (n, t) := by
  rw [readHex?_hexDigits 4 0, readHex?, Nat.zero_mul, Nat.zero_add, Nat.mod_eq_of_lt h]

theorem charAt?_toNat (c : Char) : charAt? c.toNat = some c := by
  have hvalid : c.toNat.isValidChar := c.valid
  simp [charAt?, hvalid]

theorem unitEscape_append (n : Nat) (t : Text) :
    unitEscape n ++ t = '\\' :: 'u' :: (hexDigits n 4 ++ t) :=
  rfl

theorem readChar?_cons (hescape : c ≠ '\\') (hprint : 0x20 ≤ c.toNat) (t : Text) :
    readChar? (c :: t) = some (c, t) := by
  rw [readChar?.eq_def]
  split
  · simp_all
  · simp_all
  · simp_all
  · next d rest _ _ _ heq =>
    obtain ⟨rfl, rfl⟩ := List.cons.inj heq
    exact if_neg (by omega)
  · simp_all

/-- No character is half of a surrogate pair, so its unit is read as the character. -/
theorem readChar?_unitEscape (h : c.toNat < 16 ^ 4) (t : Text) :
    readChar? (unitEscape c.toNat ++ t) = some (c, t) := by
  have hvalid : c.toNat < 0xd800 ∨ 0xdfff < c.toNat ∧ c.toNat < 0x110000 := c.valid
  rw [unitEscape_append, readChar?]
  simp only [readHex?_four h]
  rw [if_neg (by simp; omega), charAt?_toNat]
  rfl

theorem readLow?_unitEscape (h : 16 ^ 4 ≤ c.toNat) (t : Text) :
    readLow? (0xd800 + (c.toNat - 0x10000) / 0x400)
        (unitEscape (0xdc00 + (c.toNat - 0x10000) % 0x400) ++ t)
      = some (c, t) := by
  have hlow : (c.toNat - 0x10000) % 0x400 < 0x400 := Nat.mod_lt _ (by decide)
  have hpoint : 0x10000 + (0xd800 + (c.toNat - 0x10000) / 0x400 - 0xd800) * 0x400
      + (0xdc00 + (c.toNat - 0x10000) % 0x400 - 0xdc00) = c.toNat := by omega
  rw [unitEscape_append, readLow?]
  simp only [readHex?_four (show 0xdc00 + (c.toNat - 0x10000) % 0x400 < 16 ^ 4 by omega)]
  rw [if_pos (by simp; omega), hpoint, charAt?_toNat]
  rfl

/-- A character beyond sixteen bits comes back from its two units. -/
theorem readChar?_unitEscapes (h : 16 ^ 4 ≤ c.toNat) (t : Text) :
    readChar? (unitEscape (0xd800 + (c.toNat - 0x10000) / 0x400)
        ++ unitEscape (0xdc00 + (c.toNat - 0x10000) % 0x400) ++ t)
      = some (c, t) := by
  have hvalid : c.toNat < 0xd800 ∨ 0xdfff < c.toNat ∧ c.toNat < 0x110000 := c.valid
  rw [List.append_assoc, unitEscape_append (0xd800 + _), readChar?]
  simp only [readHex?_four (show 0xd800 + (c.toNat - 0x10000) / 0x400 < 16 ^ 4 by omega)]
  rw [if_pos (by simp; omega), readLow?_unitEscape h]

/-- A character is read back from however it is written. -/
theorem readChar?_jsonChar (c : Char) (t : Text) : readChar? (jsonChar c ++ t) = some (c, t) := by
  unfold jsonChar
  split
  case h_8 hquote hescape hline hreturn htab hback hfeed =>
    dsimp only
    split
    · next hprint =>
      simp only [Bool.and_eq_true, decide_eq_true_eq] at hprint
      exact readChar?_cons hescape hprint.1 t
    · split
      · next hunit => exact readChar?_unitEscape hunit t
      · next hpair => exact readChar?_unitEscapes (Nat.le_of_not_lt hpair) t
  all_goals rfl

/-- How a character is written starts with a backslash, unless it is written as itself. -/
theorem head?_jsonChar_append (c : Char) (t : Text) : (jsonChar c ++ t).head? ≠ some '"' := by
  unfold jsonChar
  split
  case h_8 hquote hescape hline hreturn htab hback hfeed =>
    dsimp only
    split
    · simpa using hquote
    · split
      · simp [unitEscape]
      · simp [unitEscape]
  all_goals simp

/-- A string is read back as it was written, up to its closing quote. -/
theorem readString?_flatMap (t rest : Text) :
    readString? (t.flatMap jsonChar ++ '"' :: rest) = some (t, rest) := by
  induction t with
  | nil =>
    rw [readString?]
    simp
  | cons c t ih =>
    rw [List.flatMap_cons, List.append_assoc, readString?, if_neg (head?_jsonChar_append c _)]
    split
    · next hnone => simp [readChar?_jsonChar] at hnone
    · next d after hread =>
      rw [readChar?_jsonChar] at hread
      obtain ⟨rfl, rfl⟩ := Prod.mk.inj (Option.some.inj hread)
      rw [ih]

theorem jsonTokens?_json_append (t rest : Text) :
    jsonTokens? (json t ++ rest) = (jsonTokens? rest).map (.string t :: ·) := by
  have hjson : json t ++ rest = '"' :: (t.flatMap jsonChar ++ '"' :: rest) := by
    simp [json]
  rw [hjson, jsonTokens?]
  split
  · next hnone => simp [readString?_flatMap] at hnone
  · next string after hread =>
    rw [readString?_flatMap] at hread
    obtain ⟨rfl, rfl⟩ := Prod.mk.inj (Option.some.inj hread)
    rfl

theorem jsonTokens?_blank (rest : Text) : jsonTokens? (' ' :: rest) = jsonTokens? rest := by
  rw [jsonTokens?]
  · rfl
  · simp

theorem jsonTokens?_mark {mark : JsonToken} (hquote : c ≠ '"') (hblank : isJsonBlank c = false)
    (hmark : jsonMark? c = some mark) (rest : Text) :
    jsonTokens? (c :: rest) = (jsonTokens? rest).map (mark :: ·) := by
  rw [jsonTokens?]
  · simp [hblank, hmark]
  · exact hquote

/-- A member of a record with a string for its value. -/
def jsonMember (member : Text × Text) : Text :=
  jsonField member.1 (json member.2)

theorem jsonTokens?_jsonMember (member : Text × Text) (rest : Text) :
    jsonTokens? (jsonMember member ++ rest)
      = (jsonTokens? rest).map (.string member.1 :: .colon :: .string member.2 :: ·) := by
  have hmember : jsonMember member ++ rest
      = json member.1 ++ (':' :: ' ' :: (json member.2 ++ rest)) := by
    simp [jsonMember, jsonField]
  rw [hmember, jsonTokens?_json_append, jsonTokens?_mark (by decide) rfl rfl, jsonTokens?_blank,
    jsonTokens?_json_append, Option.map_map, Option.map_map]
  rfl

theorem exists_jsonTokens?_members (first : Text × Text) (others : List (Text × Text)) :
    ∃ tokens, jsonTokens? (joinWith ", " ((first :: others).map jsonMember) ++ ['}'])
        = some (.string first.1 :: tokens)
      ∧ jsonMembers? (.string first.1 :: tokens) = some (first :: others) := by
  induction others generalizing first with
  | nil =>
    refine ⟨[.colon, .string first.2, .closing], ?_, rfl⟩
    rw [List.map_singleton, joinWith, List.intercalate_singleton, jsonTokens?_jsonMember,
      jsonTokens?_mark (by decide) rfl rfl, jsonTokens?]
    rfl
  | cons second others ih =>
    obtain ⟨tokens, htokens, hmembers⟩ := ih second
    refine ⟨.colon :: .string first.2 :: .comma :: .string second.1 :: tokens, ?_, ?_⟩
    · have hjoin : joinWith ", " ((first :: second :: others).map jsonMember) ++ ['}']
          = jsonMember first
            ++ (',' :: ' ' :: (joinWith ", " ((second :: others).map jsonMember) ++ ['}'])) := by
        simp [joinWith, List.intercalate_cons_cons]
      rw [hjoin, jsonTokens?_jsonMember, jsonTokens?_mark (by decide) rfl rfl, jsonTokens?_blank,
        htokens]
      rfl
    · simp only [jsonMembers?, hmembers]
      rfl

/-- A record of strings is read back member by member. -/
theorem jsonRecord?_jsonRecord (members : List (Text × Text)) :
    jsonRecord? (jsonRecord (members.map jsonMember)) = some members := by
  have hrecord : jsonRecord (members.map jsonMember)
      = '{' :: (joinWith ", " (members.map jsonMember) ++ ['}']) := rfl
  rw [jsonRecord?, hrecord, jsonTokens?_mark (by decide) rfl rfl]
  cases members with
  | nil =>
    rw [List.map_nil, joinWith, List.intercalate_nil, List.nil_append,
      jsonTokens?_mark (by decide) rfl rfl, jsonTokens?]
    rfl
  | cons first others =>
    obtain ⟨tokens, htokens, hmembers⟩ := exists_jsonTokens?_members first others
    rw [htokens]
    exact hmembers

end RoundTrip

/-! ## What is written is plain -/

/-- A character of ASCII that prints, or a space. -/
def isPlain (c : Char) : Bool :=
  0x20 ≤ c.toNat && c.toNat ≤ 0x7e

section Plain

variable {c d : Char} {n digits : Nat} {t : Text}

theorem isPlain_of_mem_hexDigits (h : d ∈ hexDigits n digits) : isPlain d := by
  have hall : ∀ n < 16, isPlain (Nat.digitChar n) := by decide
  induction digits generalizing n with
  | zero => exact absurd h List.not_mem_nil
  | succ digits ih =>
    rw [hexDigits, List.mem_append, List.mem_singleton] at h
    rcases h with h | rfl
    · exact ih h
    · exact hall _ (Nat.mod_lt n (by decide))

theorem isPlain_of_mem_unitEscape (h : d ∈ unitEscape n) : isPlain d := by
  have hmark : (("\\u" : Text).all isPlain) := by decide
  rw [unitEscape, List.mem_append] at h
  rcases h with h | h
  · exact List.all_eq_true.1 hmark d h
  · exact isPlain_of_mem_hexDigits h

theorem isPlain_of_mem_jsonChar (h : d ∈ jsonChar c) : isPlain d := by
  unfold jsonChar at h
  split at h
  case h_8 =>
    dsimp only at h
    split at h
    · next hprint => rwa [List.mem_singleton.1 h]
    · split at h
      · exact isPlain_of_mem_unitEscape h
      · rcases List.mem_append.1 h with h | h
        · exact isPlain_of_mem_unitEscape h
        · exact isPlain_of_mem_unitEscape h
  all_goals
    revert d
    rw [← List.all_eq_true]
    decide

theorem isPlain_of_mem_json (h : d ∈ json t) : isPlain d := by
  simp only [json, List.mem_append, List.mem_flatMap] at h
  rcases h with (h | ⟨c, -, h⟩) | h
  · rw [List.mem_singleton.1 h]
    decide
  · exact isPlain_of_mem_jsonChar h
  · rw [List.mem_singleton.1 h]
    decide

theorem isPlain_of_mem_jsonMember {member : Text × Text} (h : d ∈ jsonMember member) :
    isPlain d := by
  have hcolon : ((": " : Text).all isPlain) := by decide
  simp only [jsonMember, jsonField, List.mem_append] at h
  rcases h with (h | h) | h
  · exact isPlain_of_mem_json h
  · exact List.all_eq_true.1 hcolon d h
  · exact isPlain_of_mem_json h

theorem isPlain_of_mem_jsonRecord {members : List (Text × Text)}
    (h : d ∈ jsonRecord (members.map jsonMember)) : isPlain d := by
  have hcomma : ((", " : Text).all isPlain) := by decide
  simp only [jsonRecord, List.mem_append, List.mem_singleton] at h
  rcases h with (rfl | h) | rfl
  · decide
  · rcases mem_of_mem_joinWith h with h | ⟨field, hfield, h⟩
    · exact List.all_eq_true.1 hcomma d h
    · obtain ⟨member, -, rfl⟩ := List.mem_map.1 hfield
      exact isPlain_of_mem_jsonMember h
  · decide

end Plain

end Recast.Text
