import Recast.Emission.Loop
import Recast.Proofs.Loop.Course
import Recast.Proofs.Text.Name

/-!
# What the header of a loop says

A header is taken apart into words and marks, and read by the grammar of its language: a call of
`range`, a counted loop in three parts, an interval with adapters behind it, or an integer that is
asked to count.  Reading yields the variable of the loop and its course.  It knows nothing of how
headers are worded, so it can say what a wording means.
-/

namespace Recast.Loop

open Text

/-! ## Words and marks -/

/-- The smallest parts of a header. -/
inductive Lexeme where
  | word (t : Text)
  | mark (c : Char)
  deriving DecidableEq, Repr

/-- A word that has been read in reverse, unless nothing has been read. -/
def flush (read : Text) : List Lexeme :=
  if read.isEmpty then [] else [.word read.reverse]

/-- The lexemes from here on.  The word being read is kept in reverse. -/
def lexFrom : (read : Text) → Text → List Lexeme
  | read, [] => flush read
  | read, c :: rest =>
    if isWord c then lexFrom (c :: read) rest
    else if isBlank c then flush read ++ lexFrom [] rest
    else flush read ++ .mark c :: lexFrom [] rest

/-- The words and marks of a text; blanks only part them. -/
def lexemes (t : Text) : List Lexeme :=
  lexFrom [] t

/-- The lexemes of an integer in decimal notation. -/
def integerLexemes : Int → List Lexeme
  | .ofNat n => [.word (ofNat n)]
  | .negSucc n => [.mark '-', .word (ofNat (n + 1))]

section Lexemes

variable {read word t u : Text} {c : Char}

theorem lexFrom_append (read t : Text) (hu : u.head?.any isWord = false) :
    lexFrom read (t ++ u) = lexFrom read t ++ lexemes u := by
  induction t generalizing read with
  | nil =>
    cases u with
    | nil => simp [lexemes, lexFrom, flush]
    | cons c u =>
      have hc : isWord c = false := by simpa using hu
      by_cases hblank : isBlank c <;> simp [lexemes, lexFrom, flush, hc, hblank]
  | cons c t ih =>
    rw [List.cons_append, lexFrom, lexFrom, ih, ih]
    split
    · rfl
    · split <;> simp

/-- Where no word goes on, the lexemes of two texts are those of the one and those of the other. -/
theorem lexemes_append_of_head (t : Text) (hu : u.head?.any isWord = false) :
    lexemes (t ++ u) = lexemes t ++ lexemes u :=
  lexFrom_append [] t hu

theorem lexemes_append_of_last (ht : t.getLast?.any isWord = false) (u : Text) :
    lexemes (t ++ u) = lexemes t ++ lexemes u := by
  rcases List.eq_nil_or_concat t with rfl | ⟨t, c, rfl⟩
  · rfl
  · have hc : isWord c = false := by simpa using ht
    have hcons : lexemes (c :: u) = lexemes [c] ++ lexemes u := by
      by_cases hblank : isBlank c <;> simp [lexemes, lexFrom, flush, hc, hblank]
    rw [List.concat_eq_append, List.append_assoc, List.singleton_append,
      lexemes_append_of_head t (by simpa using hc), hcons,
      lexemes_append_of_head t (by simpa using hc), List.append_assoc]

/-- A piece between a lead and a tail that keep their distance from it. -/
theorem lexemes_around {lead tail : Text} (hlead : lead.getLast?.any isWord = false)
    (piece : Text) (htail : tail.head?.any isWord = false) :
    lexemes (lead ++ (piece ++ tail)) = lexemes lead ++ (lexemes piece ++ lexemes tail) := by
  rw [lexemes_append_of_last hlead, lexemes_append_of_head piece htail]

theorem lexemes_word (hne : word ≠ []) (hword : ∀ c ∈ word, isWord c) :
    lexemes word = [.word word] := by
  have hfrom (read : Text) (t : Text) (ht : ∀ c ∈ t, isWord c) :
      lexFrom read t = flush (t.reverse ++ read) := by
    induction t generalizing read with
    | nil => rfl
    | cons c t ih =>
      obtain ⟨hc, ht⟩ := List.forall_mem_cons.1 ht
      rw [lexFrom, if_pos hc, ih (c :: read) ht]
      simp
  rw [lexemes, hfrom [] word hword]
  simp [flush, hne]

theorem isWord_of_mem_ofNat {n : Nat} (h : c ∈ ofNat n) : isWord c := by
  have hdigit : c.isDigit := Nat.isDigit_of_mem_toDigits (by omega) (by omega) h
  exact isWord_of_isNameChar (by simp [isNameChar, Char.isAlphanum, hdigit])

theorem lexemes_ofNat (n : Nat) : lexemes (ofNat n) = [.word (ofNat n)] :=
  lexemes_word Nat.toDigits_ne_nil fun _ ↦ isWord_of_mem_ofNat

theorem lexemes_ofInt (n : Int) : lexemes (ofInt n) = integerLexemes n := by
  cases n with
  | ofNat n => exact lexemes_ofNat n
  | negSucc n =>
    have hminus : lexemes ('-' :: ofNat (n + 1)) = .mark '-' :: lexemes (ofNat (n + 1)) := rfl
    rw [ofInt, hminus, lexemes_ofNat]
    rfl

end Lexemes

/-! ## Integers -/

/-- The number that a word of digits stands for. -/
def natural? (word : Text) : Option Nat :=
  if word.all Char.isDigit then some (Nat.ofDigitChars 10 word 0) else none

/-- The integer that comes first, and what follows it. -/
def integer? : List Lexeme → Option (Int × List Lexeme)
  | .word digits :: rest => (natural? digits).map fun n ↦ (Int.ofNat n, rest)
  | .mark '-' :: .word digits :: rest => (natural? digits).map fun n ↦ (-Int.ofNat n, rest)
  | _ => none

/-- The integer that comes first, or the sum of two. -/
def sum? (lexemes : List Lexeme) : Option (Int × List Lexeme) :=
  match integer? lexemes with
  | some (first, .mark '+' :: rest) =>
    (integer? rest).map fun (second, rest) ↦ (first + second, rest)
  | found => found

theorem natural?_ofNat (n : Nat) : natural? (ofNat n) = some n := by
  have hdigits : (ofNat n).all Char.isDigit :=
    List.all_eq_true.2 fun c hc ↦ Nat.isDigit_of_mem_toDigits (by omega) (by omega) hc
  unfold natural?
  rw [if_pos hdigits]
  exact congrArg some Nat.ofDigitChars_ten_toDigits

@[simp]
theorem integer?_integerLexemes (n : Int) (rest : List Lexeme) :
    integer? (integerLexemes n ++ rest) = some (n, rest) := by
  cases n with
  | ofNat n => simp [integerLexemes, integer?, natural?_ofNat]
  | negSucc n =>
    simp [integerLexemes, integer?, natural?_ofNat]
    omega

/-! ## Calls -/

/-- The integers up to the end of an argument list, and what follows it. -/
def arguments? : List Lexeme → Option (List Int × List Lexeme)
  | .word digits :: .mark ')' :: rest => (natural? digits).map fun n ↦ ([Int.ofNat n], rest)
  | .mark '-' :: .word digits :: .mark ')' :: rest =>
    (natural? digits).map fun n ↦ ([-Int.ofNat n], rest)
  | .word digits :: .mark ',' :: rest => do
    let n ← natural? digits
    let (others, rest) ← arguments? rest
    return (Int.ofNat n :: others, rest)
  | .mark '-' :: .word digits :: .mark ',' :: rest => do
    let n ← natural? digits
    let (others, rest) ← arguments? rest
    return (-Int.ofNat n :: others, rest)
  | _ => none

/-- The course over the arguments of `range`; a step of zero is refused. -/
def rangeCall? : List Int → Option Course
  | [stop] => some (.listed (rangeList 0 stop 1))
  | [start, stop] => some (.listed (rangeList start stop 1))
  | [start, stop, step] => if step = 0 then none else some (.listed (rangeList start stop step))
  | _ => none

/-- `for x in range(…):` -/
def callHeader? : List Lexeme → Option (Text × Course)
  | .word keyword :: .word var :: .word among :: .word callee :: .mark '(' :: rest =>
    if keyword = "for" ∧ among = "in" ∧ callee = "range" then
      match arguments? rest with
      | some (args, [.mark ':']) => (rangeCall? args).map (var, ·)
      | _ => none
    else none
  | _ => none

theorem arguments?_last (n : Int) (rest : List Lexeme) :
    arguments? (integerLexemes n ++ .mark ')' :: rest) = some ([n], rest) := by
  cases n with
  | ofNat n => simp [integerLexemes, arguments?, natural?_ofNat]
  | negSucc n =>
    simp [integerLexemes, arguments?, natural?_ofNat]
    omega

theorem arguments?_more {others : List Int} {lexemes rest : List Lexeme} (n : Int)
    (h : arguments? lexemes = some (others, rest)) :
    arguments? (integerLexemes n ++ .mark ',' :: lexemes) = some (n :: others, rest) := by
  cases n with
  | ofNat n => simp [integerLexemes, arguments?, natural?_ofNat, h]
  | negSucc n =>
    simp [integerLexemes, arguments?, natural?_ofNat, h]
    omega

/-! ## Counted loops -/

/-- The variable that comes first, with its sigil if it has one. -/
def named? : List Lexeme → Option (Text × List Lexeme)
  | .mark '$' :: .word name :: rest => some ('$' :: name, rest)
  | .word name :: rest => some (name, rest)
  | _ => none

/-- What follows the given marks. -/
def behind? : (marks : Text) → List Lexeme → Option (List Lexeme)
  | [], lexemes => some lexemes
  | c :: marks, .mark d :: rest => if c = d then behind? marks rest else none
  | _, _ => none

/-- The comparison that comes first. -/
def comparison? : List Lexeme → Option (Comparison × List Lexeme)
  | .mark '<' :: .mark '=' :: rest => some (.atMost, rest)
  | .mark '>' :: .mark '=' :: rest => some (.atLeast, rest)
  | .mark '<' :: rest => some (.less, rest)
  | .mark '>' :: rest => some (.greater, rest)
  | _ => none

/-- By how much the variable is changed. -/
def change? : List Lexeme → Option (Int × List Lexeme)
  | .mark '+' :: .mark '+' :: rest => some (1, rest)
  | .mark '-' :: .mark '-' :: rest => some (-1, rest)
  | .mark '+' :: .mark '=' :: rest => integer? rest
  | .mark '-' :: .mark '=' :: rest => (integer? rest).map fun (n, rest) ↦ (-n, rest)
  | _ => none

/-- The three parts of a counted loop, which have to speak of one variable, and what follows them. -/
def threeParts? (assigns : Text) (lexemes : List Lexeme) :
    Option ((Text × Course) × List Lexeme) := do
  let (name, lexemes) ← named? lexemes
  let lexemes ← behind? assigns lexemes
  let (start, lexemes) ← integer? lexemes
  let lexemes ← behind? [';'] lexemes
  let (tested, lexemes) ← named? lexemes
  let (test, lexemes) ← comparison? lexemes
  let (bound, lexemes) ← integer? lexemes
  let lexemes ← behind? [';'] lexemes
  let (changed, lexemes) ← named? lexemes
  let (change, lexemes) ← change? lexemes
  guard (tested = name ∧ changed = name)
  return ((name, .counted start test bound change), lexemes)

/-- What follows the declaration of a variable, where there is one. -/
def undeclared : List Lexeme → List Lexeme
  | .word word :: rest => if word = "let" ∨ word = "int" then rest else .word word :: rest
  | lexemes => lexemes

/-- `for (int x = …; x < …; x++) {` -/
def curlyHeader? : List Lexeme → Option (Text × Course)
  | .word keyword :: .mark '(' :: rest =>
    if keyword = "for" then
      match threeParts? ['='] (undeclared rest) with
      | some (found, [.mark ')', .mark '{']) => some found
      | _ => none
    else none
  | _ => none

/-- `for x := …; x < …; x++ {` -/
def bareHeader? : List Lexeme → Option (Text × Course)
  | .word keyword :: rest =>
    if keyword = "for" then
      match threeParts? [':', '='] rest with
      | some (found, [.mark '{']) => some found
      | _ => none
    else none
  | _ => none

/-! ## Intervals -/

/-- The list after the adapters that follow it, and what follows those. -/
def adapted? : (values : List Int) → List Lexeme → Option (List Int × List Lexeme)
  | values, .mark '.' :: .word method :: .mark '(' :: .mark ')' :: rest =>
    if method = "rev" then adapted? values.reverse rest else none
  | values, .mark '.' :: .word method :: .mark '(' :: .word digits :: .mark ')' :: rest =>
    if method = "step_by" then
      match natural? digits with
      | some n => adapted? (every n values) rest
      | none => none
    else none
  | values, rest => some (values, rest)

/-- The integers of an interval, with its end or short of it, and what follows it. -/
def interval? (lexemes : List Lexeme) : Option (List Int × List Lexeme) := do
  let (low, lexemes) ← sum? lexemes
  match ← behind? ['.', '.'] lexemes with
  | .mark '=' :: rest =>
    let (high, rest) ← sum? rest
    return (interval low (high + 1), rest)
  | rest =>
    let (high, rest) ← sum? rest
    return (interval low high, rest)

/-- An interval, in parentheses if adapters follow it. -/
def iterator? : List Lexeme → Option (List Int × List Lexeme)
  | .mark '(' :: rest => do
    let (values, rest) ← interval? rest
    adapted? values (← behind? [')'] rest)
  | lexemes => interval? lexemes

/-- `for x in (…..…).rev().step_by(…) {` -/
def iteratorHeader? : List Lexeme → Option (Text × Course)
  | .word keyword :: .word var :: .word among :: rest =>
    if keyword = "for" ∧ among = "in" then
      match iterator? rest with
      | some (values, [.mark '{']) => some (var, .listed values)
      | _ => none
    else none
  | _ => none

/-! ## Blocks -/

/-- The variable of a block. -/
def blockVariable? : List Lexeme → Option Text
  | [.word keyword, .mark '|', .word var, .mark '|'] => if keyword = "do" then some var else none
  | _ => none

/-- From an integer by a step up to a limit, which is part of the course; a step of zero is
refused. -/
def stepTo? (start : Int) : List Int → Option Course
  | [limit, step] =>
    if step = 0 then none
    else some (.counted start (if 0 < step then .atMost else .atLeast) limit step)
  | _ => none

/-- What an integer is asked to do: to count up to itself, or to go by a step to a limit. -/
def integerBlock? (n : Int) : List Lexeme → Option (Text × Course)
  | .mark '.' :: .word method :: .mark '(' :: rest =>
    if method = "step" then
      match arguments? rest with
      | some (args, rest) => do
        let course ← stepTo? n args
        let var ← blockVariable? rest
        return (var, course)
      | none => none
    else none
  | .mark '.' :: .word method :: rest =>
    if method = "times" then (blockVariable? rest).map (·, .listed (interval 0 n)) else none
  | _ => none

/-- `(…...…).each do |x|`, `….times do |x|` or `….step(…, …) do |x|` -/
def blockHeader? : List Lexeme → Option (Text × Course)
  | .mark '(' :: rest => do
    let (low, rest) ← integer? rest
    let (high, rest) ← integer? (← behind? ['.', '.', '.'] rest)
    match ← behind? [')', '.'] rest with
    | .word method :: rest =>
      if method = "each" then (blockVariable? rest).map (·, .listed (interval low high)) else none
    | _ => none
  | lexemes => do
    let (n, rest) ← integer? lexemes
    integerBlock? n rest

/-! ## Headers -/

/-- The variable and the course of the loop that a header opens. -/
def read? (language : Language) (header : Text) : Option (Text × Course) :=
  match language with
  | .python => callHeader? (lexemes header)
  | .ruby => blockHeader? (lexemes header)
  | .rust => iteratorHeader? (lexemes header)
  | .go => bareHeader? (lexemes header)
  | _ => curlyHeader? (lexemes header)

/-- The header opens a loop in which the variable goes through the values. -/
def Denotes (language : Language) (header var : Text) (values : List Int) : Prop :=
  ∃ course, read? language header = some (var, course) ∧ course.Visits values

/-- A header says one thing only. -/
theorem Denotes.eq {language : Language} {header var other : Text} {values others : List Int}
    (h : Denotes language header var values) (h' : Denotes language header other others) :
    values = others := by
  obtain ⟨course, hcourse, hvalues⟩ := h
  obtain ⟨course', hcourse', hothers⟩ := h'
  obtain ⟨-, rfl⟩ : var = other ∧ course = course' := by
    simpa using hcourse.symm.trans hcourse'
  exact hvalues.eq hothers

example : read? .rust ("for i in (0 + 1..=10).rev().step_by(3) " ++ ['{'])
    = some (("i" : Text), Course.listed [10, 7, 4, 1]) := by
  decide

example : read? .php ("for ($i = 7; $i > -2; $i -= 4) " ++ ['{'])
    = some (("$i" : Text), Course.counted 7 .greater (-2) (-4)) := by
  decide

end Recast.Loop
