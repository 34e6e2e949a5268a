import Recast.Proofs.Pattern.Search
import Recast.Proofs.Pattern.Simulation

/-!
# Patterns among other lines

Lines put before and behind a text leave it as it is, but a pattern that looks around now sees a
line feed where it saw the start or the end of the text.  A pattern endures this if each of its
looks does.  The edge of a word, the start of a line and the end of a line do: a line feed is no
part of a word, and it is what starts and ends a line.
-/

namespace Recast.Pattern

variable {p q : Pattern} {post : Text} {reading other after : Reading}

/-- Whether a reading stands where another does, with other lines around the text. -/
structure Amid (post : Text) (reading other : Reading) : Prop where
  before : other.before = some (reading.before.getD '\n')
  rest : other.rest = reading.rest ++ '\n' :: post

/-- Whether each look of the pattern holds among other lines if it holds without them. -/
def Endures : Pattern → Prop
  | done | char _ => True
  | look holds => ∀ before rest post,
    holds before rest → holds (some (before.getD '\n')) (rest ++ '\n' :: post)
  | seq first second | either first second => first.Endures ∧ second.Endures
  | most round | fewest round | keep _ round => round.Endures

/-! ## What is read among other lines -/

theorem exists_amid_of_mem_mostOutcomes {round : Reading → List Reading}
    (hround : ∀ {reading other after}, Amid post reading other → after ∈ round reading →
      ∃ later ∈ round other, Amid post after later)
    {bound wider : Nat} (hbound : bound ≤ wider) (h : Amid post reading other)
    (hafter : after ∈ mostOutcomes round bound reading) :
    ∃ later ∈ mostOutcomes round wider other, Amid post after later := by
  induction bound generalizing reading other wider with
  | zero =>
    obtain rfl := List.mem_singleton.1 hafter
    exact ⟨other, mem_mostOutcomes_self _ _ _, h⟩
  | succ bound ih =>
    obtain ⟨wider, rfl⟩ : ∃ smaller, wider = smaller + 1 := ⟨wider - 1, by omega⟩
    rcases mem_mostOutcomes_succ.1 hafter with ⟨middle, hmiddle, hafter⟩ | rfl
    · obtain ⟨middle', hmiddle', hamid⟩ := hround h hmiddle
      obtain ⟨later, hlater, hamid⟩ := ih (Nat.le_of_succ_le_succ hbound) hamid hafter
      exact ⟨later, mem_mostOutcomes_succ.2 (.inl ⟨middle', hmiddle', hlater⟩), hamid⟩
    · exact ⟨other, mem_mostOutcomes_self _ _ _, h⟩

/-- Whatever a pattern that endures other lines can read without them, it can read among them. -/
theorem exists_amid_of_mem_outcomes (hp : p.Endures) (h : Amid post reading other)
    (hafter : after ∈ p.outcomes reading) : ∃ later ∈ p.outcomes other, Amid post after later := by
  have hlength {reading other : Reading} (h : Amid post reading other) :
      reading.rest.length ≤ other.rest.length := by
    rw [h.rest, List.length_append]
    exact Nat.le_add_right _ _
  induction p generalizing reading other after with
  | done =>
    obtain rfl := List.mem_singleton.1 hafter
    exact ⟨other, List.mem_singleton_self _, h⟩
  | char accepts =>
    obtain ⟨c, rest, hread, hc, rfl⟩ := exists_of_mem_outcomes_char hafter
    have hrest := h.rest
    rw [hread, List.cons_append] at hrest
    obtain ⟨before, _, captures⟩ := other
    obtain rfl := hrest
    refine ⟨⟨some c, rest ++ '\n' :: post, captures⟩, ?_, rfl, rfl⟩
    rw [outcomes_char_cons, if_pos hc]
    exact List.mem_singleton_self _
  | look holds =>
    obtain ⟨hholds, rfl⟩ := mem_outcomes_look.1 hafter
    refine ⟨other, mem_outcomes_look.2 ⟨?_, rfl⟩, h⟩
    rw [h.before, h.rest]
    exact hp _ _ _ hholds
  | seq first second ihFirst ihSecond =>
    obtain ⟨middle, hmiddle, hafter⟩ := List.mem_flatMap.1 hafter
    obtain ⟨middle', hmiddle', hamid⟩ := ihFirst hp.1 h hmiddle
    obtain ⟨later, hlater, hamid⟩ := ihSecond hp.2 hamid hafter
    exact ⟨later, List.mem_flatMap.2 ⟨middle', hmiddle', hlater⟩, hamid⟩
  | either first second ihFirst ihSecond =>
    rcases List.mem_append.1 hafter with hafter | hafter
    · obtain ⟨later, hlater, hamid⟩ := ihFirst hp.1 h hafter
      exact ⟨later, List.mem_append_left _ hlater, hamid⟩
    · obtain ⟨later, hlater, hamid⟩ := ihSecond hp.2 h hafter
      exact ⟨later, List.mem_append_right _ hlater, hamid⟩
  | most round ih => exact exists_amid_of_mem_mostOutcomes (ih hp) (hlength h) h hafter
  | fewest round ih =>
    obtain ⟨later, hlater, hamid⟩ :=
      exists_amid_of_mem_mostOutcomes (ih hp) (hlength h) h (mem_fewestOutcomes.1 hafter)
    exact ⟨later, mem_fewestOutcomes.2 hlater, hamid⟩
  | keep slot body ih =>
    obtain ⟨inner, hinner, rfl⟩ := List.mem_map.1 hafter
    obtain ⟨later, hlater, hamid⟩ := ih hp h hinner
    exact ⟨_, List.mem_map_of_mem hlater, hamid.before, hamid.rest⟩

/-- What occurs in a text occurs wherever the text makes up some of the lines. -/
theorem occurs_amid_lines (hp : p.Endures) {code : Text} (h : p.occurs code) (pre post : Text) :
    p.occurs (pre ++ '\n' :: code ++ '\n' :: post) := by
  obtain ⟨u, v, rfl, hread⟩ := occurs_iff.1 h
  obtain ⟨after, hafter⟩ := isSome_readAt_iff.1 hread
  have hamid : Amid post ⟨u.getLast?, v, []⟩
      ⟨(pre ++ '\n' :: u).getLast?, v ++ '\n' :: post, []⟩ := by
    refine ⟨?_, rfl⟩
    rw [List.getLast?_append_cons, List.getLast?_cons]
  obtain ⟨later, hlater, -⟩ := exists_amid_of_mem_outcomes hp hamid hafter
  refine occurs_iff.2 ⟨pre ++ '\n' :: u, v ++ '\n' :: post, by simp, ?_⟩
  exact isSome_readAt_iff.2 ⟨later, hlater⟩

/-! ## Patterns that endure other lines -/

@[simp]
theorem endures_append : (p ++ q).Endures ↔ p.Endures ∧ q.Endures := Iff.rfl

@[simp]
theorem endures_orElse : (p <|> q).Endures ↔ p.Endures ∧ q.Endures := Iff.rfl

@[simp]
theorem endures_char (accepts : Char → Bool) : (char accepts).Endures := trivial

@[simp]
theorem endures_maybe : (maybe p).Endures ↔ p.Endures := and_iff_left trivial

@[simp]
theorem endures_most : (most p).Endures ↔ p.Endures := Iff.rfl

@[simp]
theorem endures_most1 : (most1 p).Endures ↔ p.Endures := and_self_iff

@[simp]
theorem endures_text (t : Text) : (text t).Endures := by
  induction t with
  | nil => trivial
  | cons c t ih => exact ⟨trivial, ih⟩

@[simp]
theorem endures_anyOf {patterns : List Pattern} :
    (anyOf patterns).Endures ↔ ∀ p ∈ patterns, p.Endures := by
  fun_induction anyOf patterns with
  | case1 => simp
  | case2 p => simp
  | case3 p patterns _ ih => rw [List.forall_mem_cons, ← ih]; rfl

@[simp]
theorem endures_edge : edge.Endures := by
  intro before rest post h
  have hnewline : isWord '\n' = false := by decide
  cases before <;> cases rest <;> simp_all

@[simp]
theorem endures_lineStart : lineStart.Endures := by
  intro before rest post h
  cases before <;> simp_all

@[simp]
theorem endures_lineEnd : lineEnd.Endures := by
  intro before rest post h
  cases rest <;> simp_all

@[simp]
theorem endures_blanks : blanks.Endures := trivial

@[simp]
theorem endures_blanks1 : blanks1.Endures := endures_most1.2 trivial

@[simp]
theorem endures_word : word.Endures := endures_most1.2 trivial

end Recast.Pattern
