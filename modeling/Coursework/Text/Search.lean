import Mathlib.Data.List.Infix

/-!
# Searching a text

Where a pattern stands in a text for the first time. `exists_of_position` splits the text there, and
`position_eq_none_iff` says when there is no such place. For a pattern of one element these are
`position_singleton` and `position_singleton_eq_none_iff`.
-/

namespace Coursework.TextSearch

variable {α : Type*} [DecidableEq α]

/-- Where a pattern stands for the first time. -/
def position (pattern : List α) : List α → Option Nat
  | [] => if pattern = [] then some 0 else none
  | c :: text => if pattern <+: c :: text then some 0 else (position pattern text).map (· + 1)

example : position [1, 2] [0, 1, 1, 2, 1, 2] = some 2 := by decide

variable {pattern text front back : List α} {c : α} {i : Nat}

/-- The pattern stands at its position. -/
theorem exists_of_position (h : position pattern text = some i) :
    ∃ front back, text = front ++ (pattern ++ back) ∧ front.length = i := by
  induction text generalizing i with
  | nil =>
      rw [position] at h
      split_ifs at h with hnil
      obtain rfl := Option.some.inj h
      exact ⟨[], [], by rw [hnil]; rfl, rfl⟩
  | cons c text ih =>
      rw [position] at h
      split_ifs at h with hstart
      · obtain rfl := Option.some.inj h
        obtain ⟨back, hback⟩ := hstart
        exact ⟨[], back, hback.symm, rfl⟩
      · obtain ⟨j, hj, rfl⟩ := Option.map_eq_some_iff.1 h
        obtain ⟨front, back, rfl, rfl⟩ := ih hj
        exact ⟨c :: front, back, rfl, rfl⟩

/-- There is no position exactly if the pattern does not occur. -/
theorem position_eq_none_iff : position pattern text = none ↔ ¬ pattern <:+: text := by
  induction text with
  | nil =>
      rw [position, List.infix_nil]
      split_ifs with hnil <;> simp [hnil]
  | cons c text ih =>
      rw [position, List.infix_cons_iff, not_or, ← ih]
      split_ifs with hstart <;> simp [hstart]

/-- The first place of an element. -/
theorem position_singleton (h : c ∉ front) (back : List α) :
    position [c] (front ++ c :: back) = some front.length := by
  induction front with
  | nil => simp [position]
  | cons x front ih =>
      obtain ⟨hne, hmem⟩ := List.ne_and_not_mem_of_not_mem_cons h
      simp [position, hne, ih hmem]

theorem position_singleton_eq_none_iff : position [c] text = none ↔ c ∉ text := by
  rw [position_eq_none_iff, List.singleton_infix_iff]

end Coursework.TextSearch
