import Mathlib.Data.List.Basic
import Mathlib.Logic.Function.Iterate

/-!
# Walks through free places

A walk makes its moves one by one and stops in front of the first place that is not free.
`follow_replicate` gives a run of equal moves in one step: it is finished exactly when `free`
counts as many free places ahead.
-/

namespace Coursework.Walks

variable {P D : Type}

/-- What comes of a list of moves. -/
inductive Outcome (P : Type) where
  | blocked (steps : Nat)
  | finished (place : P) (steps : Nat)

/-- Go on from where a walk came to. -/
def Outcome.andThen : Outcome P → (P → Nat → Outcome P) → Outcome P
  | .blocked n, _ => .blocked n
  | .finished p n, walk => walk p n

/-- Make the moves from `p`, after `n` moves made before. -/
def follow (valid : P → Bool) (next : D → P → P) : List D → P → Nat → Outcome P
  | [], p, n => .finished p n
  | d :: moves, p, n =>
      if valid (next d p) then follow valid next moves (next d p) (n + 1) else .blocked n

/-- How many of the next `k` places are free. -/
def free (valid : P → Bool) (next : P → P) : Nat → P → Nat
  | 0, _ => 0
  | k + 1, p => if valid (next p) then free valid next k (next p) + 1 else 0

/-- There are `d` free places ahead, and then one that is not free. -/
structure FreeAhead (valid : P → Bool) (next : P → P) (p : P) (d : Nat) : Prop where
  free : ∀ k < d, valid (next^[k + 1] p) = true
  blocked : valid (next^[d + 1] p) = false

variable {valid : P → Bool} {next : P → P} {step : D → P → P}

theorem free_le (k : Nat) (p : P) : free valid next k p ≤ k := by
  induction k generalizing p with
  | zero => exact Nat.le_refl 0
  | succ k ih =>
      rw [free]
      split
      · exact Nat.succ_le_succ (ih _)
      · exact Nat.zero_le _

/-- If some place ahead is not free, then there is a first one. -/
theorem exists_freeAhead {p : P} {n : Nat} (h : valid (next^[n + 1] p) = false) :
    ∃ d, FreeAhead valid next p d := by
  induction n generalizing p with
  | zero => exact ⟨0, fun k hk => absurd hk (Nat.not_lt_zero k), h⟩
  | succ n ih =>
      cases hnext : valid (next p) with
      | false => exact ⟨0, fun k hk => absurd hk (Nat.not_lt_zero k), hnext⟩
      | true =>
          obtain ⟨d, hfree, hblocked⟩ := ih (p := next p) h
          refine ⟨d + 1, fun k hk => ?_, hblocked⟩
          cases k with
          | zero => exact hnext
          | succ k => exact hfree k (Nat.lt_of_succ_lt_succ hk)

theorem free_eq_min {p : P} {d : Nat} (h : FreeAhead valid next p d) (k : Nat) :
    free valid next k p = min k d := by
  induction k generalizing p d with
  | zero => exact (Nat.zero_min d).symm
  | succ k ih =>
      obtain ⟨hfree, hblocked⟩ := h
      rw [free]
      cases d with
      | zero =>
          have hnext : valid (next p) = false := hblocked
          rw [hnext, if_neg Bool.false_ne_true, Nat.min_zero]
      | succ d =>
          have hnext : valid (next p) = true := hfree 0 (Nat.zero_lt_succ d)
          have hrest : FreeAhead valid next (next p) d :=
            ⟨fun k hk => hfree (k + 1) (Nat.succ_lt_succ hk), hblocked⟩
          rw [hnext, if_pos rfl, ih hrest, Nat.succ_min_succ]

/-- Places that correspond have the same free places ahead. -/
theorem free_map {Q : Type} {next' : Q → Q} {f : P → Q} {valid' : Q → Bool}
    (hnext : ∀ p, f (next p) = next' (f p)) (k : Nat) (p : P) :
    free (fun a => valid' (f a)) next k p = free valid' next' k (f p) := by
  induction k generalizing p with
  | zero => rfl
  | succ k ih => rw [free, free, ih, hnext]

/-- The last place of a walk is free if the first one is. -/
theorem valid_of_follow {moves : List D} {p q : P} {n m : Nat} (hp : valid p = true)
    (h : follow valid step moves p n = .finished q m) : valid q = true := by
  induction moves generalizing p n with
  | nil =>
      cases h
      exact hp
  | cons d moves ih =>
      rw [follow] at h
      split at h
      case isTrue hnext => exact ih hnext h
      case isFalse => cases h

theorem follow_append (moves rest : List D) (p : P) (n : Nat) :
    follow valid step (moves ++ rest) p n =
      (follow valid step moves p n).andThen (follow valid step rest) := by
  induction moves generalizing p n with
  | nil => rfl
  | cons d moves ih =>
      rw [List.cons_append, follow, follow]
      split
      · exact ih _ _
      · rfl

/-- A run of equal moves. -/
theorem follow_replicate (d : D) (k : Nat) (p : P) (n : Nat) :
    follow valid step (List.replicate k d) p n =
      if free valid (step d) k p = k then .finished ((step d)^[k] p) (n + k)
      else .blocked (n + free valid (step d) k p) := by
  induction k generalizing p n with
  | zero => rfl
  | succ k ih =>
      rw [List.replicate_succ, follow, free]
      split
      · rw [ih, Function.iterate_succ_apply]
        simp only [Nat.add_right_cancel_iff, Nat.add_assoc, Nat.add_comm 1]
      · simp

end Coursework.Walks
