import Mathlib.Data.List.Basic

/-!
# Depth-first searches that back out

A search from a vertex enters the open vertices around, one after another, and searches from each
with that vertex closed; when it comes back the vertex is open again. `trail` is the labels of the
steps it makes. The depth of the search is bounded by `fuel`.
-/

namespace Coursework.Search

variable {V L : Type} [DecidableEq V] (steps : V → List (V × L))

/-- The labels of the steps of a search, in order. -/
def trail : Nat → (V → Bool) → V → List L
  | 0, _, _ => []
  | fuel + 1, opened, v =>
      (steps v).flatMap fun s =>
        if opened s.1 then s.2 :: trail fuel (fun u => decide (u ≠ s.1) && opened u) s.1 else []

variable {steps} {fuel : Nat} {opened : V → Bool} {v : V} {label : L}

/-- A search makes no step if and only if every vertex around is closed. -/
theorem trail_eq_nil_iff (hfuel : 0 < fuel) :
    trail steps fuel opened v = [] ↔ ∀ s ∈ steps v, opened s.1 = false := by
  obtain ⟨fuel, rfl⟩ := Nat.exists_eq_add_one_of_ne_zero (Nat.ne_of_gt hfuel)
  unfold trail
  rw [List.flatMap_eq_nil_iff]
  refine forall_congr' fun s => imp_congr_right fun _ => ?_
  split
  · next hopen => simp [hopen]
  · next hclosed => simpa using hclosed

/-- A search that makes one step enters a vertex around which every vertex is closed. -/
theorem exists_of_trail_eq_singleton (h : trail steps (fuel + 1) opened v = [label]) :
    ∃ s ∈ steps v, s.2 = label ∧ opened s.1 = true ∧
      trail steps fuel (fun u => decide (u ≠ s.1) && opened u) s.1 = [] := by
  unfold trail at h
  obtain ⟨s, hs, hlabel⟩ := List.mem_flatMap.1 (h ▸ List.mem_singleton_self label)
  obtain ⟨before, after, hsplit⟩ := List.append_of_mem hs
  rw [hsplit, List.flatMap_append, List.flatMap_cons] at h
  split at hlabel
  · next hopen =>
    rw [if_pos hopen] at h
    rcases List.append_eq_singleton_iff.1 h with ⟨-, h⟩ | ⟨-, h⟩
    · rw [List.cons_append, List.cons.injEq, List.append_eq_nil_iff] at h
      exact ⟨s, hs, h.1, hopen, h.2.1⟩
    · cases h
  · cases hlabel

/-- The labels are those of steps. -/
theorem exists_of_mem_trail (h : label ∈ trail steps fuel opened v) :
    ∃ u, ∃ s ∈ steps u, s.2 = label := by
  induction fuel generalizing opened v with
  | zero => cases h
  | succ fuel ih =>
      obtain ⟨s, hs, hlabel⟩ := List.mem_flatMap.1 h
      split at hlabel
      · rcases List.mem_cons.1 hlabel with heq | hmem
        · exact ⟨v, s, hs, heq.symm⟩
        · exact ih hmem
      · cases hlabel

end Coursework.Search
