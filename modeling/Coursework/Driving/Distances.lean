import Coursework.Driving.Segments

/-!
# The distance that a segment gives

`segmentRight_iff` says for which arguments `driveSegment` gives -1 or the smaller of `maxSteps` and
the number of empty cells ahead. It gives neither for no steps towards an empty cell.
Vocabulary and scope: `Coursework.Driving.Segments`.
-/

namespace Coursework.Driving

open Walks

/-- `driveSegment` gives -1 exactly for arguments that are not valid, and otherwise it gives the
number of consecutive empty cells in the direction, at most `maxSteps`. -/
structure SegmentRight (g : Grid) (p : Int × Int) (dir : Char) (maxSteps : Int) : Prop where
  invalid : driveSegment g p.1 p.2 dir maxSteps = -1 ↔
    g.isEmptyCell p = false ∨ dir ∉ validDirections ∨ maxSteps < 0
  distance : g.isEmptyCell p = true → dir ∈ validDirections → 0 ≤ maxSteps →
    ∃ d : Nat, FreeAhead g.isEmptyCell (neighbour dir) p d ∧
      driveSegment g p.1 p.2 dir maxSteps = min maxSteps d

variable {g : Grid} {p : Int × Int} {dir : Char}

/-- In each direction there is an edge or a wall. -/
theorem exists_cellsAhead (hp : g.isEmptyCell p = true) (hdir : dir ∈ validDirections) :
    ∃ d, FreeAhead g.isEmptyCell (neighbour dir) p d := by
  obtain ⟨lane, next, rounds, i, rfl, hnext, hend, -⟩ := exists_lane hp hdir
  have hiterate : lane (next^[rounds + 1] i) = (neighbour dir)^[rounds + 1] (lane i) :=
    (Function.Semiconj.iterate_right hnext (rounds + 1)).eq i
  rw [hiterate] at hend
  exact exists_freeAhead hend

theorem driveSegment_invalid {maxSteps : Int}
    (h : g.isEmptyCell p = false ∨ dir ∉ validDirections ∨ maxSteps < 0) :
    driveSegment g p.1 p.2 dir maxSteps = -1 := by
  rw [driveSegment]
  rcases h with hp | hdir | hneg
  · rw [if_pos (by rw [show g.isValidPosition p.1 p.2 = false from hp]; exact Bool.false_ne_true)]
  · rw [if_pos hdir]
    split_ifs <;> rfl
  · rw [if_pos hneg]
    split_ifs <;> rfl

/-- A positive number of steps, or no steps towards an obstacle. -/
theorem driveSegment_eq_min {k d : Nat} (hp : g.isEmptyCell p = true)
    (hdir : dir ∈ validDirections) (hd : FreeAhead g.isEmptyCell (neighbour dir) p d)
    (hzero : k = 0 → g.isEmptyCell (neighbour dir p) = false) :
    driveSegment g p.1 p.2 dir k = min k d := by
  rcases Nat.eq_zero_or_pos k with rfl | hk
  · have h := driveSegment_zero hp hdir
    rw [hzero rfl, if_neg Bool.false_ne_true] at h
    rw [Nat.zero_min]
    exact h
  · rw [driveSegment_eq hp hdir hk, free_eq_min hd]

theorem segmentRight_iff (g : Grid) (p : Int × Int) (dir : Char) (maxSteps : Int) :
    SegmentRight g p dir maxSteps ↔
      ¬ (g.isEmptyCell p = true ∧ dir ∈ validDirections ∧ maxSteps = 0 ∧
        g.isEmptyCell (neighbour dir p) = true) := by
  constructor
  · rintro ⟨-, hdistance⟩ ⟨hp, hdir, rfl, hnext⟩
    obtain ⟨d, -, hd⟩ := hdistance hp hdir (Int.le_refl 0)
    have hpos := driveSegment_zero hp hdir
    rw [hnext, if_pos rfl] at hpos
    omega
  · intro h
    by_cases hinvalid : g.isEmptyCell p = false ∨ dir ∉ validDirections ∨ maxSteps < 0
    · refine ⟨iff_of_true (driveSegment_invalid hinvalid) hinvalid, fun hp hdir hsteps => ?_⟩
      rcases hinvalid with hp' | hdir' | hneg
      · rw [hp] at hp'
        cases hp'
      · exact absurd hdir hdir'
      · omega
    · have hvalid := hinvalid
      simp only [not_or, Bool.not_eq_false, not_not, Int.not_lt] at hvalid
      obtain ⟨hp, hdir, hsteps⟩ := hvalid
      obtain ⟨k, rfl⟩ := Int.eq_ofNat_of_zero_le hsteps
      obtain ⟨d, hd⟩ := exists_cellsAhead hp hdir
      have hzero (hk : k = 0) : g.isEmptyCell (neighbour dir p) = false := by
        rw [← Bool.not_eq_true]
        exact fun hnext => h ⟨hp, hdir, by omega, hnext⟩
      have hdistance := driveSegment_eq_min hp hdir hd hzero
      refine ⟨iff_of_false ?_ hinvalid, fun _ _ _ => ⟨d, hd, ?_⟩⟩
      · rw [hdistance]
        omega
      · rw [hdistance]
        omega

/-- No steps from the first of two empty cells to the second. -/
theorem no_steps_driven :
    ¬ SegmentRight ⟨1, 2, fun _ _ => false⟩ (1, 1) 'E' 0 := by
  rintro ⟨-, hdistance⟩
  obtain ⟨d, -, hd⟩ := hdistance rfl (by decide) (Int.le_refl 0)
  have hone : driveSegment ⟨1, 2, fun _ _ => false⟩ 1 1 'E' 0 = 1 := by decide
  rw [hone] at hd
  omega

end Coursework.Driving
