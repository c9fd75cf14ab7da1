import Coursework.Driving.Courses
import Coursework.Search.Walks

/-!
# One segment

`driveSegment` counts the free cells ahead, at most `maxSteps` of them, unless `maxSteps` is zero:
then its loop never finds `maxDistance` equal to `maxSteps` and counts up to the obstacle.
`drive_eq` says when the car does what the segment asks for.
Vocabulary and scope: `Coursework.Driving.Courses`, `Coursework.Search.Walks`.
-/

namespace Coursework.Driving

open Walks

variable {g : Grid}

/-- An empty cell. -/
def Grid.isEmptyCell (g : Grid) (p : Int × Int) : Bool :=
  g.isValidPosition p.1 p.2

/-- The neighbouring cell in a direction. -/
def neighbour (dir : Char) (p : Int × Int) : Int × Int :=
  if dir.toUpper = 'N' then (p.1 - 1, p.2)
  else if dir.toUpper = 'S' then (p.1 + 1, p.2)
  else if dir.toUpper = 'E' then (p.1, p.2 + 1)
  else (p.1, p.2 - 1)

section Loop

variable (valid : Int → Bool) (next : Int → Int)

/-- A positive number of steps stops the loop. -/
theorem driveLoop_eq {rounds k : Nat} {i d : Int} (hend : valid (next^[rounds + 1] i) = false)
    (hk : 0 < k) : driveLoop valid next (d + k) rounds i d = d + free valid next k i := by
  induction rounds generalizing k i d with
  | zero =>
      obtain ⟨k, rfl⟩ := Nat.exists_eq_add_of_lt hk
      have hnext : valid (next i) = false := hend
      simp [driveLoop, free, hnext]
  | succ rounds ih =>
      obtain ⟨k, rfl⟩ := Nat.exists_eq_add_of_lt hk
      rw [Nat.zero_add, driveLoop, free]
      cases hnext : valid (next i) with
      | false => simp
      | true =>
          rw [if_pos rfl, if_pos rfl]
          rcases Nat.eq_zero_or_pos k with rfl | hpos
          · simp [free]
          · rw [if_neg (by omega)]
            have h := ih (i := next i) (d := d + 1) hend hpos
            have hsum : d + 1 + (k : Int) = d + ((k + 1 : Nat) : Int) := by omega
            rw [← hsum, h]
            omega

/-- Zero steps do not stop the loop. -/
theorem le_driveLoop_zero {rounds : Nat} {i d : Int} (hd : 0 ≤ d) :
    d ≤ driveLoop valid next 0 rounds i d := by
  induction rounds generalizing i d with
  | zero => exact Int.le_refl d
  | succ rounds ih =>
      rw [driveLoop]
      split
      · rw [if_neg (by omega)]
        have h := ih (i := next i) (d := d + 1) (by omega)
        omega
      · exact Int.le_refl d

/-- With zero steps the loop stays only in front of an obstacle. -/
theorem driveLoop_zero {rounds : Nat} {i : Int} (hend : valid (next^[rounds + 1] i) = false) :
    if valid (next i) then 0 < driveLoop valid next 0 rounds i 0
    else driveLoop valid next 0 rounds i 0 = 0 := by
  cases rounds with
  | zero =>
      have hnext : valid (next i) = false := hend
      rw [hnext, if_neg Bool.false_ne_true, driveLoop]
  | succ rounds =>
      rw [driveLoop]
      split
      · rw [if_neg (by omega)]
        exact Int.lt_of_lt_of_le Int.one_pos (le_driveLoop_zero valid next (by omega))
      · rfl

end Loop

theorem iterate_add_one (n : Nat) (i : Int) : (fun j : Int => j + 1)^[n] i = i + n := by
  induction n generalizing i with
  | zero => simp
  | succ n ih =>
      rw [Function.iterate_succ_apply, ih]
      omega

theorem iterate_sub_one (n : Nat) (i : Int) : (fun j : Int => j - 1)^[n] i = i - n := by
  induction n generalizing i with
  | zero => simp
  | succ n ih =>
      rw [Function.iterate_succ_apply, ih]
      omega

theorem isEmptyCell_eq_false {p : Int × Int}
    (h : p.1 < 1 ∨ p.1 > g.getRows ∨ p.2 < 1 ∨ p.2 > g.getCols) : g.isEmptyCell p = false := by
  rw [Grid.isEmptyCell, Grid.isValidPosition, if_pos h]

theorem range_of_isEmptyCell {p : Int × Int} (h : g.isEmptyCell p = true) :
    1 ≤ p.1 ∧ p.1 ≤ g.getRows ∧ 1 ≤ p.2 ∧ p.2 ≤ g.getCols := by
  by_contra hout
  rw [isEmptyCell_eq_false (by omega)] at h
  exact Bool.false_ne_true h

/-- The loop that `driveSegment` runs goes along a lane of the grid. -/
theorem exists_lane {p : Int × Int} {dir : Char} (hp : g.isEmptyCell p = true)
    (hdir : dir ∈ validDirections) :
    ∃ (lane : Int → Int × Int) (next : Int → Int) (rounds : Nat) (i : Int),
      lane i = p ∧ (∀ j, lane (next j) = neighbour dir (lane j)) ∧
      g.isEmptyCell (lane (next^[rounds + 1] i)) = false ∧
      ∀ m : Int, 0 ≤ m → driveSegment g p.1 p.2 dir m =
        driveLoop (fun j => g.isEmptyCell (lane j)) next m rounds i 0 := by
  obtain ⟨r, c⟩ := p
  have hrange := range_of_isEmptyCell hp
  have hvalid : g.isValidPosition r c = true := hp
  have hsegment (m : Int) (hm : 0 ≤ m) : ¬ m < 0 := Int.not_lt.mpr hm
  rcases mem_validDirections_iff.mp hdir with h | h | h | h
  · refine ⟨fun i => (i, c), (· - 1), r.toNat, r, rfl, fun j => ?_, ?_, fun m hm => ?_⟩
    · simp [neighbour, h]
    · rw [iterate_sub_one]
      exact isEmptyCell_eq_false (by left; simp only; omega)
    · simp [driveSegment, hvalid, hsegment m hm, hdir, h, Grid.isEmptyCell]
  · refine ⟨fun i => (i, c), (· + 1), (g.getRows - r).toNat, r, rfl, fun j => ?_, ?_,
      fun m hm => ?_⟩
    · simp [neighbour, h]
    · rw [iterate_add_one]
      exact isEmptyCell_eq_false (by right; left; simp only; omega)
    · simp [driveSegment, hvalid, hsegment m hm, hdir, h, Grid.isEmptyCell]
  · refine ⟨fun i => (r, i), (· + 1), (g.getCols - c).toNat, c, rfl, fun j => ?_, ?_,
      fun m hm => ?_⟩
    · simp [neighbour, h]
    · rw [iterate_add_one]
      exact isEmptyCell_eq_false (by right; right; right; simp only; omega)
    · simp [driveSegment, hvalid, hsegment m hm, hdir, h, Grid.isEmptyCell]
  · refine ⟨fun i => (r, i), (· - 1), c.toNat, c, rfl, fun j => ?_, ?_, fun m hm => ?_⟩
    · simp [neighbour, h]
    · rw [iterate_sub_one]
      exact isEmptyCell_eq_false (by right; right; left; simp only; omega)
    · simp [driveSegment, hvalid, hsegment m hm, hdir, h, Grid.isEmptyCell]

/-- A positive number of steps is driven as far as cells are free. -/
theorem driveSegment_eq {p : Int × Int} {dir : Char} {k : Nat} (hp : g.isEmptyCell p = true)
    (hdir : dir ∈ validDirections) (hk : 0 < k) :
    driveSegment g p.1 p.2 dir k = free g.isEmptyCell (neighbour dir) k p := by
  obtain ⟨lane, next, rounds, i, rfl, hnext, hend, hloop⟩ := exists_lane hp hdir
  have heq := driveLoop_eq (fun j => g.isEmptyCell (lane j)) next (d := 0) hend hk
  rw [Int.zero_add, Int.zero_add] at heq
  rw [hloop k (by omega), heq, free_map hnext]

/-- Zero steps are driven up to the obstacle. -/
theorem driveSegment_zero {p : Int × Int} {dir : Char} (hp : g.isEmptyCell p = true)
    (hdir : dir ∈ validDirections) :
    if g.isEmptyCell (neighbour dir p) then 0 < driveSegment g p.1 p.2 dir 0
    else driveSegment g p.1 p.2 dir 0 = 0 := by
  obtain ⟨lane, next, rounds, i, rfl, hnext, hend, hloop⟩ := exists_lane hp hdir
  rw [hloop 0 (Int.le_refl 0), ← hnext]
  exact driveLoop_zero (fun j => g.isEmptyCell (lane j)) next hend

/-- The car at a place after `n` steps. -/
def carAt (p : Int × Int) (n : Nat) : Car :=
  ⟨p.1, p.2, n⟩

/-- `updatePosition` moves the car over `k` cells. -/
theorem updatePosition_eq {p : Int × Int} {dir : Char} {n : Int} (hdir : dir ∈ validDirections)
    (k : Nat) :
    (⟨p.1, p.2, n⟩ : Car).updatePosition dir k =
      ⟨((neighbour dir)^[k] p).1, ((neighbour dir)^[k] p).2, n⟩ := by
  induction k generalizing p with
  | zero => simp [Car.updatePosition]
  | succ k ih =>
      rw [Function.iterate_succ_apply, ← ih]
      rcases mem_validDirections_iff.mp hdir with h | h | h | h <;>
        simp [Car.updatePosition, neighbour, h] <;> omega

theorem drive_carAt (p : Int × Int) (n : Nat) (dir : Char) (m : Int) :
    (carAt p n).drive g dir m =
      if driveSegment g p.1 p.2 dir m < m then .error (n + driveSegment g p.1 p.2 dir m)
      else .ok ((⟨p.1, p.2, n + driveSegment g p.1 p.2 dir m⟩ : Car).updatePosition dir
        (driveSegment g p.1 p.2 dir m)) := rfl

theorem nsteps_updatePosition (car : Car) (dir : Char) (distance : Int) :
    (car.updatePosition dir distance).nsteps = car.nsteps := by
  simp only [Car.updatePosition]
  split_ifs <;> rfl

/-- What an outcome is for the loop over the course. -/
def toExcept : Outcome (Int × Int) → Except Int Car
  | .blocked n => .error n
  | .finished p n => .ok (carAt p n)

/-- The car drives what a segment asks for, unless zero steps meet a free cell. -/
theorem drive_eq {p : Int × Int} {dir : Char} {k : Nat} (n : Nat) (hp : g.isEmptyCell p = true)
    (hdir : dir ∈ validDirections) (hzero : k = 0 → g.isEmptyCell (neighbour dir p) = false) :
    (carAt p n).drive g dir k =
      toExcept (follow g.isEmptyCell neighbour (List.replicate k dir) p n) := by
  have hdistance :
      driveSegment g p.1 p.2 dir k = free g.isEmptyCell (neighbour dir) k p := by
    rcases Nat.eq_zero_or_pos k with rfl | hk
    · have h := driveSegment_zero hp hdir
      rw [hzero rfl, if_neg Bool.false_ne_true] at h
      exact h
    · exact driveSegment_eq hp hdir hk
  have hle : free g.isEmptyCell (neighbour dir) k p ≤ k := free_le k p
  rw [follow_replicate, drive_carAt, hdistance]
  split
  case isTrue hlt =>
    rw [if_neg (by omega)]
    rfl
  case isFalse hge =>
    have hall : free g.isEmptyCell (neighbour dir) k p = k := by omega
    rw [if_pos hall, hall, updatePosition_eq hdir]
    rfl

/-- Zero steps towards a free cell are counted. -/
theorem drive_zero {p : Int × Int} {dir : Char} (n : Nat) (hp : g.isEmptyCell p = true)
    (hdir : dir ∈ validDirections) (hnext : g.isEmptyCell (neighbour dir p) = true) :
    ∃ car, (carAt p n).drive g dir 0 = .ok car ∧ n < car.nsteps := by
  have h := driveSegment_zero hp hdir
  rw [hnext, if_pos rfl] at h
  rw [drive_carAt, if_neg (by omega)]
  refine ⟨_, rfl, ?_⟩
  rw [nsteps_updatePosition]
  show (n : Int) < n + driveSegment g p.1 p.2 dir 0
  omega

end Coursework.Driving
