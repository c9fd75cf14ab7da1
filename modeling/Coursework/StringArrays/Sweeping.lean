import Coursework.StringArrays.Marking
import Coursework.StringArrays.Splitting

/-!
# The second loop of `deleteDups`

Moving a mark to the back brings the next element to its place, and the loop goes on behind it. So
of two neighbouring marks only the first one is moved, and the moved marks are counted again when
the loop comes to the back. `kept` and `dropped` say what stays in front and how many marks are
moved on the way; `deleteDups_eq` is the result.
Vocabulary and scope: `Coursework.StringArrays.Program`.
-/

namespace Coursework.StringArrays

open Loops Roster

/-- The elements that stay in front. -/
def kept : List StdString → List StdString
  | [] => []
  | [x] => if x = deleted then [] else [x]
  | x :: y :: l => if x = deleted then y :: kept l else x :: kept (y :: l)

/-- The number of marks that are moved from places in front. -/
def dropped : List StdString → Nat
  | [] => 0
  | [_] => 0
  | x :: y :: l => if x = deleted then dropped l + 1 else dropped (y :: l)

/-! ## The elements that stay -/

section Kept

variable {x y : StdString}

@[simp] theorem kept_nil : kept [] = [] := rfl

@[simp] theorem dropped_nil : dropped [] = 0 := rfl

@[simp] theorem kept_cons_of_ne (h : x ≠ deleted) (l : List StdString) :
    kept (x :: l) = x :: kept l := by
  cases l with
  | nil => exact if_neg h
  | cons y l => exact if_neg h

@[simp] theorem dropped_cons_of_ne (h : x ≠ deleted) (l : List StdString) :
    dropped (x :: l) = dropped l := by
  cases l with
  | nil => rfl
  | cons y l => exact if_neg h

@[simp] theorem kept_deleted : kept [deleted] = [] := if_pos rfl

@[simp] theorem dropped_deleted : dropped [deleted] = 0 := rfl

@[simp] theorem kept_deleted_cons (y : StdString) (l : List StdString) :
    kept (deleted :: y :: l) = y :: kept l := if_pos rfl

@[simp] theorem dropped_deleted_cons (y : StdString) (l : List StdString) :
    dropped (deleted :: y :: l) = dropped l + 1 := if_pos rfl

/-- Every mark that is moved makes room for an element that stays. -/
theorem length_kept_add_dropped (l : List StdString) :
    (kept l).length + dropped l ≤ l.length := by
  induction l using kept.induct with
  | case1 => exact Nat.le_refl 0
  | case2 => simp
  | case3 x h => simp [h]
  | case4 y l ih =>
      rw [kept_deleted_cons, dropped_deleted_cons]
      simp only [List.length_cons]
      omega
  | case5 x y l h ih =>
      rw [kept_cons_of_ne h, dropped_cons_of_ne h]
      simp only [List.length_cons] at ih ⊢
      omega

theorem kept_append {l : List StdString} (h : deleted ∉ l) (t : List StdString) :
    kept (l ++ t) = l ++ kept t := by
  induction l with
  | nil => rfl
  | cons x l ih =>
      obtain ⟨hne, hmem⟩ := List.ne_and_not_mem_of_not_mem_cons h
      rw [List.cons_append, kept_cons_of_ne (Ne.symm hne), ih hmem, List.cons_append]

theorem dropped_append {l : List StdString} (h : deleted ∉ l) (t : List StdString) :
    dropped (l ++ t) = dropped t := by
  induction l with
  | nil => rfl
  | cons x l ih =>
      obtain ⟨hne, hmem⟩ := List.ne_and_not_mem_of_not_mem_cons h
      rw [List.cons_append, dropped_cons_of_ne (Ne.symm hne), ih hmem]

/-- Of a run of marks at the end every second one stays. -/
theorem kept_replicate (m : Nat) :
    kept (List.replicate m deleted) = List.replicate (m / 2) deleted ∧
      dropped (List.replicate m deleted) = m / 2 := by
  induction m using Nat.twoStepInduction with
  | zero => exact ⟨rfl, rfl⟩
  | one => exact ⟨kept_deleted, rfl⟩
  | more m ih _ =>
      rw [List.replicate_succ, List.replicate_succ, kept_deleted_cons, dropped_deleted_cons,
        ih.1, ih.2, Nat.add_div_right m (by decide), List.replicate_succ]
      exact ⟨rfl, rfl⟩

/-- Of a run of marks in front of another element every second one stays, and the element does. -/
theorem kept_replicate_cons {y : StdString} (hy : y ≠ deleted) (m : Nat) (l : List StdString) :
    kept (List.replicate m deleted ++ y :: l) = List.replicate (m / 2) deleted ++ y :: kept l ∧
      dropped (List.replicate m deleted ++ y :: l) = (m + 1) / 2 + dropped l := by
  induction m using Nat.twoStepInduction with
  | zero => exact ⟨kept_cons_of_ne hy l, by simp [hy]⟩
  | one => exact ⟨kept_deleted_cons y l, by simp [Nat.add_comm]⟩
  | more m ih _ =>
      rw [List.replicate_succ, List.replicate_succ, List.cons_append, List.cons_append,
        kept_deleted_cons, dropped_deleted_cons, ih.1, ih.2, Nat.add_div_right m (by decide),
        List.replicate_succ]
      exact ⟨rfl, by omega⟩

end Kept

/-! ## The loop -/

section Sweeping

variable {n : Nat}

theorem sweepRound_deleted (front back : List StdString) (retained : Int)
    (hn : n = (front ++ deleted :: back).length) :
    sweepRound n front.length (retained, front ++ deleted :: back) =
      some (retained - 1, front ++ back ++ [deleted]) := by
  have hget : (front ++ deleted :: back)[front.length]? = some deleted := by simp
  rw [sweepRound, hget]
  simp only [Option.bind_eq_bind, Option.bind_some, if_true, moveToBack_eq front back deleted hn]

theorem sweepRound_of_ne {x : StdString} (h : x ≠ deleted) (front back : List StdString)
    (retained : Int) :
    sweepRound n front.length (retained, front ++ x :: back) =
      some (retained, front ++ x :: back) := by
  have hget : (front ++ x :: back)[front.length]? = some x := by simp
  rw [sweepRound, hget]
  exact if_neg h

/-- The state before the round `j`: the rest is still in front of the marks that were moved, or
there are only marks left. -/
inductive SweptTo (b : List StdString) (j : Nat) : Int × List StdString → Prop where
  | inside (done rest : List StdString) (moved : Nat) (hj : done.length = j)
      (hkept : done ++ kept rest = kept b) (hdropped : moved + dropped rest = dropped b)
      (hlength : j + rest.length + moved = b.length) :
      SweptTo b j ((b.length : Int) - moved, done ++ (rest ++ List.replicate moved deleted))
  | behind (i : Nat) (hj : j = (kept b).length + i) :
      SweptTo b j ((b.length : Int) - dropped b - i,
        kept b ++ List.replicate (b.length - (kept b).length) deleted)

variable {b : List StdString} {j : Nat} {s : Int × List StdString}

/-- Only marks are left. -/
def marksLeft (b : List StdString) (i : Nat) : Int × List StdString :=
  ((b.length : Int) - dropped b - i,
    kept b ++ List.replicate (b.length - (kept b).length) deleted)

/-- Only marks are left when none of the other elements is. -/
theorem inside_eq_marksLeft {done : List StdString} (left : Nat) {moved : Nat}
    (hkept : done = kept b) (hdropped : moved = dropped b)
    (hlength : done.length + left + moved = b.length) :
    ((b.length : Int) - moved,
      done ++ (List.replicate left deleted ++ List.replicate moved deleted)) = marksLeft b 0 := by
  have hmarks : left + moved = b.length - (kept b).length := by
    rw [← hkept]
    omega
  rw [marksLeft, ← List.replicate_add, hmarks, hkept, hdropped]
  simp

/-- The mark at hand is moved behind the other marks. -/
theorem sweepRound_marksLeft {i : Nat} (hj : j = (kept b).length + i) (hlt : j < b.length) :
    sweepRound b.length j (marksLeft b i) = some (marksLeft b (i + 1)) := by
  obtain ⟨more, hmore⟩ : ∃ more, b.length - (kept b).length = i + (more + 1) :=
    ⟨b.length - (kept b).length - i - 1, by omega⟩
  have hsplit : kept b ++ List.replicate (i + (more + 1)) deleted =
      (kept b ++ List.replicate i deleted) ++ deleted :: List.replicate more deleted := by
    rw [List.replicate_add, List.append_assoc, List.replicate_succ]
  have hplace : j = (kept b ++ List.replicate i deleted).length := by simpa using hj
  have hround := sweepRound_deleted (kept b ++ List.replicate i deleted)
    (List.replicate more deleted) ((b.length : Int) - dropped b - i)
    (show b.length = _ by simp; omega)
  rw [marksLeft, marksLeft, hmore, hsplit, hplace, hround]
  refine congrArg some (Prod.ext ?_ ?_)
  · show (b.length : Int) - dropped b - i - 1 = _
    omega
  · show kept b ++ List.replicate i deleted ++ List.replicate more deleted ++ [deleted] = _
    rw [List.append_assoc, ← List.replicate_succ', List.replicate_succ]

theorem sweepRound_sweptTo (hj : j < b.length) (h : SweptTo b j s) :
    ∃ s', sweepRound b.length j s = some s' ∧ SweptTo b (j + 1) s' := by
  have hmarks : ∀ i, j = (kept b).length + i →
      ∃ s', sweepRound b.length j (marksLeft b i) = some s' ∧ SweptTo b (j + 1) s' := fun i hi =>
    ⟨_, sweepRound_marksLeft hi hj, .behind (i + 1) (by omega)⟩
  cases h with
  | behind i hi => exact hmarks i hi
  | inside done rest moved hdone hkept hdropped hlength =>
      subst hdone
      match rest with
      | [] =>
          rw [kept_nil, List.append_nil] at hkept
          rw [dropped_nil, Nat.add_zero] at hdropped
          have hstate := inside_eq_marksLeft 0 hkept hdropped hlength
          rw [List.replicate_zero] at hstate
          rw [hstate]
          exact hmarks 0 (by rw [hkept, Nat.add_zero])
      | x :: rest =>
        by_cases hx : x = deleted
        swap
        · -- another element stays
          rw [kept_cons_of_ne hx] at hkept
          rw [dropped_cons_of_ne hx] at hdropped
          refine ⟨_, sweepRound_of_ne hx done (rest ++ List.replicate moved deleted) _, ?_⟩
          have hswept := SweptTo.inside (b := b) (done ++ [x]) rest moved rfl
            (by simpa using hkept) hdropped (by simp at hlength ⊢; omega)
          simpa using hswept
        subst hx
        cases rest with
        | nil =>
            rw [kept_deleted, List.append_nil] at hkept
            rw [dropped_deleted, Nat.add_zero] at hdropped
            have hstate := inside_eq_marksLeft 1 hkept hdropped hlength
            rw [show [deleted] = List.replicate 1 deleted from rfl, hstate]
            exact hmarks 0 (by rw [hkept, Nat.add_zero])
        | cons y rest =>
            -- the next element comes to the place of the mark
            rw [kept_deleted_cons] at hkept
            rw [dropped_deleted_cons] at hdropped
            refine ⟨_, sweepRound_deleted done (y :: (rest ++ List.replicate moved deleted)) _
              (by simp at hlength ⊢; omega), ?_⟩
            have hswept := SweptTo.inside (b := b) (done ++ [y]) rest (moved + 1) rfl
              (by simpa using hkept) (by omega) (by simp at hlength ⊢; omega)
            have hstate : ((b.length : Int) - moved - 1,
                done ++ y :: (rest ++ List.replicate moved deleted) ++ [deleted]) =
                ((b.length : Int) - (moved + 1 : Nat),
                  done ++ [y] ++ (rest ++ List.replicate (moved + 1) deleted)) :=
              Prod.ext (by push_cast; omega) (by simp [List.replicate_succ'])
            rw [hstate]
            rwa [List.length_append] at hswept

/-- The second loop. -/
theorem repeatTo_sweepRound (b : List StdString) :
    repeatTo (sweepRound b.length) 0 b.length ((b.length : Int), b) =
      some (((kept b).length : Int) - dropped b,
        kept b ++ List.replicate (b.length - (kept b).length) deleted) := by
  have hle := length_kept_add_dropped b
  obtain ⟨s, hrun, hs⟩ := repeatTo_spec (sweepRound b.length) 0 b.length ((b.length : Int), b)
    (SweptTo b) (Nat.zero_le _) (by
      have h := SweptTo.inside (b := b) [] b 0 rfl rfl (Nat.zero_add _) (by simp)
      simpa using h)
    fun j s _ hj h => sweepRound_sweptTo hj h
  rw [hrun]
  refine congrArg some ?_
  have hmarks : ∀ i, b.length = (kept b).length + i → marksLeft b i =
      (((kept b).length : Int) - dropped b,
        kept b ++ List.replicate (b.length - (kept b).length) deleted) := fun i hi => by
    refine Prod.ext ?_ rfl
    show (b.length : Int) - dropped b - i = (kept b).length - dropped b
    omega
  cases hs with
  | behind i hi => exact hmarks i hi
  | inside done rest moved hdone hkept hdropped hlength =>
      obtain rfl : rest = [] := List.eq_nil_of_length_eq_zero (by omega)
      rw [kept_nil, List.append_nil] at hkept
      rw [dropped_nil, Nat.add_zero] at hdropped
      have hstate := inside_eq_marksLeft 0 hkept hdropped (hdone ▸ hlength)
      rw [List.replicate_zero] at hstate
      rw [hstate]
      exact hmarks 0 (by rw [← hkept, hdone, Nat.add_zero])

end Sweeping

/-- The result of `deleteDups`. -/
def retained (a : List StdString) : Int :=
  (kept (markFrom [] a)).length - dropped (markFrom [] a)

/-- The array that `deleteDups` leaves. -/
def remaining (a : List StdString) : List StdString :=
  kept (markFrom [] a) ++ List.replicate (a.length - (kept (markFrom [] a)).length) deleted

theorem length_kept_le (a : List StdString) : (kept (markFrom [] a)).length ≤ a.length := by
  have h := length_kept_add_dropped (markFrom [] a)
  rw [length_markFrom] at h
  omega

theorem length_remaining (a : List StdString) : (remaining a).length = a.length := by
  have h := length_kept_le a
  rw [remaining, List.length_append, List.length_replicate]
  omega

/-- What `deleteDups` returns and leaves in the array. -/
theorem deleteDups_eq (a : List StdString) :
    deleteDups a a.length = some (retained a, remaining a) := by
  obtain ⟨round, hrun, hround⟩ := countTo_markRound a
  have hsweep := repeatTo_sweepRound (markFrom [] a)
  rw [length_markFrom] at hsweep
  rw [deleteDups, if_neg (by omega), hrun]
  cases round with
  | next b => rw [hround]; exact hsweep
  | leave b => rw [hround]; exact hsweep

end Coursework.StringArrays
