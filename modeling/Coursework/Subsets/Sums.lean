import Mathlib.Algebra.BigOperators.Group.List.Basic
import Mathlib.Algebra.Ring.Int.Defs
import Mathlib.Data.List.Infix

/-!
# Sums of combinations of elements

`addEmUp` of `recursion.cpp`. The array is the list of its elements from the pointer on, and a
read behind its last element is `none`. Numbers are unbounded, so what the function does when a
difference leaves the range of `int` is not described. A search with a target that is not
negative never fails: it takes an element whenever the element is not greater than what is left of
the target, and it goes on until nothing is left or behind the array. `addEmUp_right_iff` says
from this when the result is right.
-/

namespace Coursework.Subsets

/-- `addEmUp`. -/
def addEmUp : List Int → (size target : Int) → Option Bool
  | [], _, _ => none
  | current :: a, size, target =>
      if target < 0 then some false
      else if target - current = 0 ∨ target = 0 then some true
      else if size = 0 then some false
      else if current = target then some true
      else do
        if ← addEmUp a (size - 1) (target - current) then some true
        else if ← addEmUp a (size - 1) target then some true
        else some false

example : addEmUp [2, 4, 8] 3 6 = some true := by decide

/-- The elements at some positions of the array, possibly none, have this sum. -/
def IsSum (a : List Int) (target : Int) : Prop :=
  ∃ taken : List Int, taken.Sublist a ∧ taken.sum = target

/-- What is left of a target when an element is taken unless it is too large. -/
def leftOver (target current : Int) : Int :=
  if current ≤ target then target - current else target

/-- Taking the elements in order uses a target up within the array. -/
def UsedUp (a : List Int) (target : Int) : Prop :=
  ∃ front, front <+: a ∧ front.foldl leftOver target = 0

theorem leftOver_nonneg {target : Int} (h : 0 ≤ target) (current : Int) :
    0 ≤ leftOver target current := by
  unfold leftOver
  split <;> omega

/-! ## What is a sum -/

theorem isSum_zero (a : List Int) : IsSum a 0 :=
  ⟨[], List.nil_sublist a, rfl⟩

/-- An element is taken or not. -/
theorem isSum_cons {current target : Int} {a : List Int} :
    IsSum (current :: a) target ↔ IsSum a (target - current) ∨ IsSum a target := by
  constructor
  · intro h
    obtain ⟨taken, hsub, hsum⟩ := h
    cases hsub with
    | cons _ hsub => exact .inr ⟨taken, hsub, hsum⟩
    | cons_cons _ hsub =>
        rw [List.sum_cons] at hsum
        exact .inl ⟨_, hsub, by omega⟩
  · intro h
    cases h with
    | inl h =>
        obtain ⟨taken, hsub, hsum⟩ := h
        refine ⟨current :: taken, hsub.cons_cons current, ?_⟩
        rw [List.sum_cons, hsum]
        omega
    | inr h =>
        obtain ⟨taken, hsub, hsum⟩ := h
        exact ⟨taken, hsub.cons current, hsum⟩

/-- Either nothing is left of the target, or the next element is taken or skipped. -/
theorem usedUp_cons {current target : Int} {a : List Int} :
    UsedUp (current :: a) target ↔ target = 0 ∨ UsedUp a (leftOver target current) := by
  constructor
  · intro h
    obtain ⟨front, hfront, hzero⟩ := h
    cases front with
    | nil => exact .inl hzero
    | cons taken front =>
        rw [List.cons_prefix_cons] at hfront
        obtain ⟨rfl, hfront⟩ := hfront
        exact .inr ⟨front, hfront, hzero⟩
  · intro h
    cases h with
    | inl h => exact ⟨[], List.nil_prefix, h⟩
    | inr h =>
        obtain ⟨front, hfront, hzero⟩ := h
        exact ⟨current :: front, List.cons_prefix_cons.mpr ⟨rfl, hfront⟩, hzero⟩

theorem usedUp_nil {target : Int} : UsedUp [] target ↔ target = 0 := by
  constructor
  · intro h
    obtain ⟨front, hfront, hzero⟩ := h
    rwa [List.prefix_nil.mp hfront] at hzero
  · intro h
    exact ⟨[], List.nil_prefix, h⟩

/-- A target that is used up is the sum of the elements that were taken. -/
theorem UsedUp.isSum {a : List Int} {target : Int} (h : UsedUp a target) : IsSum a target := by
  induction a generalizing target with
  | nil =>
      rw [usedUp_nil.mp h]
      exact isSum_zero []
  | cons current a ih =>
      rcases usedUp_cons.mp h with rfl | h
      · exact isSum_zero (current :: a)
      · have hrest := ih h
        rw [isSum_cons]
        unfold leftOver at hrest
        split at hrest
        · exact .inl hrest
        · exact .inr hrest

/-! ## What the search returns -/

/-- With a negative target the array is read once. -/
theorem addEmUp_neg {a : List Int} {size target : Int} (h : target < 0) :
    addEmUp a size target = if a = [] then none else some false := by
  cases a with
  | nil => rfl
  | cons current a => rw [addEmUp, if_pos h, if_neg (List.cons_ne_nil current a)]

theorem length_cons_sub_one (current : Int) (a : List Int) :
    ((current :: a).length : Int) - 1 = a.length := by
  rw [List.length_cons]
  omega

/-- A search with a target that is not negative does not fail. -/
theorem addEmUp_ne_false {a : List Int} {target : Int} (h : 0 ≤ target) :
    addEmUp a a.length target ≠ some false := by
  induction a with
  | nil =>
      show none ≠ some false
      simp
  | cons current a ih =>
      rw [addEmUp, if_neg (by omega), length_cons_sub_one]
      split
      case isTrue => simp
      case isFalse =>
        rw [if_neg (by simp; omega), if_neg (by omega)]
        -- the last search has the same target again
        cases addEmUp a a.length (target - current) with
        | none => simp
        | some found =>
            cases hlast : addEmUp a a.length target with
            | none => cases found <;> simp
            | some found' =>
                cases found' with
                | false => exact absurd hlast ih
                | true => cases found <;> simp

/-- The search goes on with what is left of the target. -/
theorem addEmUp_cons {current target : Int} {a : List Int} (h : 0 < target) :
    addEmUp (current :: a) (current :: a).length target =
      if current = target then some true
      else addEmUp a a.length (leftOver target current) := by
  rw [addEmUp, if_neg (by omega), length_cons_sub_one]
  split
  case isTrue hfound => rw [if_pos (by omega)]
  case isFalse hfound =>
    have hne : current ≠ target := by omega
    rw [if_neg (by simp; omega), if_neg hne, if_neg hne]
    by_cases hle : current ≤ target
    · -- the element is taken, and the first search decides
      have hfirst : addEmUp a a.length (target - current) ≠ some false :=
        addEmUp_ne_false (by omega)
      rw [leftOver, if_pos hle]
      cases hsearch : addEmUp a a.length (target - current) with
      | none => rfl
      | some found =>
          cases found with
          | false => exact absurd hsearch hfirst
          | true => rfl
    · -- the first search fails, or it reads behind the array as the second one does
      rw [leftOver, if_neg hle, addEmUp_neg (by omega)]
      cases a with
      | nil => rfl
      | cons next a =>
          rw [if_neg (List.cons_ne_nil next a)]
          cases addEmUp (next :: a) (next :: a).length target with
          | none => rfl
          | some found => cases found <;> rfl

/-- A target that is not negative is found if the elements use it up. -/
theorem addEmUp_eq_true_iff {a : List Int} {target : Int} (h : 0 ≤ target) :
    addEmUp a a.length target = some true ↔ a ≠ [] ∧ UsedUp a target := by
  induction a generalizing target with
  | nil => simp [addEmUp]
  | cons current a ih =>
      rw [usedUp_cons]
      rcases Int.lt_or_eq_of_le h with hpos | rfl
      case inr =>
        rw [addEmUp, if_neg (by omega), if_pos (.inr rfl)]
        simp
      case inl =>
        rw [addEmUp_cons hpos]
        split
        case isTrue heq =>
          have hzero : leftOver target current = 0 := by
            rw [leftOver, if_pos (by omega)]
            omega
          rw [hzero]
          simp [show UsedUp a 0 from ⟨[], List.nil_prefix, rfl⟩]
        case isFalse hne =>
          rw [ih (leftOver_nonneg h current)]
          have hleft : leftOver target current ≠ 0 := by
            unfold leftOver
            split <;> omega
          constructor
          · intro hused
            exact ⟨List.cons_ne_nil current a, .inr hused.2⟩
          · intro hused
            have hrest := hused.2.resolve_left (by omega)
            refine ⟨?_, hrest⟩
            rintro rfl
            exact hleft (usedUp_nil.mp hrest)

/-- What the search finds is a sum. -/
theorem addEmUp_sound {a : List Int} {target : Int} (h : addEmUp a a.length target = some true) :
    IsSum a target := by
  by_cases hneg : target < 0
  · rw [addEmUp_neg hneg] at h
    split at h <;> cases h
  · exact ((addEmUp_eq_true_iff (by omega)).mp h).2.isSum

/-- The search reads inside the array only and tells whether the target is a sum. -/
def Right (a : List Int) (target : Int) : Prop :=
  ∃ found, addEmUp a a.length target = some found ∧ (found = true ↔ IsSum a target)

/-- The result is right if there is an element, a negative target is no sum, and the elements, taken
in order unless they are too large, use up a target that is not negative. -/
theorem addEmUp_right_iff (a : List Int) (target : Int) :
    Right a target ↔
      a ≠ [] ∧ (target < 0 → ¬ IsSum a target) ∧ (0 ≤ target → UsedUp a target) := by
  by_cases hneg : target < 0
  · -- the only result is false
    unfold Right
    rw [addEmUp_neg hneg]
    by_cases ha : a = []
    · simp [ha]
    · simp [ha, hneg, show ¬ 0 ≤ target by omega]
  · have hnonneg : 0 ≤ target := by omega
    constructor
    · intro h
      obtain ⟨found, hfound, -⟩ := h
      cases found with
      | false => exact absurd hfound (addEmUp_ne_false hnonneg)
      | true =>
          obtain ⟨ha, hused⟩ := (addEmUp_eq_true_iff hnonneg).mp hfound
          exact ⟨ha, fun h => absurd h hneg, fun _ => hused⟩
    · intro h
      obtain ⟨ha, -, hused⟩ := h
      have hfound := (addEmUp_eq_true_iff hnonneg).mpr ⟨ha, hused hnonneg⟩
      exact ⟨true, hfound, fun _ => addEmUp_sound hfound, fun _ => rfl⟩

/-- The example that is given with the function reads behind the array, and a negative element is
not found. -/
theorem documented_not_right : ¬ Right [2, 4, 8] 10 ∧ ¬ Right [-1] (-1) := by
  constructor
  · intro h
    obtain ⟨found, hfound, -⟩ := h
    have hnone : addEmUp [2, 4, 8] ([2, 4, 8] : List Int).length 10 = none := by decide
    rw [hnone] at hfound
    cases hfound
  · intro h
    obtain ⟨found, hfound, hright⟩ := h
    have hfalse : addEmUp [-1] ([-1] : List Int).length (-1) = some false := by decide
    have htrue : found = true := hright.mpr ⟨[-1], List.Sublist.refl [-1], rfl⟩
    rw [hfalse, htrue] at hfound
    cases hfound

end Coursework.Subsets
