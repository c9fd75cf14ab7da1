import Mathlib.Algebra.GroupWithZero.Nat
import Mathlib.Data.List.Chain

/-!
# Groups of equal elements

A list as its maximal groups of equal consecutive elements. A group is an element and the number of
the further copies behind it. `flat_groups` and `differ_groups` say that the groups of a list make
it up and that neighbouring groups differ.
-/

namespace Coursework.Groups

variable {α : Type*}

/-- The list that groups make up. -/
def flat (groups : List (α × Nat)) : List α :=
  groups.flatMap fun g => List.replicate (g.2 + 1) g.1

/-- One element of each group. -/
def heads (groups : List (α × Nat)) : List α :=
  groups.map Prod.fst

/-- The number of elements besides the first ones of the groups. -/
def extras (groups : List (α × Nat)) : Nat :=
  (groups.map Prod.snd).sum

@[simp] theorem flat_nil : flat ([] : List (α × Nat)) = [] := rfl

@[simp] theorem flat_cons (g : α × Nat) (groups : List (α × Nat)) :
    flat (g :: groups) = g.1 :: (List.replicate g.2 g.1 ++ flat groups) := rfl

@[simp] theorem heads_nil : heads ([] : List (α × Nat)) = [] := rfl

@[simp] theorem heads_cons (g : α × Nat) (groups : List (α × Nat)) :
    heads (g :: groups) = g.1 :: heads groups := rfl

@[simp] theorem heads_append (groups groups' : List (α × Nat)) :
    heads (groups ++ groups') = heads groups ++ heads groups' :=
  List.map_append

@[simp] theorem flat_append (groups groups' : List (α × Nat)) :
    flat (groups ++ groups') = flat groups ++ flat groups' :=
  List.flatMap_append

@[simp] theorem length_heads (groups : List (α × Nat)) : (heads groups).length = groups.length :=
  List.length_map _

@[simp] theorem extras_nil : extras ([] : List (α × Nat)) = 0 := rfl

@[simp] theorem extras_cons (g : α × Nat) (groups : List (α × Nat)) :
    extras (g :: groups) = g.2 + extras groups := rfl

/-- Every group has an element. -/
theorem mem_flat_iff {x : α} {groups : List (α × Nat)} : x ∈ flat groups ↔ x ∈ heads groups := by
  induction groups with
  | nil => exact Iff.rfl
  | cons g groups ih =>
      rw [flat_cons, heads_cons, List.mem_cons, List.mem_append, ih, List.mem_cons]
      refine ⟨?_, fun h => h.imp_right .inr⟩
      rintro (h | h | h)
      · exact .inl h
      · exact .inl (List.eq_of_mem_replicate h)
      · exact .inr h

/-- Neighbouring groups differ. -/
def Differ (groups : List (α × Nat)) : Prop :=
  (heads groups).IsChain (· ≠ ·)

theorem Differ.tail {g : α × Nat} {groups : List (α × Nat)} (h : Differ (g :: groups)) :
    Differ groups :=
  List.IsChain.tail h

theorem Differ.of_append {groups groups' : List (α × Nat)} (h : Differ (groups ++ groups')) :
    Differ groups' := by
  rw [Differ, heads_append] at h
  exact h.right_of_append

/-- The first element behind a group is another one. -/
theorem Differ.head?_ne {g : α × Nat} {groups : List (α × Nat)} (h : Differ (g :: groups)) :
    (flat groups).head? ≠ some g.1 := by
  cases groups with
  | nil => exact nofun
  | cons g' groups =>
      have hne : g.1 ≠ g'.1 := (List.isChain_cons_cons.1 h).1
      exact fun heq => hne (Option.some.inj heq).symm

variable [DecidableEq α]

/-- An element in front of the groups. -/
def consElement (x : α) : List (α × Nat) → List (α × Nat)
  | [] => [(x, 0)]
  | g :: groups => if x = g.1 then (x, g.2 + 1) :: groups else (x, 0) :: g :: groups

/-- The groups of a list. -/
def groups : List α → List (α × Nat)
  | [] => []
  | x :: l => consElement x (groups l)

example : groups [3, 3, 1, 3] = [(3, 1), (1, 0), (3, 0)] := by decide

theorem flat_consElement (x : α) (gs : List (α × Nat)) :
    flat (consElement x gs) = x :: flat gs := by
  cases gs with
  | nil => rfl
  | cons g gs =>
      rw [consElement]
      split_ifs with heq
      · subst heq
        rfl
      · rfl

/-- The groups of a list make it up. -/
theorem flat_groups (l : List α) : flat (groups l) = l := by
  induction l with
  | nil => rfl
  | cons x l ih => rw [groups, flat_consElement, ih]

theorem differ_consElement (x : α) {gs : List (α × Nat)} (h : Differ gs) :
    Differ (consElement x gs) := by
  cases gs with
  | nil => exact List.isChain_singleton x
  | cons g gs =>
      rw [consElement]
      split_ifs with heq
      · subst heq
        exact h
      · exact List.isChain_cons_cons.2 ⟨heq, h⟩

/-- Neighbouring groups of a list differ. -/
theorem differ_groups (l : List α) : Differ (groups l) := by
  induction l with
  | nil => exact List.isChain_nil
  | cons x l ih => exact differ_consElement x ih

end Coursework.Groups
