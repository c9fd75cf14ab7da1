import Mathlib.Data.Fintype.Sum
import Mathlib.Data.List.Forall2
import Mathlib.Data.Set.Finite.Basic

/-!
# Pairs that belong together one to one

`exists_injOn_iff` says when the pairs of a list are points of a one-to-one function on a finite
set: exactly if no two of them agree in one component only.
-/

namespace Coursework.Pairs

variable {α β : Type*}

/-- Two pairs agree in both components or in none. -/
def OneToOne (pairs : List (α × β)) : Prop :=
  ∀ x ∈ pairs, ∀ y ∈ pairs, x.1 = y.1 ↔ x.2 = y.2

theorem oneToOne_swap {pairs : List (α × β)} :
    OneToOne (pairs.map Prod.swap) ↔ OneToOne pairs := by
  simp only [OneToOne, List.forall_mem_map, Prod.fst_swap, Prod.snd_swap]
  exact forall₂_congr fun x _ => forall₂_congr fun y _ => Iff.comm

/-- A function makes one list out of another exactly if it does so at each place. -/
theorem map_eq_iff_forall_zip {f : α → β} {l : List α} {l' : List β}
    (hlength : l.length = l'.length) : l.map f = l' ↔ ∀ x ∈ l.zip l', f x.1 = x.2 := by
  rw [← List.forall₂_eq_eq_eq, List.forall₂_map_left_iff, List.forall₂_iff_zip]
  constructor
  · intro h x hx
    exact h.2 hx
  · intro h
    exact ⟨hlength, fun hx => h _ hx⟩

/-- The first components decide the second ones. -/
theorem OneToOne.exists_apply {pairs : List (α × α)} (h : OneToOne pairs) :
    ∃ f : α → α, ∀ x ∈ pairs, f x.1 = x.2 := by
  classical
  refine ⟨fun a => if ha : ∃ b, (a, b) ∈ pairs then ha.choose else a, fun x hx => ?_⟩
  have hx' : ∃ b, (x.1, b) ∈ pairs := ⟨x.2, hx⟩
  show (if ha : ∃ b, (x.1, b) ∈ pairs then ha.choose else x.1) = x.2
  rw [dif_pos hx']
  exact (h _ hx'.choose_spec _ hx).1 rfl

/-- Pairs of members of a finite set are points of a one-to-one function on it. -/
theorem exists_injOn_iff {s : Set α} (hs : s.Finite) {pairs : List (α × α)}
    (hmem : ∀ x ∈ pairs, x.1 ∈ s ∧ x.2 ∈ s) :
    (∃ f : α → α, s.MapsTo f s ∧ s.InjOn f ∧ ∀ x ∈ pairs, f x.1 = x.2) ↔ OneToOne pairs := by
  classical
  constructor
  · rintro ⟨f, -, hinj, hf⟩ x hx y hy
    rw [← hf x hx, ← hf y hy]
    exact ⟨congrArg f, fun heq => hinj (hmem x hx).1 (hmem y hy).1 heq⟩
  · intro h
    have : Fintype s := hs.fintype
    obtain ⟨f, hf⟩ := h.exists_apply
    -- the function on the first components is one to one, and is continued to the whole set
    let t : Set s := {a | ∃ x : α × α, x ∈ pairs ∧ x.1 = a}
    have hmaps : Set.MapsTo (fun a : s => f a) t s.toFinset := by
      rintro a ⟨x, hx, ha⟩
      show f a ∈ (s.toFinset : Set α)
      rw [Set.coe_toFinset, ← ha, hf x hx]
      exact (hmem x hx).2
    have hinj : Set.InjOn (fun a : s => f a) t := by
      rintro a ⟨x, hx, ha⟩ b ⟨y, hy, hb⟩ heq
      simp only [← ha, ← hb, hf x hx, hf y hy] at heq
      exact Subtype.ext (ha.symm.trans (((h x hx y hy).2 heq).trans hb))
    obtain ⟨g, hg⟩ := hmaps.exists_equiv_extend_of_card_eq (Set.toFinset_card s).symm hinj
    refine ⟨fun a => if ha : a ∈ s then g ⟨a, ha⟩ else a, ?_, ?_, ?_⟩
    · intro a ha
      simp only [dif_pos ha]
      exact Set.mem_toFinset.1 (g ⟨a, ha⟩).2
    · intro a ha b hb heq
      simp only [dif_pos ha, dif_pos hb] at heq
      exact congrArg Subtype.val (g.injective (Subtype.ext heq))
    · intro x hx
      simp only [dif_pos (hmem x hx).1]
      rw [hg ⟨x.1, (hmem x hx).1⟩ ⟨x, hx, rfl⟩]
      exact hf x hx

end Coursework.Pairs
