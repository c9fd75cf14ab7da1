import Mathlib.Data.List.Perm.Subperm
import Mathlib.Logic.Function.Basic

/-!
# Allocated cells

A store of cells with `new` and `delete`. Reading or writing a cell through a null pointer or
a pointer to a deleted cell is `none`. The address of a new cell is any address that is not
allocated, also one that was deleted before: a store carries the addresses that the
allocator will choose, and results hold for all of them. `Confined` says which cells a step may
change (`Confined.trans` composes steps).
-/

namespace Coursework.Heap

/-- The allocated cells, a bound for their addresses and the next choices of the allocator. -/
structure Store (β : Type) where
  cell? : Nat → Option β
  limit : Nat
  free_above : ∀ a, limit ≤ a → cell? a = none
  choices : List Nat

/-- A pointer; `none` is the null pointer. -/
abbrev Ptr := Option Nat

variable {β : Type}

namespace Store

/-- A store without cells. -/
def empty (choices : List Nat) : Store β where
  cell? _ := none
  limit := 0
  free_above _ _ := rfl
  choices := choices

/-- Read the cell behind a pointer. -/
def load (s : Store β) (p : Ptr) : Option β :=
  p.bind s.cell?

/-- Write a cell. -/
def set (s : Store β) (a : Nat) (cell : β) : Store β where
  cell? := Function.update s.cell? a (some cell)
  limit := max s.limit (a + 1)
  free_above b hb := by
    rw [Function.update_of_ne (by omega)]
    exact s.free_above b (by omega)
  choices := s.choices

/-- Remove a cell. -/
def erase (s : Store β) (a : Nat) : Store β where
  cell? := Function.update s.cell? a none
  limit := s.limit
  free_above b hb := by
    by_cases h : b = a
    · rw [h, Function.update_self]
    · rw [Function.update_of_ne h]
      exact s.free_above b hb
  choices := s.choices

/-- Change the cell behind a pointer. -/
def modify (s : Store β) (p : Ptr) (f : β → β) : Option (Store β) := do
  let a ← p
  let cell ← s.cell? a
  pure (s.set a (f cell))

/-- `delete`, which does nothing to a null pointer. -/
def delete (s : Store β) : Ptr → Option (Store β)
  | none => some s
  | some a => (s.cell? a).map fun _ => s.erase a

/-- The address of the next cell: the allocator's choice if it is not allocated. -/
def fresh (s : Store β) : Nat :=
  match s.choices with
  | [] => s.limit
  | a :: _ => if (s.cell? a).isNone then a else s.limit

/-- The store after `new`, which has put a cell at the fresh address. -/
def new (s : Store β) (cell : β) : Store β :=
  { s.set s.fresh cell with choices := s.choices.tail }

@[simp] theorem cell?_set (s : Store β) (a b : Nat) (cell : β) :
    (s.set a cell).cell? b = if b = a then some cell else s.cell? b := by
  simp only [set, Function.update_apply]

@[simp] theorem cell?_erase (s : Store β) (a b : Nat) :
    (s.erase a).cell? b = if b = a then none else s.cell? b := by
  simp only [erase, Function.update_apply]

@[simp] theorem cell?_new (s : Store β) (cell : β) (b : Nat) :
    (s.new cell).cell? b = if b = s.fresh then some cell else s.cell? b :=
  cell?_set s s.fresh b cell

@[simp] theorem load_some (s : Store β) (a : Nat) : s.load (some a) = s.cell? a := rfl

/-- The address of a new cell is not allocated. -/
theorem cell?_fresh (s : Store β) : s.cell? s.fresh = none := by
  unfold fresh
  split
  · exact s.free_above _ (Nat.le_refl _)
  · split
    · next hnone => exact Option.isNone_iff_eq_none.1 hnone
    · exact s.free_above _ (Nat.le_refl _)

/-- An allocated cell is changed. -/
theorem modify_eq {s : Store β} {a : Nat} {cell : β} (h : s.cell? a = some cell) (f : β → β) :
    s.modify (some a) f = some (s.set a (f cell)) := by
  simp [modify, h]

/-- An allocated cell is deleted. -/
theorem delete_eq {s : Store β} {a : Nat} {cell : β} (h : s.cell? a = some cell) :
    s.delete (some a) = some (s.erase a) := by
  simp [delete, h]

/-- Distinct allocated addresses are fewer than the bound. -/
theorem length_le_limit (s : Store β) {addresses : List Nat} (hnodup : addresses.Nodup)
    (h : ∀ a ∈ addresses, s.cell? a ≠ none) : addresses.length ≤ s.limit := by
  have hsub : addresses ⊆ List.range s.limit := by
    intro a ha
    rw [List.mem_range]
    by_contra hlimit
    exact h a ha (s.free_above a (Nat.not_lt.1 hlimit))
  simpa using (hnodup.subperm hsub).length_le

end Store

/-- From `s` to `s'` only the cells at `old` addresses and new cells changed, and the `new`
addresses are among these. -/
structure Confined (s s' : Store β) (old new : List Nat) : Prop where
  kept : ∀ a, a ∉ old → s.cell? a ≠ none → s'.cell? a = s.cell? a
  fresh : ∀ a ∈ new, a ∈ old ∨ s.cell? a = none

namespace Confined

variable {s s' s'' : Store β} {old mid new other : List Nat}

/-- Nothing changed. -/
theorem refl (s : Store β) (old : List Nat) : Confined s s old old :=
  ⟨fun _ _ _ => rfl, fun _ ha => .inl ha⟩

/-- Two steps. -/
theorem trans (h : Confined s s' old mid) (h' : Confined s' s'' mid new) :
    Confined s s'' old new := by
  refine ⟨fun a hold halloc => ?_, fun a hnew => ?_⟩
  · have hmid : a ∉ mid := fun hmem => (h.fresh a hmem).elim hold halloc
    have hkept := h.kept a hold halloc
    rw [h'.kept a hmid (hkept ▸ halloc), hkept]
  · by_contra hnot
    rw [not_or] at hnot
    obtain ⟨hold, halloc⟩ := hnot
    rcases h'.fresh a hnew with hmem | hfree
    · exact (h.fresh a hmem).elim hold halloc
    · exact halloc ((h.kept a hold halloc).symm.trans hfree)

/-- One new cell. -/
theorem of_new {cell : β}
    (hkept : ∀ a, a ≠ s.fresh → a ∉ old → s'.cell? a = (s.new cell).cell? a)
    (hnew : ∀ a ∈ new, a = s.fresh ∨ a ∈ old) : Confined s s' old new := by
  refine ⟨fun a hold halloc => ?_, fun a ha => ?_⟩
  · have hne : a ≠ s.fresh := fun heq => halloc (heq ▸ s.cell?_fresh)
    rw [hkept a hne hold, Store.cell?_new, if_neg hne]
  · rcases hnew a ha with rfl | hold
    · exact .inr s.cell?_fresh
    · exact .inl hold

/-- Allocated cells elsewhere are kept and stay elsewhere. -/
theorem disjoint (h : Confined s s' old new) (hother : ∀ a ∈ other, s.cell? a ≠ none)
    (hdisj : ∀ a ∈ other, a ∉ old) :
    (∀ a ∈ other, s'.cell? a = s.cell? a) ∧ ∀ a ∈ other, a ∉ new := by
  refine ⟨fun a ha => h.kept a (hdisj a ha) (hother a ha), fun a ha hnew => ?_⟩
  exact (h.fresh a hnew).elim (hdisj a ha) (hother a ha)

end Confined

/-- Objects in separate cells stay so when one of them gets cells that no other one has. -/
theorem separate_update {ι γ : Type} [DecidableEq ι] {f : γ → List Nat} {parts : ι → γ} {i : ι}
    {part : γ} (h : ∀ {k l}, k ≠ l → ∀ a ∈ f (parts k), a ∉ f (parts l))
    (hpart : ∀ k, k ≠ i → ∀ a ∈ f (parts k), a ∉ f part) {k l : ι} (hkl : k ≠ l) :
    ∀ a ∈ f (Function.update parts i part k), a ∉ f (Function.update parts i part l) := by
  intro a ha
  by_cases hki : k = i
  · subst hki
    rw [Function.update_self] at ha
    rw [Function.update_of_ne (Ne.symm hkl)]
    exact fun hmem => hpart l (Ne.symm hkl) a hmem ha
  · rw [Function.update_of_ne hki] at ha
    by_cases hli : l = i
    · subst hli
      rw [Function.update_self]
      exact hpart k hki a ha
    · rw [Function.update_of_ne hli]
      exact h hkl a ha

/-- A step that is confined and keeps account: the cells allocated afterwards are at `new`
addresses or elsewhere than the `old` ones. -/
structure Replaces (s s' : Store β) (old new : List Nat) : Prop extends Confined s s' old new where
  left : ∀ a, s'.cell? a ≠ none → a ∈ new ∨ a ∉ old ∧ s.cell? a ≠ none

namespace Replaces

variable {s s' s'' : Store β} {old mid new : List Nat}

/-- Nothing changed. -/
theorem refl (s : Store β) (old : List Nat) : Replaces s s old old where
  toConfined := .refl s old
  left := by
    intro a ha
    by_cases hmem : a ∈ old
    · exact .inl hmem
    · exact .inr ⟨hmem, ha⟩

/-- Two steps. -/
theorem trans (h : Replaces s s' old mid) (h' : Replaces s' s'' mid new) :
    Replaces s s'' old new where
  toConfined := h.toConfined.trans h'.toConfined
  left := by
    intro a ha
    rcases h'.left a ha with hnew | ⟨hmid, halloc⟩
    · exact .inl hnew
    · exact .inr ((h.left a halloc).resolve_left hmid)

/-- One new cell. -/
theorem of_new (cell : β)
    (hcells : ∀ a, a ≠ s.fresh → a ∉ old → s'.cell? a = (s.new cell).cell? a)
    (hnew : ∀ a, a ∈ new ↔ a = s.fresh ∨ a ∈ old) : Replaces s s' old new where
  toConfined := .of_new hcells fun a ha => (hnew a).1 ha
  left := by
    intro a ha
    by_cases hmem : a ∈ new
    · exact .inl hmem
    · rw [hnew, not_or] at hmem
      obtain ⟨hfresh, hold⟩ := hmem
      rw [hcells a hfresh hold, Store.cell?_new, if_neg hfresh] at ha
      exact .inr ⟨hold, ha⟩

/-- One cell less. -/
theorem of_erase {a : Nat} (hmem : ∀ b, b ∈ old ↔ b = a ∨ b ∈ new) :
    Replaces s (s.erase a) old new where
  kept := by
    intro b hb _
    have hne : b ≠ a := fun heq => hb ((hmem b).2 (.inl heq))
    rw [Store.cell?_erase, if_neg hne]
  fresh := fun b hb => .inl ((hmem b).2 (.inr hb))
  left := by
    intro b hb
    rw [Store.cell?_erase] at hb
    split at hb
    · exact absurd rfl hb
    · next hne =>
      by_cases hnew : b ∈ new
      · exact .inl hnew
      · exact .inr ⟨fun hold => ((hmem b).1 hold).elim hne hnew, hb⟩

end Replaces

end Coursework.Heap
