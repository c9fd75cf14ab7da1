import Mathlib.Data.List.Nodup
import Mathlib.Data.List.Lookmap

/-!
# Dictionaries

A dictionary lists its entries in insertion order, and no key twice. Assigning to a
present key keeps the key's place; a new key comes last. Iteration visits the entries in
this order, so a statement about every iteration is one about the entries, and by
`mem_entries_iff` one about lookups.
-/

namespace Coursework.Python

/-- An insertion-ordered dictionary. -/
structure Dict (κ ν : Type) where
  entries : List (κ × ν)
  nodup : (entries.map Prod.fst).Nodup

namespace Dict

variable {κ ν : Type} [DecidableEq κ]

/-- `{}`. -/
def empty : Dict κ ν :=
  ⟨[], List.nodup_nil⟩

/-- The value of a key. -/
def get? (dict : Dict κ ν) (key : κ) : Option ν :=
  dict.entries.lookup key

/-- `key in dict`. -/
def Contains (dict : Dict κ ν) (key : κ) : Prop :=
  (dict.get? key).isSome

instance (dict : Dict κ ν) (key : κ) : Decidable (dict.Contains key) :=
  inferInstanceAs (Decidable (_ = true))

/-- Overwrite the value of a present key. -/
def replace (key : κ) (value : ν) (entry : κ × ν) : κ × ν :=
  if entry.1 = key then (key, value) else entry

/-- Overwriting values keeps the keys. -/
theorem map_fst_replace (key : κ) (value : ν) (entries : List (κ × ν)) :
    (entries.map (replace key value)).map Prod.fst = entries.map Prod.fst := by
  rw [List.map_map]
  refine List.map_congr_left fun entry _ => ?_
  by_cases h : entry.1 = key <;> simp [replace, h]

/-- `dict[key] = value`. -/
def set (dict : Dict κ ν) (key : κ) (value : ν) : Dict κ ν :=
  if h : key ∈ dict.entries.map Prod.fst then
    ⟨dict.entries.map (replace key value), (map_fst_replace key value _).symm ▸ dict.nodup⟩
  else
    ⟨dict.entries ++ [(key, value)], by
      rw [List.map_append, List.nodup_append]
      refine ⟨dict.nodup, by simp, fun first hfirst second hsecond heq => h ?_⟩
      cases List.mem_singleton.1 hsecond
      exact (show first = key from heq) ▸ hfirst⟩

/-- A lookup finds an entry with its key. -/
theorem mem_of_lookup {entries : List (κ × ν)} {key : κ} {value : ν}
    (h : entries.lookup key = some value) : (key, value) ∈ entries := by
  induction entries with
  | nil => simp at h
  | cons entry entries ih =>
      rw [List.lookup_cons] at h
      by_cases heq : key = entry.1
      · simp only [heq, beq_self_eq_true, Option.some.injEq] at h
        rw [heq, ← h]
        exact List.mem_cons_self
      · simp only [beq_false_of_ne heq] at h
        exact List.mem_cons_of_mem _ (ih h)

/-- With distinct keys a lookup finds every entry. -/
theorem lookup_of_mem {entries : List (κ × ν)} (hnodup : (entries.map Prod.fst).Nodup) {key : κ}
    {value : ν} (h : (key, value) ∈ entries) : entries.lookup key = some value := by
  induction entries with
  | nil => simp at h
  | cons entry entries ih =>
      obtain ⟨hnotin, hnodup⟩ := List.nodup_cons.1 hnodup
      rw [List.lookup_cons]
      rcases List.mem_cons.1 h with rfl | h
      · simp
      · have hne : key ≠ entry.1 := fun heq =>
          hnotin (heq ▸ List.mem_map_of_mem (f := Prod.fst) h)
        rw [beq_false_of_ne hne]
        exact ih hnodup h

/-- The entries are the lookups. -/
theorem mem_entries_iff {dict : Dict κ ν} {key : κ} {value : ν} :
    (key, value) ∈ dict.entries ↔ dict.get? key = some value :=
  ⟨lookup_of_mem dict.nodup, mem_of_lookup⟩

/-- The empty dictionary has no values. -/
@[simp] theorem get?_empty (key : κ) : (empty : Dict κ ν).get? key = none := rfl

/-- A lookup fails exactly on the keys that do not occur. -/
theorem lookup_eq_none_iff {entries : List (κ × ν)} {key : κ} :
    entries.lookup key = none ↔ key ∉ entries.map Prod.fst := by
  induction entries with
  | nil => simp
  | cons entry entries ih =>
      rw [List.lookup_cons]
      by_cases heq : key = entry.1
      · simp [heq]
      · simp [beq_false_of_ne heq, ih, heq]

/-- Lookups after overwriting. -/
theorem lookup_map_replace (entries : List (κ × ν)) (key other : κ) (value : ν) :
    (entries.map (replace key value)).lookup other =
      if other = key then (entries.lookup key).map fun _ => value else entries.lookup other := by
  induction entries with
  | nil => simp
  | cons entry entries ih =>
      rw [List.map_cons, List.lookup_cons, ih, List.lookup_cons, List.lookup_cons]
      by_cases hentry : entry.1 = key <;> by_cases hother : other = key
      · simp [replace, hentry, hother]
      · simp [replace, hentry, hother, beq_false_of_ne hother]
      · simp [replace, hentry, hother, beq_false_of_ne (Ne.symm hentry)]
      · simp [replace, hentry, hother]

/-- Lookups after an assignment. -/
theorem get?_set (dict : Dict κ ν) (key other : κ) (value : ν) :
    (dict.set key value).get? other = if other = key then some value else dict.get? other := by
  by_cases hmem : key ∈ dict.entries.map Prod.fst
  · obtain ⟨old, hold⟩ : ∃ old, dict.entries.lookup key = some old := by
      rw [← Option.isSome_iff_exists, Option.isSome_iff_ne_none, ne_eq, lookup_eq_none_iff]
      exact not_not_intro hmem
    simp only [set, dif_pos hmem, get?, lookup_map_replace, hold, Option.map_some]
  · simp only [set, dif_neg hmem, get?, List.lookup_append]
    by_cases hother : other = key
    · simp [hother, lookup_eq_none_iff.2 hmem]
    · simp [hother, beq_false_of_ne hother, List.lookup_cons]

end Dict

end Coursework.Python
